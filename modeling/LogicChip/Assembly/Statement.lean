import LogicChip.Assembly.Lexeme
import LogicChip.Constant.NameHash
import LogicChip.Constant.Packed
import LogicChip.Instruction.Basic

namespace LogicChip.Assembly

/-- Why a line is no statement. -/
inductive Problem where
  /-- A lexeme without a token. -/
  | unexpectedText (text : List Char)
  /-- A token that is no identifier where the mnemonic should be. -/
  | expectedMnemonic (found : Token)
  /-- An identifier where an operand should be. -/
  | expectedConstant (name : String)
  /-- Nothing where an instruction should be. -/
  | missing
  /-- An instruction or a constant that is refused. -/
  | invalid (fault : Fault)
deriving DecidableEq

namespace Problem

/-- The characters of a problem's description. -/
def text : Problem → List Char
  | unexpectedText text => "Unexpected input: ".toList ++ text
  | expectedMnemonic found => "Expected mnemonic, found ".toList ++ found.description
  | expectedConstant name => "Expected constant operand, found '".toList ++ name.toList ++ ['\'']
  | missing => "Empty instruction".toList
  | invalid fault => fault.text

/-- Problems with the form of a line rather than with what it says. -/
def isSyntactic : Problem → Bool
  | invalid _ => false
  | _ => true

end Problem

/-- A problem with the number of its line, counted from one. -/
structure Error where
  line : Nat
  problem : Problem
deriving DecidableEq

/-- The message of an error. -/
def Error.message (error : Error) : String :=
  let opening := if error.problem.isSyntactic then "Syntax error" else "Error"
  String.ofList
    (opening.toList ++ " at line ".toList ++ Text.digits error.line ++ ": ".toList ++
      error.problem.text)

/-- The value of a token as an operand. -/
def Token.operand : Token → Except Problem Binary64
  | .number value => .ok value
  | .infinity negative => .ok (.infinity negative)
  | .hex value | .binary value => .ok (.ofInt value.toNat)
  | .nan => .ok .nan
  | .hash name => .ok (.ofInt (NameHash.ofName name).toInt)
  | .packed characters => (Packed.pack characters).mapError .invalid
  | .identifier name => .error (.expectedConstant name)

namespace Lexeme

/-- The value of a lexeme as an operand. -/
def operand (lexeme : Lexeme) : Except Problem Binary64 :=
  match lexeme.token? with
  | some token => token.operand
  | none => .error (.unexpectedText lexeme.text)

/-- The operation that a lexeme names. -/
def opcode (lexeme : Lexeme) : Except Problem Opcode :=
  match lexeme.token? with
  | some (.identifier name) =>
    match Opcode.ofMnemonic? name with
    | some opcode => .ok opcode
    | none => .error (.invalid (.unknownMnemonic name))
  | some token => .error (.expectedMnemonic token)
  | none => .error (.unexpectedText lexeme.text)

end Lexeme

/-- The statement that lexemes make up: a mnemonic and its operands, or nothing. What is reported is
the first thing wrong of the mnemonic, the operands from left to right, and their number. -/
def statementOfLexemes : List Lexeme → Except Problem (Option Instruction)
  | [] => .ok none
  | first :: rest => do
    let opcode ← first.opcode
    let operands ← rest.mapM Lexeme.operand
    let instruction ← (Instruction.ofOperands opcode operands).mapError .invalid
    pure (some instruction)

/-- The statement of a line. -/
def statement (line : List Char) : Except Problem (Option Instruction) :=
  statementOfLexemes (Lexeme.ofText line)

/-- The instruction of a text that must hold exactly one. Line feeds in it are no line ends, and
errors are reported for line 1. -/
def instruction (text : List Char) : Except Error Instruction :=
  match statement text with
  | .ok (some instruction) => .ok instruction
  | .ok none => .error ⟨1, .missing⟩
  | .error problem => .error ⟨1, problem⟩

end LogicChip.Assembly

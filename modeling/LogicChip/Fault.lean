import LogicChip.Decimal.Layout
import LogicChip.Opcode
import LogicChip.Text.Quoted

namespace LogicChip

/-- A reason to refuse an operand, a constant or an instruction. -/
inductive Fault where
  /-- An infinite operand where an integer is needed. -/
  | notFinite (operand : Binary64)
  /-- An operand whose integer part does not fit into a word of this many bits. -/
  | outOfRange (operand : Binary64) (bits : Nat)
  /-- A bit field that does not lie within the low 53 bits. -/
  | invalidField (start length : Int32)
  | emptyString
  | stringTooLong (length : Nat)
  | nonAscii (character : Char)
  | unknownMnemonic (name : String)
  | operandCount (opcode : Opcode) (found : Nat)
deriving DecidableEq

namespace Fault

/-- Operand faults arise when an instruction runs. A machine passes over such an instruction. -/
def isOperandFault : Fault → Bool
  | notFinite _ | outOfRange .. | invalidField .. => true
  | _ => false

/-- The characters of a fault's message. -/
def text : Fault → List Char
  | notFinite x => "Operand is not finite: ".toList ++ x.text
  | outOfRange x bits =>
    "Operand ".toList ++ x.text ++ " does not fit in ".toList ++ Text.digits bits ++ " bits".toList
  | invalidField start length =>
    "Invalid bit field: start ".toList ++ Text.integer start.toInt ++
      ", length ".toList ++ Text.integer length.toInt ++
      " (field must lie within 53 bits)".toList
  | emptyString => "Cannot pack an empty string".toList
  | stringTooLong length =>
    "String too long to pack: ".toList ++ Text.digits length ++ " characters (max 6)".toList
  | nonAscii c => "Character ".toList ++ Text.quotedChar c ++ " is not 7-bit ASCII".toList
  | unknownMnemonic name => "Unknown mnemonic: ".toList ++ name.toList
  | operandCount opcode found =>
    "Instruction ".toList ++ opcode.mnemonic.toList ++ " takes ".toList ++
      Text.digits opcode.arity ++ " operands, found ".toList ++ Text.digits found

def message (fault : Fault) : String := String.ofList fault.text

end Fault

end LogicChip

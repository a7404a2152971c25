namespace LogicChip

/-- What an instruction does, one operation for each mnemonic. -/
inductive Opcode where
  | sll | sla | srl | sra | and | or | xor | nor | not | ext | ins
  | abs | add | sub | mul | div | mod | pow | sqrt | log | exp | min | max | lerp | move
  | sin | cos | tan | asin | acos | atan | atan2
  | ceil | floor | round | trunc
  | seq | sne | slt | sle | sgt | sge | seqz | snez | sltz | slez | sgtz | sgez | sap | sapz
  | sna | snaz | snan | snanz | select
  | rand
deriving DecidableEq

/-- A group of related operations. -/
inductive Opcode.Family where
  | bitwise | math | trigonometry | rounding | comparison | random
deriving DecidableEq

namespace Opcode

/-- Every operation, family by family. -/
def all : List Opcode := [
  .sll, .sla, .srl, .sra, .and, .or, .xor, .nor, .not, .ext, .ins,
  .abs, .add, .sub, .mul, .div, .mod, .pow, .sqrt, .log, .exp, .min, .max, .lerp, .move,
  .sin, .cos, .tan, .asin, .acos, .atan, .atan2,
  .ceil, .floor, .round, .trunc,
  .seq, .sne, .slt, .sle, .sgt, .sge, .seqz, .snez, .sltz, .slez, .sgtz, .sgez, .sap, .sapz,
  .sna, .snaz, .snan, .snanz, .select,
  .rand]

/-- The word that names the operation in a program. -/
def mnemonic : Opcode → String
  | .sll => "sll"
  | .sla => "sla"
  | .srl => "srl"
  | .sra => "sra"
  | .and => "and"
  | .or => "or"
  | .xor => "xor"
  | .nor => "nor"
  | .not => "not"
  | .ext => "ext"
  | .ins => "ins"
  | .abs => "abs"
  | .add => "add"
  | .sub => "sub"
  | .mul => "mul"
  | .div => "div"
  | .mod => "mod"
  | .pow => "pow"
  | .sqrt => "sqrt"
  | .log => "log"
  | .exp => "exp"
  | .min => "min"
  | .max => "max"
  | .lerp => "lerp"
  | .move => "move"
  | .sin => "sin"
  | .cos => "cos"
  | .tan => "tan"
  | .asin => "asin"
  | .acos => "acos"
  | .atan => "atan"
  | .atan2 => "atan2"
  | .ceil => "ceil"
  | .floor => "floor"
  | .round => "round"
  | .trunc => "trunc"
  | .seq => "seq"
  | .sne => "sne"
  | .slt => "slt"
  | .sle => "sle"
  | .sgt => "sgt"
  | .sge => "sge"
  | .seqz => "seqz"
  | .snez => "snez"
  | .sltz => "sltz"
  | .slez => "slez"
  | .sgtz => "sgtz"
  | .sgez => "sgez"
  | .sap => "sap"
  | .sapz => "sapz"
  | .sna => "sna"
  | .snaz => "snaz"
  | .snan => "snan"
  | .snanz => "snanz"
  | .select => "select"
  | .rand => "rand"

/-- The number of operands. The register that receives the result is not one of them. -/
def arity : Opcode → Nat
  | .rand => 0
  | .not | .abs | .sqrt | .log | .exp | .move | .sin | .cos | .tan | .asin | .acos | .atan
  | .ceil | .floor | .round | .trunc | .seqz | .snez | .sltz | .slez | .sgtz | .sgez | .snan
  | .snanz => 1
  | .ext | .lerp | .sap | .sna | .select => 3
  | .ins => 4
  | _ => 2

def family : Opcode → Family
  | .sll | .sla | .srl | .sra | .and | .or | .xor | .nor | .not | .ext | .ins => .bitwise
  | .abs | .add | .sub | .mul | .div | .mod | .pow | .sqrt | .log | .exp | .min | .max | .lerp
  | .move => .math
  | .sin | .cos | .tan | .asin | .acos | .atan | .atan2 => .trigonometry
  | .ceil | .floor | .round | .trunc => .rounding
  | .rand => .random
  | _ => .comparison

/-- Bitwise operations read their operands as words and can refuse them. -/
def isBitwise (op : Opcode) : Bool := op.family = .bitwise

/-- The operation with a mnemonic, in any mixture of the cases of ASCII letters. -/
def ofMnemonic? (name : String) : Option Opcode :=
  all.find? fun op => op.mnemonic.toList = name.toList.map Char.toLower

theorem arity_le_four (op : Opcode) : op.arity ≤ 4 := by cases op <;> decide

/-- No operation is missing from the list. -/
theorem mem_all (op : Opcode) : op ∈ all := by cases op <;> decide

theorem nodup_all : all.Nodup := by decide

/-- A mnemonic names its own operation. -/
theorem ofMnemonic?_mnemonic (op : Opcode) : ofMnemonic? op.mnemonic = some op := by
  cases op <;> decide

end Opcode

end LogicChip

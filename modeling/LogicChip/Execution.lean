import LogicChip.Binary64.Elementary
import LogicChip.Generator.Basic
import LogicChip.Instruction.Basic
import LogicChip.Operation.Arithmetic
import LogicChip.Operation.Bitwise
import LogicChip.Operation.Condition

namespace LogicChip

namespace Instruction

/-- The value of an instruction, given the fraction that `rand` yields. Only the bitwise
instructions can fail. -/
def evaluate (fraction : Binary64) (instruction : Instruction) : Except Fault Binary64 :=
  let a := instruction.operand 0
  let b := instruction.operand 1
  let c := instruction.operand 2
  let d := instruction.operand 3
  match instruction.opcode with
  | .sll => Bitwise.sll a b
  | .sla => Bitwise.sla a b
  | .srl => Bitwise.srl a b
  | .sra => Bitwise.sra a b
  | .and => Bitwise.and a b
  | .or => Bitwise.or a b
  | .xor => Bitwise.xor a b
  | .nor => Bitwise.nor a b
  | .not => Bitwise.not a
  | .ext => Bitwise.ext a b c
  | .ins => Bitwise.ins a b c d
  | .abs => .ok a.abs
  | .add => .ok (a + b)
  | .sub => .ok (a - b)
  | .mul => .ok (a * b)
  | .div => .ok (a / b)
  | .mod => .ok (Arithmetic.mod a b)
  | .pow => .ok (a.pow b)
  | .sqrt => .ok a.sqrt
  | .log => .ok a.log
  | .exp => .ok a.exp
  | .min => .ok (a.minimum b)
  | .max => .ok (a.maximum b)
  | .lerp => .ok (Arithmetic.lerp a b c)
  | .move => .ok a
  | .sin => .ok a.sin
  | .cos => .ok a.cos
  | .tan => .ok a.tan
  | .asin => .ok a.asin
  | .acos => .ok a.acos
  | .atan => .ok a.atan
  | .atan2 => .ok (a.atan2 b)
  | .ceil => .ok a.ceil
  | .floor => .ok a.floor
  | .round => .ok a.roundEven
  | .trunc => .ok a.trunc
  | .seq => .ok (Condition.seq a b)
  | .sne => .ok (Condition.sne a b)
  | .slt => .ok (Condition.slt a b)
  | .sle => .ok (Condition.sle a b)
  | .sgt => .ok (Condition.sgt a b)
  | .sge => .ok (Condition.sge a b)
  | .seqz => .ok (Condition.seq a 0)
  | .snez => .ok (Condition.sne a 0)
  | .sltz => .ok (Condition.slt a 0)
  | .slez => .ok (Condition.sle a 0)
  | .sgtz => .ok (Condition.sgt a 0)
  | .sgez => .ok (Condition.sge a 0)
  | .sap => .ok (Condition.sap a b c)
  | .sapz => .ok (Condition.sap a 0 b)
  | .sna => .ok (Condition.sna a b c)
  | .snaz => .ok (Condition.sna a 0 b)
  | .snan => .ok (Condition.snan a)
  | .snanz => .ok (Condition.snanz a)
  | .select => .ok (Condition.select a b c)
  | .rand => .ok fraction

/-- Runs an instruction with a generator. A fraction is drawn for `rand` and for nothing else. -/
def execute (instruction : Instruction) (g : Generator) : Except Fault Binary64 × Generator :=
  if instruction.opcode = .rand then
    let (fraction, g) := g.nextFraction
    (instruction.evaluate fraction, g)
  else (instruction.evaluate 0, g)

end Instruction

end LogicChip

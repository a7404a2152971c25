import LogicChip.Fault

namespace LogicChip

/-- The number of operand slots, which is the greatest arity. -/
abbrev Instruction.slotCount : Nat := 4

/-- An operation and its operand slots. Slots from the operation's arity on play no part. -/
structure Instruction where
  opcode : Opcode
  slots : Vector Binary64 Instruction.slotCount
deriving DecidableEq

namespace Instruction

/-- The instruction with the given operands, which must be as many as the operation takes. Slots
that are left over hold zero. -/
def ofOperands (opcode : Opcode) (operands : List Binary64) : Except Fault Instruction :=
  if operands.length = opcode.arity then
    .ok ⟨opcode, Vector.ofFn fun i => operands.getD i 0⟩
  else .error (.operandCount opcode operands.length)

/-- The operands, as many as the operation takes. -/
def operands (instruction : Instruction) : List Binary64 :=
  instruction.slots.toList.take instruction.opcode.arity

/-- An operand by its position; zero from the arity on. -/
def operand (instruction : Instruction) (index : Nat) : Binary64 :=
  instruction.operands.getD index 0

/-- The mnemonic and the operands, with a space before each operand. -/
def text (instruction : Instruction) : List Char :=
  instruction.opcode.mnemonic.toList ++ instruction.operands.flatMap fun x => ' ' :: x.text

instance : ToString Instruction := ⟨fun instruction => String.ofList instruction.text⟩

end Instruction

end LogicChip

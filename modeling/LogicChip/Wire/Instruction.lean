import LogicChip.Binary64.Bits
import LogicChip.Instruction.Basic
import LogicChip.Long.BitField
import LogicChip.Wire.Basic

namespace LogicChip.Wire

def ofValue (x : Binary64) : List UInt8 := ofUInt64 x.toBits

def value : Reader Binary64 := Binary64.ofBits <$> uint64

/-- An operation is its place in the list of all operations. -/
def ofOpcode (op : Opcode) : List UInt8 := ofUInt32 (UInt32.ofNat (Opcode.all.idxOf op))

def opcode : Reader Opcode := do
  let index ← uint32
  match Opcode.all[index.toNat]? with
  | some op => pure op
  | none => refuse

def ofInstruction (instruction : Instruction) : List UInt8 :=
  ofOpcode instruction.opcode ++ instruction.slots.toList.flatMap ofValue

def instruction : Reader Instruction := do
  let op ← opcode
  let a ← value
  let b ← value
  let c ← value
  let d ← value
  pure ⟨op, #v[a, b, c, d]⟩

def ofBitField (field : BitField) : List UInt8 := ofUInt32 field.start ++ ofUInt32 field.length

/-- A bit field is read as it is written, without a check of its range. -/
def bitField : Reader BitField := do
  let start ← uint32
  let length ← uint32
  pure ⟨start, length⟩

end LogicChip.Wire

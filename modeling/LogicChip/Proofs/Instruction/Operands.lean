import LogicChip.Instruction.Basic

namespace LogicChip.Instruction

theorem toList_slots (operands : List Binary64) :
    (Vector.ofFn fun i : Fin slotCount => operands.getD i 0).toList =
      (List.range slotCount).map fun i => operands.getD i 0 := by
  apply List.ext_getElem
  · simp
  · intro i hi _
    simp

theorem take_slots {operands : List Binary64} (h : operands.length ≤ slotCount) :
    ((List.range slotCount).map fun i => operands.getD i 0).take operands.length = operands := by
  apply List.ext_getElem
  · simp [Nat.min_eq_left h]
  · intro i hi hbound
    simp [hbound]

/-- An instruction has the operation and the operands that it was made from. -/
theorem eq_of_ofOperands {op : Opcode} {operands : List Binary64} {instruction : Instruction}
    (h : ofOperands op operands = .ok instruction) :
    instruction.opcode = op ∧ instruction.operands = operands := by
  unfold ofOperands at h
  split at h
  · rename_i hlength
    cases h
    refine ⟨rfl, ?_⟩
    have harity : operands.length ≤ slotCount := hlength ▸ op.arity_le_four
    rw [Instruction.operands, toList_slots, ← hlength, take_slots harity]
  · cases h

/-- An instruction with the given operation and operands, whose other slots hold zero. -/
structure IsMadeOf (instruction : Instruction) (op : Opcode) (operands : List Binary64) : Prop where
  opcode : instruction.opcode = op
  operands : instruction.operands = operands
  unused : ∀ slot ∈ instruction.slots.toList.drop op.arity, slot = 0

theorem IsMadeOf.unique {op : Opcode} {operands : List Binary64} {first second : Instruction}
    (hfirst : first.IsMadeOf op operands) (hsecond : second.IsMadeOf op operands) :
    first = second := by
  obtain ⟨opcode, slots⟩ := first
  obtain ⟨other, others⟩ := second
  obtain ⟨rfl, rfl, hunused⟩ := hfirst
  obtain ⟨hopcode, hoperands, hrest⟩ := hsecond
  obtain rfl : other = opcode := hopcode
  have htake : others.toList.take other.arity = slots.toList.take other.arity := hoperands
  have hdrop : others.toList.drop other.arity = slots.toList.drop other.arity := by
    rw [List.eq_replicate_of_mem hunused, List.eq_replicate_of_mem hrest]
    simp
  have hslots : slots.toList = others.toList := by
    rw [← List.take_append_drop other.arity slots.toList, ← htake, ← hdrop,
      List.take_append_drop]
  rw [Vector.toList_inj.1 hslots]

/-- As many operands as the operation takes make an instruction. -/
theorem exists_isMadeOf {op : Opcode} {operands : List Binary64}
    (hlength : operands.length = op.arity) :
    ∃ instruction, ofOperands op operands = .ok instruction ∧ instruction.IsMadeOf op operands := by
  have hmade : ofOperands op operands =
      .ok ⟨op, Vector.ofFn fun i => operands.getD i 0⟩ := if_pos hlength
  obtain ⟨hopcode, hoperands⟩ := eq_of_ofOperands hmade
  refine ⟨_, hmade, hopcode, hoperands, fun slot hslot => ?_⟩
  rw [toList_slots] at hslot
  obtain ⟨i, hi, hslot⟩ := List.mem_drop_iff_getElem.1 hslot
  rw [← hslot]
  simp [← hlength]

end LogicChip.Instruction

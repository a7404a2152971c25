import LogicChip.Proofs.Binary64.Pattern
import LogicChip.Proofs.Generator.Snapshot
import LogicChip.Proofs.Wire.Reader
import LogicChip.Wire.Generator
import LogicChip.Wire.Instruction
import Mathlib.Data.List.Forall2

namespace LogicChip.Wire

theorem bitField_eq_some {field : BitField} {bytes rest : List UInt8} :
    bitField bytes = some (field, rest) ↔ bytes = ofBitField field ++ rest := by
  simp only [bitField, ofBitField, bind_eq_some, pure_eq_some, uint32_eq_some, List.append_assoc]
  constructor
  · rintro ⟨start, middle, rfl, length, _, rfl, rfl, rfl⟩
    rfl
  · rintro rfl
    exact ⟨field.start, _, rfl, field.length, rest, rfl, rfl, rfl⟩

/-- An operation has one place in the list of all operations. -/
theorem getElem?_all_eq_some {index : UInt32} {op : Opcode} :
    Opcode.all[index.toNat]? = some op ↔ index = UInt32.ofNat (Opcode.all.idxOf op) := by
  have hlength : Opcode.all.length < 2 ^ 32 := by decide
  constructor
  · intro h
    obtain ⟨hindex, rfl⟩ := List.getElem?_eq_some_iff.1 h
    rw [Opcode.nodup_all.idxOf_getElem index.toNat hindex, UInt32.ofNat_toNat]
  · rintro rfl
    have hindex := List.idxOf_lt_length_of_mem op.mem_all
    rw [UInt32.toNat_ofNat_of_lt' (Nat.lt_trans hindex hlength)]
    rw [List.getElem?_eq_getElem hindex, List.getElem_idxOf]

theorem opcode_eq_some {op : Opcode} {bytes rest : List UInt8} :
    opcode bytes = some (op, rest) ↔ bytes = ofOpcode op ++ rest := by
  unfold opcode ofOpcode
  rw [bind_eq_some]
  constructor
  · rintro ⟨index, middle, hread, hop⟩
    cases hall : Opcode.all[index.toNat]? with
    | none =>
      rw [hall] at hop
      cases hop
    | some found =>
      rw [hall] at hop
      obtain ⟨rfl, rfl⟩ := pure_eq_some.1 hop
      rw [← getElem?_all_eq_some.1 hall]
      exact uint32_eq_some.1 hread
  · rintro rfl
    refine ⟨_, rest, uint32_eq_some.2 rfl, ?_⟩
    rw [getElem?_all_eq_some.2 rfl]
    rfl

theorem value_eq_some {x : Binary64} {bytes rest : List UInt8} :
    value bytes = some (x, rest) ↔
      ∃ bits, Binary64.SamePattern bits x.toBits ∧ bytes = ofUInt64 bits ++ rest := by
  unfold value
  simp only [map_eq_some, Binary64.ofBits_eq_iff, uint64_eq_some]

/-- Bytes of the same operation with the same operands, but perhaps other patterns of NaN. -/
def SameButPayloads (first second : List UInt8) : Prop :=
  ∃ (op : UInt32) (a b : List UInt64), List.Forall₂ Binary64.SamePattern a b ∧
    first = ofUInt32 op ++ a.flatMap ofUInt64 ∧ second = ofUInt32 op ++ b.flatMap ofUInt64

theorem eq_of_ofUInt32_append {m n : UInt32} {first second : List UInt8}
    (h : ofUInt32 m ++ first = ofUInt32 n ++ second) : m = n ∧ first = second := by
  have hread := uint32_eq_some.2 h
  rw [uint32_ofUInt32] at hread
  cases hread
  exact ⟨rfl, rfl⟩

theorem eq_of_flatMap_ofUInt64 {a b : List UInt64}
    (h : a.flatMap ofUInt64 = b.flatMap ofUInt64) : a = b := by
  induction a generalizing b with
  | nil =>
    cases b with
    | nil => rfl
    | cons n b => cases h
  | cons m a ih =>
    cases b with
    | nil => cases h
    | cons n b =>
      simp only [List.flatMap_cons] at h
      have hread := uint64_eq_some.2 h
      rw [uint64_ofUInt64] at hread
      obtain ⟨rfl, hrest⟩ := Prod.mk.inj (Option.some.inj hread)
      rw [ih hrest]

theorem ofInstruction_eq (i : Instruction) :
    ofInstruction i = ofOpcode i.opcode ++ (i.slots.toList.map Binary64.toBits).flatMap ofUInt64 := by
  rw [List.flatMap_map]
  rfl

theorem sameButPayloads_ofInstruction (i : Instruction) :
    SameButPayloads (ofInstruction i) (ofInstruction i) := by
  have hsame : ∀ bits ∈ i.slots.toList.map Binary64.toBits, Binary64.SamePattern bits bits :=
    fun _ _ => .inl rfl
  exact ⟨_, _, _, List.forall₂_same.2 hsame, ofInstruction_eq i, ofInstruction_eq i⟩

theorem instruction_eq_some {i : Instruction} {bytes rest : List UInt8} :
    instruction bytes = some (i, rest) ↔
      ∃ written, SameButPayloads written (ofInstruction i) ∧ bytes = written ++ rest := by
  obtain ⟨op, slots⟩ := i
  have hslots : slots = #v[slots[0], slots[1], slots[2], slots[3]] := by
    ext k hk
    have hbound : k < 4 := hk
    obtain rfl | rfl | rfl | rfl : k = 0 ∨ k = 1 ∨ k = 2 ∨ k = 3 := by omega
    all_goals rfl
  generalize slots[0] = a, slots[1] = b, slots[2] = c, slots[3] = d at hslots
  subst hslots
  have hwritten : ofInstruction ⟨op, #v[a, b, c, d]⟩ = ofOpcode op ++
      [a.toBits, b.toBits, c.toBits, d.toBits].flatMap ofUInt64 := ofInstruction_eq _
  simp only [instruction, bind_eq_some, pure_eq_some, opcode_eq_some, value_eq_some, hwritten]
  constructor
  · rintro ⟨_, _, rfl, _, _, ⟨p, hp, rfl⟩, _, _, ⟨q, hq, rfl⟩, _, _, ⟨r, hr, rfl⟩, _, _,
      ⟨s, hs, rfl⟩, heq, rfl⟩
    cases heq
    refine ⟨ofOpcode op ++ [p, q, r, s].flatMap ofUInt64, ⟨_, [p, q, r, s], _, ?_, rfl, rfl⟩, ?_⟩
    · exact .cons hp (.cons hq (.cons hr (.cons hs .nil)))
    · simp
  · rintro ⟨_, ⟨index, found, expected, hsame, rfl, hexpected⟩, rfl⟩
    obtain ⟨rfl, hpatterns⟩ := eq_of_ofUInt32_append hexpected
    obtain rfl := eq_of_flatMap_ofUInt64 hpatterns
    rcases hsame with _ | ⟨hp, _ | ⟨hq, _ | ⟨hr, _ | ⟨hs, _ | _⟩⟩⟩⟩
    exact ⟨op, _, by rw [ofOpcode, List.append_assoc], a, _, ⟨_, hp, by simp⟩, b, _, ⟨_, hq, rfl⟩,
      c, _, ⟨_, hr, rfl⟩, d, rest, ⟨_, hs, rfl⟩, rfl, rfl⟩

theorem snapshot_eq_some {s : Generator.Snapshot} {bytes rest : List UInt8} :
    snapshot bytes = some (s, rest) ↔
      s.slots.length < 2 ^ 64 ∧ bytes = ofSnapshot s ++ rest := by
  simp only [snapshot, ofSnapshot, bind_eq_some, pure_eq_some, int32_eq_some, uint64_eq_some,
    times_int32_eq_some, List.append_assoc]
  constructor
  · rintro ⟨seed, _, rfl, target, _, rfl, partner, _, rfl, count, _, rfl, slots, _, ⟨hcount, rfl⟩,
      drawn, _, rfl, rfl, rfl⟩
    refine ⟨hcount ▸ count.toNat_lt, ?_⟩
    rw [hcount, UInt64.ofNat_toNat]
  · rintro ⟨hbound, rfl⟩
    exact ⟨s.seed, _, rfl, s.target, _, rfl, s.partner, _, rfl, _, _, rfl, s.slots, _,
      ⟨(UInt64.toNat_ofNat_of_lt' hbound).symm, rfl⟩, s.drawn, rest, rfl, rfl, rfl⟩

/-- Bytes are taken as a generator if its snapshot can be read from them. -/
theorem generator_eq_ok_iff_snapshot {g : Generator} {bytes rest : List UInt8} :
    generator bytes = .ok (g, rest) ↔ snapshot bytes = some (g.toSnapshot, rest) := by
  unfold generator
  constructor
  · intro h
    cases hread : snapshot bytes with
    | none =>
      rw [hread] at h
      cases h
    | some read =>
      rw [hread] at h
      cases hmade : Generator.ofSnapshot read.1 with
      | error _ =>
        simp only [hmade] at h
        cases h
      | ok made =>
        simp only [hmade] at h
        cases h
        rw [← Generator.ofSnapshot_eq_ok.1 hmade]
  · intro h
    simp only [h, Generator.ofSnapshot_eq_ok.2 rfl]

theorem generator_eq_ok {g : Generator} {bytes rest : List UInt8} :
    generator bytes = .ok (g, rest) ↔ bytes = ofGenerator g ++ rest := by
  have hslots : g.toSnapshot.slots.length < 2 ^ 64 := by
    rw [Generator.length_slots_toSnapshot]
    decide
  rw [generator_eq_ok_iff_snapshot, snapshot_eq_some, and_iff_right hslots, ofGenerator]

end LogicChip.Wire

import LogicChip.Proofs.Wire.Forms
import Mathlib.Data.Nat.Digits.Defs

namespace LogicChip.Wire

/-- The number that bytes stand for, the lowest byte first. -/
def littleEndian (bytes : List UInt8) : Nat := Nat.ofDigits 256 (bytes.map UInt8.toNat)

theorem littleEndian_lt (bytes : List UInt8) : littleEndian bytes < 256 ^ bytes.length := by
  have hbytes : ∀ d ∈ bytes.map UInt8.toNat, d < 256 := by
    intro d hd
    obtain ⟨b, _, rfl⟩ := List.mem_map.1 hd
    exact b.toNat_lt
  have hlt := Nat.ofDigits_lt_base_pow_length (by decide) hbytes
  rwa [List.length_map] at hlt

theorem ofNat_littleEndian (bytes : List UInt8) :
    ofNat bytes.length (littleEndian bytes) = bytes := by
  induction bytes with
  | nil => rfl
  | cons b bytes ih =>
    have hcons : littleEndian (b :: bytes) = b.toNat + 256 * littleEndian bytes := by
      simp [littleEndian, Nat.ofDigits_cons]
    rw [List.length_cons, hcons, ofNat_succ_add, ih]

/-- A reader of a number needs as many bytes as the number is wide. -/
theorem nat_eq_some_iff {width n : Nat} {bytes rest : List UInt8} :
    nat width bytes = some (n, rest) ↔
      width ≤ bytes.length ∧ n = littleEndian (bytes.take width) ∧ rest = bytes.drop width := by
  have hread : width ≤ bytes.length →
      nat width bytes = some (littleEndian (bytes.take width), bytes.drop width) := by
    intro hwidth
    have hlength := List.length_take_of_le hwidth
    have hnumber := littleEndian_lt (bytes.take width)
    have hback := ofNat_littleEndian (bytes.take width)
    rw [hlength] at hnumber hback
    refine nat_eq_some.2 ⟨hnumber, ?_⟩
    rw [hback, List.take_append_drop]
  constructor
  · intro h
    have hwidth : width ≤ bytes.length := by
      obtain ⟨_, rfl⟩ := nat_eq_some.1 h
      rw [List.length_append, length_ofNat]
      exact Nat.le_add_right _ _
    rw [hread hwidth] at h
    cases h
    exact ⟨hwidth, rfl, rfl⟩
  · rintro ⟨hwidth, rfl, rfl⟩
    exact hread hwidth

theorem uint32_eq_some_iff {n : UInt32} {bytes rest : List UInt8} :
    uint32 bytes = some (n, rest) ↔
      4 ≤ bytes.length ∧ n.toNat = littleEndian (bytes.take 4) ∧ rest = bytes.drop 4 := by
  unfold uint32
  simp only [map_eq_some, nat_eq_some_iff]
  constructor
  · rintro ⟨_, rfl, hwidth, rfl, rfl⟩
    have hbound := littleEndian_lt (bytes.take 4)
    rw [List.length_take_of_le hwidth] at hbound
    exact ⟨hwidth, UInt32.toNat_ofNat_of_lt' hbound, rfl⟩
  · rintro ⟨hwidth, hnumber, rfl⟩
    exact ⟨_, by rw [← hnumber, UInt32.ofNat_toNat], hwidth, rfl, rfl⟩

theorem uint64_eq_some_iff {n : UInt64} {bytes rest : List UInt8} :
    uint64 bytes = some (n, rest) ↔
      8 ≤ bytes.length ∧ n.toNat = littleEndian (bytes.take 8) ∧ rest = bytes.drop 8 := by
  unfold uint64
  simp only [map_eq_some, nat_eq_some_iff]
  constructor
  · rintro ⟨_, rfl, hwidth, rfl, rfl⟩
    have hbound := littleEndian_lt (bytes.take 8)
    rw [List.length_take_of_le hwidth] at hbound
    exact ⟨hwidth, UInt64.toNat_ofNat_of_lt' hbound, rfl⟩
  · rintro ⟨hwidth, hnumber, rfl⟩
    exact ⟨_, by rw [← hnumber, UInt64.ofNat_toNat], hwidth, rfl, rfl⟩

theorem exists_int32_iff {bytes rest : List UInt8} :
    (∃ n, int32 bytes = some (n, rest)) ↔ 4 ≤ bytes.length ∧ rest = bytes.drop 4 := by
  unfold int32 uint32
  simp only [map_eq_some, nat_eq_some_iff]
  constructor
  · rintro ⟨_, _, rfl, _, rfl, hwidth, rfl, rfl⟩
    exact ⟨hwidth, rfl⟩
  · rintro ⟨hwidth, rfl⟩
    exact ⟨_, _, rfl, _, rfl, hwidth, rfl, rfl⟩

theorem exists_times_int32_iff {count : Nat} {bytes rest : List UInt8} :
    (∃ words, times int32 count bytes = some (words, rest)) ↔
      4 * count ≤ bytes.length ∧ rest = bytes.drop (4 * count) := by
  induction count generalizing bytes with
  | zero =>
    simp only [times, pure_eq_some, Nat.mul_zero, Nat.zero_le, true_and, List.drop_zero]
    constructor
    · rintro ⟨_, _, rfl⟩
      rfl
    · rintro rfl
      exact ⟨[], rfl, rfl⟩
  | succ count ih =>
    have hsplit : (∃ words, times int32 (count + 1) bytes = some (words, rest)) ↔
        ∃ middle, (∃ n, int32 bytes = some (n, middle)) ∧
          ∃ words, times int32 count middle = some (words, rest) := by
      simp only [times, bind_eq_some, pure_eq_some]
      constructor
      · rintro ⟨_, n, middle, hfirst, words, _, hothers, _, rfl⟩
        exact ⟨middle, ⟨n, hfirst⟩, words, hothers⟩
      · rintro ⟨middle, ⟨n, hfirst⟩, words, hothers⟩
        exact ⟨_, n, middle, hfirst, words, rest, hothers, rfl, rfl⟩
    rw [hsplit]
    simp only [exists_int32_iff, ih]
    constructor
    · rintro ⟨_, ⟨hfirst, rfl⟩, hothers, rfl⟩
      rw [List.length_drop] at hothers
      rw [List.drop_drop]
      exact ⟨by omega, by congr 1; omega⟩
    · rintro ⟨hlength, rfl⟩
      refine ⟨_, ⟨by omega, rfl⟩, ?_, ?_⟩
      · rw [List.length_drop]
        omega
      · rw [List.drop_drop]
        congr 1
        omega

/-- The number of eight bytes at a place. -/
def wordAt (place : Nat) (bytes : List UInt8) : Nat := littleEndian ((bytes.drop place).take 8)

theorem wordAt_of_read {place : Nat} {n : UInt64} {bytes rest : List UInt8}
    (h : uint64 (bytes.drop place) = some (n, rest)) :
    place + 8 ≤ bytes.length ∧ wordAt place bytes = n.toNat ∧ rest = bytes.drop (place + 8) := by
  obtain ⟨hlength, hnumber, rfl⟩ := uint64_eq_some_iff.1 h
  rw [List.length_drop] at hlength
  exact ⟨by omega, hnumber.symm, List.drop_drop⟩

/-- The word at a place can be read if there are bytes enough. -/
theorem exists_read_wordAt {place : Nat} {bytes : List UInt8} (h : place + 8 ≤ bytes.length) :
    ∃ n, n.toNat = wordAt place bytes ∧
      uint64 (bytes.drop place) = some (n, bytes.drop (place + 8)) := by
  have hlength : 8 ≤ (bytes.drop place).length := by
    rw [List.length_drop]
    omega
  have hbound := littleEndian_lt ((bytes.drop place).take 8)
  rw [List.length_take_of_le hlength] at hbound
  refine ⟨UInt64.ofNat (wordAt place bytes), UInt64.toNat_ofNat_of_lt' hbound, ?_⟩
  rw [← List.drop_drop]
  exact uint64_eq_some_iff.2 ⟨hlength, UInt64.toNat_ofNat_of_lt' hbound, rfl⟩

/-- A snapshot is read from as many bytes as the slots need that it announces, and has the cursors
and the slots that stand in them. -/
theorem positions_of_snapshot {s : Generator.Snapshot} {bytes rest : List UInt8}
    (h : snapshot bytes = some (s, rest)) :
    28 + 4 * s.slots.length + 8 ≤ bytes.length ∧ wordAt 4 bytes = s.target.toNat ∧
      wordAt 12 bytes = s.partner.toNat ∧ wordAt 20 bytes = s.slots.length := by
  simp only [snapshot, bind_eq_some, pure_eq_some] at h
  obtain ⟨seed, _, hseed, target, _, htarget, partner, _, hpartner, count, _, hcount, slots, _,
    hslots, drawn, _, hdrawn, rfl, rfl⟩ := h
  obtain ⟨_, rfl⟩ := exists_int32_iff.1 ⟨seed, hseed⟩
  obtain ⟨_, htargetAt, rfl⟩ := wordAt_of_read htarget
  obtain ⟨_, hpartnerAt, rfl⟩ := wordAt_of_read hpartner
  obtain ⟨_, hcountAt, rfl⟩ := wordAt_of_read hcount
  have hlength := (times_int32_eq_some.1 hslots).1
  obtain ⟨_, rfl⟩ := exists_times_int32_iff.1 ⟨slots, hslots⟩
  rw [List.drop_drop] at hdrawn
  obtain ⟨henough, _⟩ := wordAt_of_read hdrawn
  rw [hlength]
  exact ⟨henough, htargetAt, hpartnerAt, hcountAt⟩

theorem exists_snapshot {bytes : List UInt8} (h : 28 + 4 * wordAt 20 bytes + 8 ≤ bytes.length) :
    ∃ s rest, snapshot bytes = some (s, rest) := by
  obtain ⟨seed, hseed⟩ := exists_int32_iff.2 ⟨(by omega : 4 ≤ bytes.length), rfl⟩
  obtain ⟨target, _, htarget⟩ := exists_read_wordAt (by omega : 4 + 8 ≤ bytes.length)
  obtain ⟨partner, _, hpartner⟩ := exists_read_wordAt (by omega : 12 + 8 ≤ bytes.length)
  obtain ⟨count, hnumber, hcount⟩ := exists_read_wordAt (by omega : 20 + 8 ≤ bytes.length)
  rw [← hnumber] at h
  have hlength : 4 * count.toNat ≤ (bytes.drop 28).length := by
    rw [List.length_drop]
    omega
  obtain ⟨slots, hslots⟩ := exists_times_int32_iff.2 ⟨hlength, rfl⟩
  rw [List.drop_drop] at hslots
  obtain ⟨drawn, _, hdrawn⟩ := exists_read_wordAt h
  refine ⟨⟨seed, target, partner, slots, drawn⟩, bytes.drop (28 + 4 * count.toNat + 8), ?_⟩
  simp only [snapshot, bind_eq_some, pure_eq_some]
  exact ⟨_, _, hseed, _, _, htarget, _, _, hpartner, _, _, hcount, _, _, hslots, _, _, hdrawn, rfl,
    rfl⟩

/-- Bytes that suffice for the generator they announce, which has 56 slots and both cursors within
them. The cursors stand at places 4 and 12 and the number of slots at place 20; the slots follow it,
and one more word follows them. -/
structure HoldsGenerator (bytes : List UInt8) : Prop where
  enough : 28 + 4 * wordAt 20 bytes + 8 ≤ bytes.length
  count : wordAt 20 bytes = 56
  target : wordAt 4 bytes < 56
  partner : wordAt 12 bytes < 56

theorem exists_generator_iff {bytes : List UInt8} :
    (∃ g rest, generator bytes = .ok (g, rest)) ↔ HoldsGenerator bytes := by
  simp only [generator_eq_ok_iff_snapshot]
  constructor
  · rintro ⟨g, rest, hread⟩
    obtain ⟨henough, htarget, hpartner, hcount⟩ := positions_of_snapshot hread
    obtain ⟨hslots, htargetLt, hpartnerLt⟩ :=
      Generator.exists_ofSnapshot_iff.1 ⟨g, Generator.ofSnapshot_eq_ok.2 rfl⟩
    rw [← hcount] at henough hslots
    exact ⟨henough, hslots, htarget ▸ htargetLt, hpartner ▸ hpartnerLt⟩
  · intro h
    obtain ⟨s, rest, hread⟩ := exists_snapshot h.enough
    obtain ⟨_, htarget, hpartner, hcount⟩ := positions_of_snapshot hread
    obtain ⟨g, hmade⟩ := Generator.exists_ofSnapshot_iff.2
      ⟨hcount ▸ h.count, htarget ▸ h.target, hpartner ▸ h.partner⟩
    rw [Generator.ofSnapshot_eq_ok.1 hmade] at hread
    exact ⟨g, rest, hread⟩

end LogicChip.Wire

import LogicChip.Long.Basic

namespace LogicChip

/-- A range of adjacent bits among the low 53. -/
structure Span where
  start : Nat
  length : Nat
  fits : start + length ≤ 53

namespace Span

/-- The ranges share no bit. -/
def Disjoint (s t : Span) : Prop := s.start + s.length ≤ t.start ∨ t.start + t.length ≤ s.start

theorem Disjoint.symm {s t : Span} (h : s.Disjoint t) : t.Disjoint s := Or.symm h

/-- The bits of a range, moved down to bit 0. -/
def read (s : Span) (w : BitVec 53) : BitVec 53 := (w.extractLsb' s.start s.length).setWidth 53

/-- A word with the bits of a range replaced by the low bits of a value. -/
def write (s : Span) (w value : BitVec 53) : BitVec 53 :=
  let region := (BitVec.allOnes s.length).setWidth 53 <<< s.start
  (w &&& ~~~region) ||| (value <<< s.start &&& region)

section Bits

variable {s t : Span} (w value other : BitVec 53)

theorem getLsbD_read (i : Nat) :
    (s.read w).getLsbD i = (decide (i < s.length) && w.getLsbD (s.start + i)) := by
  have hfits := s.fits
  unfold read
  rw [BitVec.getLsbD_setWidth, BitVec.getLsbD_extractLsb']
  by_cases hi : i < s.length
  · have hword : i < 53 := by omega
    simp [hi, hword]
  · simp [hi]

theorem getLsbD_write (i : Nat) :
    (s.write w value).getLsbD i =
      if s.start ≤ i ∧ i < s.start + s.length then value.getLsbD (i - s.start)
      else w.getLsbD i := by
  have hfits := s.fits
  unfold write
  simp only [BitVec.getLsbD_or, BitVec.getLsbD_and, BitVec.getLsbD_not, BitVec.getLsbD_shiftLeft,
    BitVec.getLsbD_setWidth, BitVec.getLsbD_allOnes]
  by_cases hplace : s.start ≤ i ∧ i < s.start + s.length
  · have hword : i < 53 := by omega
    have hoffset : i - s.start < s.length := by omega
    have hshort : i - s.start < 53 := by omega
    simp [hplace, hword, hoffset, hshort, Nat.not_lt.2 hplace.1]
  · have hoff : s.start ≤ i → ¬i - s.start < s.length := by omega
    by_cases hword : i < 53
    · by_cases hbelow : i < s.start
      · simp [hplace, hword, hbelow]
      · simp [hplace, hword, hbelow, hoff (by omega)]
    · simp [hplace, hword, BitVec.getLsbD_of_ge w i (by omega)]

/-- Ranges that share no bit may be written in either order. -/
theorem write_comm (h : s.Disjoint t) :
    t.write (s.write w value) other = s.write (t.write w other) value := by
  unfold Disjoint at h
  apply BitVec.eq_of_getLsbD_eq
  intro i hi
  simp only [getLsbD_write]
  split
  · rw [if_neg (by omega)]
  · rfl

/-- Writing a range with its own bits changes nothing. -/
theorem write_read : s.write w (s.read w) = w := by
  apply BitVec.eq_of_getLsbD_eq
  intro i hi
  rw [getLsbD_write, getLsbD_read]
  split
  · rename_i hplace
    rw [decide_eq_true (by omega), Bool.true_and, Nat.add_sub_cancel' hplace.1]
  · rfl

theorem read_write_of_disjoint (h : s.Disjoint t) : t.read (s.write w value) = t.read w := by
  unfold Disjoint at h
  apply BitVec.eq_of_getLsbD_eq
  intro i hi
  rw [getLsbD_read, getLsbD_read, getLsbD_write]
  by_cases hshort : i < t.length
  · rw [if_neg (by omega)]
  · rw [decide_eq_false hshort, Bool.false_and, Bool.false_and]

/-- What was written to a range is read from it, as far as it is long. -/
theorem read_write : s.read (s.write w value) = (value.setWidth s.length).setWidth 53 := by
  apply BitVec.eq_of_getLsbD_eq
  intro i hi
  rw [getLsbD_read, getLsbD_write, BitVec.getLsbD_setWidth, BitVec.getLsbD_setWidth]
  by_cases hshort : i < s.length
  · rw [if_pos (by omega), Nat.add_sub_cancel_left, decide_eq_true hi, Bool.true_and]
  · rw [decide_eq_false hshort, Bool.false_and, Bool.false_and, Bool.and_false]

theorem toNat_read : (s.read w).toNat = w.toNat / 2 ^ s.start % 2 ^ s.length := by
  have hfits := s.fits
  have hpow : 2 ^ s.length ≤ 2 ^ 53 := Nat.pow_le_pow_right (by decide) (by omega)
  have hlt := Nat.mod_lt (w.toNat >>> s.start) (Nat.two_pow_pos s.length)
  unfold read
  rw [BitVec.toNat_setWidth, BitVec.extractLsb'_toNat, Nat.mod_eq_of_lt (by omega),
    Nat.shiftRight_eq_div_pow]

theorem toNat_read_write : (s.read (s.write w value)).toNat = value.toNat % 2 ^ s.length := by
  have hfits := s.fits
  have hpow : 2 ^ s.length ≤ 2 ^ 53 := Nat.pow_le_pow_right (by decide) (by omega)
  have hlt := Nat.mod_lt value.toNat (Nat.two_pow_pos s.length)
  rw [read_write, BitVec.toNat_setWidth, BitVec.toNat_setWidth, Nat.mod_eq_of_lt (by omega)]

end Bits

/-- The words have the same bits outside a range. -/
def AgreeOutside (s : Span) (w w' : BitVec 53) : Prop :=
  ∀ i, ¬(s.start ≤ i ∧ i < s.start + s.length) → w.getLsbD i = w'.getLsbD i

section AgreeOutside

variable {s : Span} {w w' : BitVec 53}

theorem agreeOutside_write (s : Span) (w value : BitVec 53) :
    s.AgreeOutside (s.write w value) w := by
  intro i hoff
  rw [getLsbD_write, if_neg hoff]

theorem AgreeOutside.write (h : s.AgreeOutside w w') (t : Span) (value : BitVec 53) :
    s.AgreeOutside (t.write w value) (t.write w' value) := by
  intro i hoff
  rw [getLsbD_write, getLsbD_write, h i hoff]

/-- Writing the range makes up for the difference. -/
theorem AgreeOutside.write_eq (h : s.AgreeOutside w w') (value : BitVec 53) :
    s.write w value = s.write w' value := by
  apply BitVec.eq_of_getLsbD_eq
  intro i hi
  rw [getLsbD_write, getLsbD_write]
  split
  · rfl
  · rename_i hoff
    exact h i hoff

end AgreeOutside

end Span

end LogicChip

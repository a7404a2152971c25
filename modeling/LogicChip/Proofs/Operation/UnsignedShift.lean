import LogicChip.Proofs.Operation.Residue

namespace LogicChip

namespace Binary64

/-- Integers with few significant bits are exact in a register, however large they are. -/
theorem integer?_ofInt_of_representable {n : Int} (h : Representable (n.natAbs * scale)) :
    (ofInt n).integer? = some n := by
  have hexact : ofInt n = .finite (decide (n < 0)) (n.natAbs * scale) h := by
    unfold ofInt ofMagnitude
    exact ofUnits_of_representable _ h
  rw [hexact]
  simp only [integer?, Nat.dvd_mul_left, if_true, Nat.mul_div_cancel _ scale_pos, signed_natAbs]

theorem representable_mul_two_pow_scale {significand exponent : Nat} (h : significand ≤ 2 ^ 53)
    (hexponent : exponent ≤ 64) : Representable (significand * 2 ^ exponent * scale) := by
  rw [Nat.mul_assoc, scale, ← Nat.pow_add]
  refine representable_mul_two_pow h ?_
  calc significand * 2 ^ (exponent + unitExponent)
      ≤ 2 ^ 53 * 2 ^ (exponent + unitExponent) := Nat.mul_le_mul_right _ h
    _ < bound := by
      rw [← Nat.pow_add]
      refine Nat.pow_lt_pow_right (by decide) ?_
      unfold unitExponent boundExponent
      omega

end Binary64

namespace Bitwise

open Long (Accepts AcceptsInt32 readInteger residue)

/-- The unsigned reading of a negative integer part is not negative where adding `2 ^ 54` once
reaches zero, and where the reading takes the integer part for zero. -/
theorem readInteger_unsigned_nonneg_iff {n : Int} (hneg : n < 0) :
    0 ≤ readInteger .unsigned n ↔ -2 ^ 54 ≤ n ∨ n = -2 ^ 63 := by
  simp only [readInteger, if_pos hneg]
  split
  · omega
  · omega

theorem readInteger_unsigned_lt {n : Int} (hneg : n < 0) : readInteger .unsigned n < 2 ^ 54 := by
  simp only [readInteger, if_pos hneg]
  split
  · omega
  · omega

theorem srl_of_pos {a b : Binary64} (ha : Accepts a) (hb : AcceptsInt32 b)
    (hpos : 0 < b.whole.tmod 64) :
    srl a b = .ok (.ofInt (residue (unsignedInteger a / 2 ^ (b.whole.tmod 64).toNat))) := by
  rw [srl_eq_residue ha hb, movedRight, if_pos (Int.le_of_lt hpos)]

/-- A shift by at least one place brings an unsigned word into the range of registers. -/
theorem residue_div {n : Int} (hlower : 0 ≤ n) (hupper : n < 2 ^ 54) {places : Nat}
    (hplaces : 0 < places) : residue (n / 2 ^ places) = n / 2 ^ places := by
  have hunit : (0 : Int) < 2 ^ places := Int.pow_pos (by decide)
  have hnonneg : 0 ≤ n / 2 ^ places := Int.ediv_nonneg hlower (Int.le_of_lt hunit)
  have hsmall : n / 2 ^ places < 2 ^ 53 := by
    obtain ⟨more, rfl⟩ : ∃ more, places = more + 1 := ⟨places - 1, by omega⟩
    have hmore : (0 : Int) < 2 ^ more := Int.pow_pos (by decide)
    refine Int.ediv_lt_of_lt_mul hunit (Int.lt_of_lt_of_le hupper ?_)
    rw [Int.pow_succ]
    omega
  exact Long.residue_of_fits (by omega) hsmall

/-- The unsigned reading of a negative operand and its shift to the right by at least one place. The
long is below `2 ^ 54`, but it is not negative only where the integer part is at least `-2 ^ 54` or
is `-2 ^ 63`, and there alone is the shift a logical one, with a result that is not negative. -/
theorem srl_logical_iff_folded {a : Binary64} (ha : Accepts a) (hneg : a.whole < 0) :
    ∃ w : Long, Long.ofOperand .unsigned a = .ok w ∧
      w.toInt = (if a.whole = -2 ^ 53 ∨ a.whole = -2 ^ 63 then 0 else a.whole + 2 ^ 54) ∧
      w.toInt < 2 ^ 54 ∧
      (0 ≤ w.toInt ↔ -2 ^ 54 ≤ a.whole ∨ a.whole = -2 ^ 63) ∧
      ∀ b : Binary64, AcceptsInt32 b → 0 < b.whole.tmod 64 →
        let shifted := w.toInt / 2 ^ (b.whole.tmod 64).toNat
        srl a b = .ok (.ofInt (residue shifted)) ∧
        (0 ≤ shifted ∧ srl a b = .ok (.ofInt shifted) ↔
          -2 ^ 54 ≤ a.whole ∨ a.whole = -2 ^ 63) := by
  obtain ⟨w, hread, hvalue⟩ := Long.ofOperand_of_accepts .unsigned ha
  have hnonneg := readInteger_unsigned_nonneg_iff hneg
  have hupper := readInteger_unsigned_lt hneg
  have hword : readInteger .unsigned a.whole =
      if a.whole = -2 ^ 53 ∨ a.whole = -2 ^ 63 then 0 else a.whole + 2 ^ 54 := by
    simp only [readInteger, if_pos hneg]
    split <;> split <;> omega
  rw [← hvalue] at hnonneg hupper hword
  refine ⟨w, hread, hword, hupper, hnonneg, ?_⟩
  intro b hb hplaces shifted
  have hunit : (0 : Int) < 2 ^ (b.whole.tmod 64).toNat := Int.pow_pos (by decide)
  have hshift : srl a b = .ok (.ofInt (residue shifted)) := by
    rw [srl_of_pos ha hb hplaces, unsignedInteger, ← hvalue]
  refine ⟨hshift, ?_, ?_⟩
  · intro hlogical
    exact hnonneg.1 ((Int.ediv_nonneg_iff_of_pos hunit).1 hlogical.1)
  · intro hfolded
    have hlower := hnonneg.2 hfolded
    refine ⟨Int.ediv_nonneg hlower (Int.le_of_lt hunit), ?_⟩
    rw [hshift, residue_div hlower hupper (by omega)]

theorem srl_logical_iff_folded_minus_one :
    Accepts (.ofInt (-1)) ∧ (Binary64.ofInt (-1)).whole < 0 ∧ AcceptsInt32 (.ofInt 1) ∧
      0 < (Binary64.ofInt 1).whole.tmod 64 ∧
      (Long.ofOperand .unsigned (.ofInt (-1))).map Int64.toInt = .ok (2 ^ 54 - 1) ∧
      srl (.ofInt (-1)) (.ofInt 1) = .ok (.ofInt (2 ^ 53 - 1)) := by
  have hwhole : (Binary64.ofInt (-1)).whole = -1 := Binary64.whole_ofInt (by decide)
  have hplaces : (Binary64.ofInt 1).whole.tmod 64 = 1 := by
    rw [Binary64.whole_ofInt (by decide)]
    decide
  have haccepts : Accepts (.ofInt (-1)) := Long.accepts_ofInt (by decide)
  have hone : AcceptsInt32 (.ofInt 1) := Long.acceptsInt32_ofInt (by decide) (by decide)
  have hneg : (Binary64.ofInt (-1)).whole < 0 := by omega
  obtain ⟨w, hread, hword, _, _, hshift⟩ := srl_logical_iff_folded haccepts hneg
  have hvalue : w.toInt = 2 ^ 54 - 1 := by
    rw [hword, hwhole]
    decide
  have hlogical := ((hshift _ hone (by omega)).2.2 (by omega)).2
  rw [hplaces, hvalue] at hlogical
  refine ⟨haccepts, hneg, hone, by omega, ?_, hlogical⟩
  rw [hread]
  exact congrArg Except.ok hvalue

/-- A register of four below `-2 ^ 54`. -/
def belowFold : Binary64 := .ofInt (-(2 ^ 54 + 4))

theorem whole_belowFold : Accepts belowFold ∧ belowFold.whole = -(2 ^ 54 + 4) := by
  have hsignificand : (-(2 ^ 54 + 4) : Int).natAbs = (2 ^ 52 + 1) * 2 ^ 2 := by decide
  have hinteger : belowFold.integer? = some (-(2 ^ 54 + 4)) := by
    refine Binary64.integer?_ofInt_of_representable ?_
    rw [hsignificand]
    exact Binary64.representable_mul_two_pow_scale (by decide) (by decide)
  have hwhole := Binary64.whole_of_integer? hinteger
  obtain ⟨_, _, hfinite, _⟩ := Binary64.eq_finite_of_integer? hinteger
  refine ⟨.inr ⟨?_, ?_⟩, hwhole⟩
  · rw [hfinite]
    rfl
  · rw [hwhole]
    decide

/-- The unsigned reading of this register is negative, and so is its shift to the right. -/
theorem srl_negative_belowFold :
    Accepts belowFold ∧ belowFold.whole < 0 ∧ AcceptsInt32 (.ofInt 1) ∧
      (Binary64.ofInt 1).whole.tmod 64 = 1 ∧
      (Long.ofOperand .unsigned belowFold).map Int64.toInt = .ok (-4) ∧
      srl belowFold (.ofInt 1) = .ok (.ofInt (-2)) := by
  obtain ⟨haccepts, hwhole⟩ := whole_belowFold
  have hplaces : (Binary64.ofInt 1).whole.tmod 64 = 1 := by
    rw [Binary64.whole_ofInt (by decide)]
    decide
  have hone : AcceptsInt32 (.ofInt 1) := Long.acceptsInt32_ofInt (by decide) (by decide)
  have hword : unsignedInteger belowFold = -4 := by
    rw [unsignedInteger, hwhole]
    decide
  obtain ⟨w, hread, hvalue⟩ := Long.ofOperand_of_accepts .unsigned haccepts
  refine ⟨haccepts, by omega, hone, hplaces, ?_, ?_⟩
  · rw [hread]
    exact congrArg Except.ok (hvalue.trans hword)
  · rw [srl_of_pos haccepts hone (by omega), hplaces, hword]
    rfl

end Bitwise

end LogicChip

import LogicChip.Binary64.Bits

namespace LogicChip.Binary64

/-- Patterns of no number: all exponent bits are set and the fraction is not zero. -/
def IsNaNPattern (bits : UInt64) : Prop := 0x7ff0000000000000 < bits.toNat % 2 ^ 63

instance (bits : UInt64) : Decidable (IsNaNPattern bits) := inferInstanceAs (Decidable (_ < _))

/-- Patterns that are the same or both of no number, whatever the sign and the payload. -/
def SamePattern (first second : UInt64) : Prop :=
  first = second ∨ IsNaNPattern first ∧ IsNaNPattern second

/-- The fields of a magnitude are the ones that it was made from. -/
theorem fieldsOfMagnitude_magnitudeOfFields {exponent fraction : Nat} (h : fraction < 2 ^ 52) :
    fieldsOfMagnitude (magnitudeOfFields exponent fraction) = exponent * 2 ^ 52 + fraction := by
  unfold magnitudeOfFields
  split
  · rename_i hzero
    rw [hzero, Nat.zero_mul, Nat.zero_add, fieldsOfMagnitude_of_lt h]
  · have hne : (2 ^ 52 + fraction) * 2 ^ (exponent - 1) ≠ 0 :=
      Nat.mul_ne_zero (by omega) (Nat.pos_iff_ne_zero.1 (Nat.two_pow_pos _))
    have hlog : ((2 ^ 52 + fraction) * 2 ^ (exponent - 1)).log2 = 52 + (exponent - 1) := by
      rw [Nat.log2_eq_iff hne, Nat.add_right_comm 52 _ 1, Nat.pow_add, Nat.pow_add]
      constructor
      · exact Nat.mul_le_mul_right _ (by omega)
      · exact Nat.mul_lt_mul_of_pos_right (by omega) (Nat.two_pow_pos _)
    unfold fieldsOfMagnitude
    simp only [hlog, Nat.add_sub_cancel_left, Nat.shiftRight_eq_div_pow,
      Nat.mul_div_cancel _ (Nat.two_pow_pos _)]
    omega

theorem toNat_toBits_infinity (negative : Bool) : (toBits (.infinity negative)).toNat =
    (if negative then 2 ^ 63 else 0) + 0x7ff0000000000000 := by
  cases negative with
  | false => rfl
  | true => rfl

theorem toNat_toBits_finite (negative : Bool) {magnitude : Nat} (h : Representable magnitude) :
    (toBits (.finite negative magnitude h)).toNat =
      (if negative then 2 ^ 63 else 0) + fieldsOfMagnitude magnitude := by
  have hfields := (magnitudeOfFields_fieldsOfMagnitude h).1
  simp only [toBits, pattern, UInt64.toNat_ofNat']
  cases negative <;> simp only [Bool.false_eq_true, ↓reduceIte] <;> omega

/-- The value of a pattern has that pattern, unless the pattern is of no number. -/
theorem samePattern_toBits_ofBits (bits : UInt64) : SamePattern bits (ofBits bits).toBits := by
  have hbits : bits.toNat < 2 ^ 64 := bits.toNat_lt
  have hfraction : bits.toNat % 2 ^ 52 < 2 ^ 52 := Nat.mod_lt _ (by decide)
  have hsign : (if decide (bits.toNat / 2 ^ 63 = 1) = true then 2 ^ 63 else 0) =
      bits.toNat / 2 ^ 63 * 2 ^ 63 := by
    simp only [decide_eq_true_eq]
    split <;> omega
  unfold ofBits
  dsimp only
  split
  · rename_i hexponent
    left
    rw [← UInt64.toNat_inj, toNat_toBits_finite, fieldsOfMagnitude_magnitudeOfFields hfraction,
      hsign]
    omega
  · split
    · left
      rw [← UInt64.toNat_inj, toNat_toBits_infinity, hsign]
      omega
    · right
      constructor
      · unfold IsNaNPattern
        omega
      · decide

theorem ofBits_of_isNaNPattern {bits : UInt64} (h : IsNaNPattern bits) : ofBits bits = nan := by
  unfold IsNaNPattern at h
  unfold ofBits
  rw [dif_neg (by omega), if_neg (by omega)]

/-- The patterns that are read as a value are its own and, for NaN, all others of no number. -/
theorem ofBits_eq_iff {bits : UInt64} {x : Binary64} :
    ofBits bits = x ↔ SamePattern bits x.toBits := by
  constructor
  · rintro rfl
    exact samePattern_toBits_ofBits bits
  · rintro (rfl | ⟨hbits, hx⟩)
    · exact ofBits_toBits x
    · calc ofBits bits = nan := ofBits_of_isNaNPattern hbits
        _ = ofBits x.toBits := (ofBits_of_isNaNPattern hx).symm
        _ = x := ofBits_toBits x

end LogicChip.Binary64

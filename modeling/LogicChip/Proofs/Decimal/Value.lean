import LogicChip.Decimal.Basic
import LogicChip.Proofs.Binary64.Rounded

namespace LogicChip.Decimal

open Binary64 (scale bound)

/-- The numerator of a decimal's number, in units. -/
def numerator (d : Decimal) : Nat := d.coefficient * 10 ^ d.exponent.toNat * scale

/-- The denominator of a decimal's number. -/
def denominator (d : Decimal) : Nat := 10 ^ (-d.exponent).toNat

theorem denominator_pos (d : Decimal) : 0 < d.denominator := Nat.pow_pos (by decide)

theorem cutoff_nonneg : 0 ≤ cutoff := by decide

theorem two_mul_scale_lt : 2 * scale < 10 ^ cutoff.toNat := by decide +kernel

theorem bound_le_mul_scale : bound ≤ 10 ^ cutoff.toNat * scale := by decide +kernel

/-- Below the lower cut-off numbers are less than half a unit. -/
theorem two_mul_numerator_lt {d : Decimal} (h : d.exponent + d.coefficient.log2 + 1 ≤ -cutoff) :
    2 * d.numerator < d.denominator := by
  have hcutoff := cutoff_nonneg
  have hnone : d.exponent.toNat = 0 := by omega
  have hbits : d.coefficient.log2 + 1 + cutoff.toNat ≤ (-d.exponent).toNat := by omega
  have hcoefficient : d.coefficient ≤ 10 ^ (d.coefficient.log2 + 1) :=
    Nat.le_of_lt (Nat.lt_of_lt_of_le Nat.lt_log2_self (Nat.pow_le_pow_left (by decide) _))
  unfold numerator denominator
  rw [hnone, Nat.pow_zero, Nat.mul_one]
  calc 2 * (d.coefficient * scale)
      = d.coefficient * (2 * scale) := Nat.mul_left_comm _ _ _
    _ ≤ 10 ^ (d.coefficient.log2 + 1) * (2 * scale) := Nat.mul_le_mul_right _ hcoefficient
    _ < 10 ^ (d.coefficient.log2 + 1) * 10 ^ cutoff.toNat :=
        Nat.mul_lt_mul_of_pos_left two_mul_scale_lt (Nat.pow_pos (by decide))
    _ = 10 ^ (d.coefficient.log2 + 1 + cutoff.toNat) := (Nat.pow_add _ _ _).symm
    _ ≤ 10 ^ (-d.exponent).toNat := Nat.pow_le_pow_right (by decide) hbits

/-- Above the upper cut-off numbers are beyond the finite values. -/
theorem bound_mul_denominator_le {d : Decimal} (hne : d.coefficient ≠ 0) (h : cutoff < d.exponent) :
    bound * d.denominator ≤ d.numerator := by
  have hcutoff := cutoff_nonneg
  have hnone : (-d.exponent).toNat = 0 := by omega
  have hpower : 10 ^ cutoff.toNat ≤ d.coefficient * 10 ^ d.exponent.toNat :=
    Nat.le_trans (Nat.pow_le_pow_right (by decide) (by omega))
      (Nat.le_mul_of_pos_left _ (Nat.pos_of_ne_zero hne))
  unfold numerator denominator
  rw [hnone, Nat.pow_zero, Nat.mul_one]
  exact Nat.le_trans bound_le_mul_scale (Nat.mul_le_mul_right scale hpower)

/-- The cut-offs change no value. -/
theorem value_eq_ofRatio (d : Decimal) :
    d.value = .ofRatio d.negative d.numerator d.denominator := by
  unfold value
  split
  · rename_i hsmall
    refine (Binary64.ofRatio_eq_zero d.negative ?_).symm
    rcases hsmall with hzero | hsmall
    · have hnumerator : d.numerator = 0 := by
        rw [numerator, hzero, Nat.zero_mul, Nat.zero_mul]
      rw [hnumerator]
      exact d.denominator_pos
    · exact two_mul_numerator_lt hsmall
  · rename_i hsmall
    split
    · rename_i hlarge
      exact (Binary64.ofRatio_eq_infinity d.negative d.denominator_pos
        (bound_mul_denominator_le (fun hzero => hsmall (.inl hzero)) hlarge)).symm
    · split
      · rename_i hwhole
        have hnone : (-d.exponent).toNat = 0 := by omega
        rw [denominator, hnone]
        rfl
      · rename_i hfraction
        have hnone : d.exponent.toNat = 0 := by omega
        rw [numerator, denominator, hnone, Nat.pow_zero, Nat.mul_one]

theorem value_whole (n : Nat) : value ⟨false, n, 0⟩ = .ofInt n := by
  have hsign : decide ((n : Int) < 0) = false := by simp
  have hnumerator : numerator ⟨false, n, 0⟩ = n * scale :=
    congrArg (· * scale) (Nat.mul_one n)
  rw [value_eq_ofRatio, hnumerator, Binary64.ofInt, hsign, Int.natAbs_natCast]
  rfl

/-- A decimal's value is the one nearest to its number. -/
theorem isRounded_value (d : Decimal) :
    d.value.IsRounded (Binary64.signed d.negative d.numerator) d.denominator := by
  rw [value_eq_ofRatio]
  exact Binary64.isRounded_ofRatio d.negative d.numerator d.denominator_pos

theorem value_eq_zero_of_place {d : Decimal} (h : d.value.place = 0) :
    d.value = .zero d.negative := by
  rw [value_eq_ofRatio] at h ⊢
  exact Binary64.ofRatio_eq_zero_of_place h

end LogicChip.Decimal

import LogicChip.Proofs.Binary64.Nearest
import Mathlib.Order.Bounds.Basic

namespace LogicChip.Binary64

theorem roundDiv_mono {num other : Nat} (den : Nat) (h : num ≤ other) :
    roundDiv num den ≤ roundDiv other den := by
  have hsplit := Nat.div_add_mod num den
  have hsplitOther := Nat.div_add_mod other den
  rcases Nat.lt_or_eq_of_le (Nat.div_le_div_right (c := den) h) with hlt | heq
  · calc roundDiv num den ≤ num / den + 1 := roundDiv_le num den
      _ ≤ other / den := hlt
      _ ≤ roundDiv other den := div_le_roundDiv other den
  · rw [← heq] at hsplitOther
    simp only [roundDiv, ← heq]
    split <;> split <;> omega

/-- Rounding does not pass a multiple of its unit that the quotient has reached. -/
theorem le_nearest_of_dvd {num den limit : Nat} (hdvd : 2 ^ roundingExponent (num / den) ∣ limit)
    (h : limit ≤ num / den) : limit ≤ nearest num den := by
  obtain ⟨count, hcount⟩ := hdvd
  unfold nearest
  generalize roundingExponent (num / den) = exponent at hcount
  have hquotient : count ≤ num / (den * 2 ^ exponent) := by
    rw [← Nat.div_div_eq_div_mul, Nat.le_div_iff_mul_le (Nat.two_pow_pos _), Nat.mul_comm,
      ← hcount]
    exact h
  calc limit = count * 2 ^ exponent := by rw [hcount, Nat.mul_comm]
    _ ≤ roundDiv num (den * 2 ^ exponent) * 2 ^ exponent :=
      Nat.mul_le_mul_right _ (Nat.le_trans hquotient (div_le_roundDiv _ _))

/-- Between numbers of two roundings stands the leading power of two of the greater one. -/
theorem two_pow_log2_le_of_roundingExponent_lt {m n : Nat}
    (h : roundingExponent m < roundingExponent n) :
    m < 2 ^ n.log2 ∧ 2 ^ n.log2 ≤ n ∧ roundingExponent n + 52 = n.log2 := by
  unfold roundingExponent at h ⊢
  have hne : n ≠ 0 := by
    rintro rfl
    simp at h
  refine ⟨?_, Nat.log2_self_le hne, by omega⟩
  exact Nat.lt_of_lt_of_le Nat.lt_log2_self (Nat.pow_le_pow_right (by decide) (by omega))

/-- A lesser quotient is not rounded to a greater magnitude. -/
theorem nearest_mono {num other den : Nat} (hden : 0 < den) (h : num ≤ other) :
    nearest num den ≤ nearest other den := by
  rcases Nat.lt_or_eq_of_le (roundingExponent_le (Nat.div_le_div_right (c := den) h)) with hlt | heq
  · -- A power of two lies between the two quotients, and neither is rounded past it.
    obtain ⟨hbelow, habove, hexponent⟩ := two_pow_log2_le_of_roundingExponent_lt hlt
    have hnum : num ≤ 2 ^ (other / den).log2 * den :=
      Nat.le_of_lt ((Nat.div_lt_iff_lt_mul hden).1 hbelow)
    calc nearest num den
        ≤ 2 ^ (other / den).log2 := by
          refine nearest_le_of_le_mul hden ?_ hnum
          rw [Nat.log2_two_pow]
          exact Nat.pow_dvd_pow 2 (Nat.sub_le _ _)
      _ ≤ nearest other den :=
          le_nearest_of_dvd (Nat.pow_dvd_pow 2 (by omega)) habove
  · simp only [nearest, heq]
    exact Nat.mul_le_mul_right _ (roundDiv_mono _ h)

theorem nearest_zero {den : Nat} (hden : 0 < den) : nearest 0 den = 0 :=
  Nat.le_zero.1 (nearest_le_of_le_mul hden (Nat.dvd_zero _) (Nat.zero_le _))

/-- A number is rounded up to a greater multiple of the divisor if it is nearer to it than half the
divisor, or just as near to an even one. -/
theorem roundDiv_eq_iff_of_lt {num den count : Nat} (h : num < count * den) :
    roundDiv num den = count ↔
      2 * (count * den - num) < den ∨ 2 * (count * den - num) = den ∧ count % 2 = 0 := by
  have hden : 0 < den := Nat.pos_of_ne_zero fun hzero => by simp [hzero] at h
  have hsplit := Nat.div_add_mod num den
  have hrest := Nat.mod_lt num hden
  have hquotient : num / den < count := (Nat.div_lt_iff_lt_mul hden).2 h
  have hle := roundDiv_le num den
  rw [Nat.mul_comm] at hsplit
  obtain ⟨k, rfl⟩ := Nat.exists_eq_add_of_lt hquotient
  have hmultiple : (num / den + k + 1) * den = num / den * den + k * den + den := by
    rw [Nat.add_mul, Nat.add_mul, Nat.one_mul]
  rcases Nat.eq_zero_or_pos k with rfl | hk
  · rw [hmultiple]
    simp only [roundDiv]
    split <;> omega
  · have hfar : den ≤ k * den := Nat.le_mul_of_pos_left den hk
    rw [hmultiple]
    omega

/-- The distance from a magnitude to the one before it. -/
def spacingBelow (n : Nat) : Nat := 2 ^ roundingExponent (n - 1)

theorem spacingBelow_dvd {n : Nat} (hn : Representable n) : spacingBelow n ∣ n :=
  Nat.dvd_trans (Nat.pow_dvd_pow 2 (roundingExponent_le (Nat.sub_le n 1))) hn.2

/-- One step below a magnitude there is another. -/
theorem representable_sub_spacingBelow {n : Nat} (hn : Representable n) :
    Representable (n - spacingBelow n) := by
  obtain ⟨count, hcount⟩ := spacingBelow_dvd hn
  have hpos : 0 < spacingBelow n := Nat.two_pow_pos _
  have hpredecessor : n - spacingBelow n = (count - 1) * spacingBelow n := by
    rw [Nat.sub_mul, Nat.one_mul, Nat.mul_comm, ← hcount]
  have hupper : n - 1 < 2 ^ 53 * spacingBelow n := by
    rw [spacingBelow, ← Nat.pow_add]
    refine Nat.lt_of_lt_of_le Nat.lt_log2_self (Nat.pow_le_pow_right (by decide) ?_)
    unfold roundingExponent
    omega
  have hsignificand : count - 1 < 2 ^ 53 :=
    Nat.lt_of_mul_lt_mul_right (a := spacingBelow n) (by omega)
  rw [hpredecessor]
  exact representable_mul_two_pow (Nat.le_of_lt hsignificand) (by
    have hbound := hn.1
    change (count - 1) * spacingBelow n < bound
    omega)

/-- No magnitude lies within the last step before another. -/
theorem add_spacingBelow_le {m n : Nat} (hm : 2 ^ roundingExponent m ∣ m) (hn : Representable n)
    (h : m < n) : m + spacingBelow n ≤ n := by
  have hmultiple : ∀ k, k < n → spacingBelow n ∣ k → k + spacingBelow n ≤ n := by
    intro k hk hdvd
    have hle := Nat.le_of_dvd (Nat.sub_pos_of_lt hk) (Nat.dvd_sub (spacingBelow_dvd hn) hdvd)
    omega
  rcases Nat.lt_or_eq_of_le (roundingExponent_le (Nat.le_sub_one_of_lt h)) with hlt | heq
  · -- A power of two, which is a multiple of the step, lies between the magnitudes.
    obtain ⟨hbelow, habove, hexponent⟩ := two_pow_log2_le_of_roundingExponent_lt hlt
    have hpower := hmultiple (2 ^ (n - 1).log2) (by omega) (Nat.pow_dvd_pow 2 (by omega))
    omega
  · rw [heq] at hm
    exact hmultiple m h hm

/-- The magnitude before a magnitude is one step below it. -/
theorem isGreatest_sub_spacingBelow {n : Nat} (hn : Representable n) (hpos : 0 < n) :
    IsGreatest {m | Representable m ∧ m < n} (n - spacingBelow n) := by
  have hstep : 0 < spacingBelow n := Nat.two_pow_pos _
  have hle : spacingBelow n ≤ n := Nat.le_of_dvd hpos (spacingBelow_dvd hn)
  refine ⟨⟨representable_sub_spacingBelow hn, by omega⟩, ?_⟩
  rintro m ⟨hm, hlt⟩
  have hgap := add_spacingBelow_le hm.2 hn hlt
  omega

/-- A number in the upper half of the last step before a magnitude, or in the middle of it where the
magnitude is an even multiple of the step. -/
def RoundsUpTo (n r : Nat) : Prop :=
  2 * (n - r) < spacingBelow n ∨ 2 * (n - r) = spacingBelow n ∧ 2 * spacingBelow n ∣ n

instance (n r : Nat) : Decidable (RoundsUpTo n r) := inferInstanceAs (Decidable (_ ∨ _))

/-- The numbers below a magnitude that are rounded up to it. -/
theorem nearest_eq_iff_of_lt {n r : Nat} (hn : Representable n) (h : r < n) :
    nearest r 1 = n ↔ RoundsUpTo n r := by
  have hpos : 0 < spacingBelow n := Nat.two_pow_pos _
  unfold RoundsUpTo
  rcases Nat.lt_or_eq_of_le (roundingExponent_le (Nat.le_sub_one_of_lt h)) with hlt | heq
  · -- The number is below a power of two that comes before the magnitude.
    obtain ⟨hbelow, habove, _⟩ := two_pow_log2_le_of_roundingExponent_lt hlt
    have hpower : 2 ^ roundingExponent (2 ^ (n - 1).log2) ∣ 2 ^ (n - 1).log2 := by
      rw [roundingExponent, Nat.log2_two_pow]
      exact Nat.pow_dvd_pow 2 (Nat.sub_le _ _)
    have hgap := (isGreatest_sub_spacingBelow hn (Nat.zero_lt_of_lt h)).2
      ⟨⟨Nat.lt_of_le_of_lt habove (Nat.lt_of_le_of_lt (Nat.sub_le n 1) hn.1), hpower⟩, by omega⟩
    have hnearest : nearest r 1 ≤ 2 ^ (n - 1).log2 :=
      nearest_le_of_le_mul Nat.one_pos hpower (by omega)
    omega
  · have hnearest : nearest r 1 = roundDiv r (spacingBelow n) * spacingBelow n := by
      rw [nearest_eq, heq]
      rfl
    have hstep := spacingBelow_dvd hn
    rw [hnearest]
    generalize spacingBelow n = step at hstep hpos
    obtain ⟨count, rfl⟩ := hstep
    rw [Nat.mul_comm step count] at h ⊢
    rw [Nat.mul_left_inj (Nat.pos_iff_ne_zero.1 hpos), roundDiv_eq_iff_of_lt h,
      Nat.mul_dvd_mul_iff_right hpos, Nat.dvd_iff_mod_eq_zero]

end LogicChip.Binary64

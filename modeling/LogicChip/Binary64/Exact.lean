import LogicChip.Binary64.Rounding

namespace LogicChip.Binary64

theorem roundDiv_of_dvd {num den : Nat} (hden : 0 < den) (hdvd : den ∣ num) :
    roundDiv num den = num / den := by
  have hmod : num % den = 0 := Nat.mod_eq_zero_of_dvd hdvd
  simp [roundDiv, hmod, hden]

theorem roundDiv_mul_right (num den : Nat) {factor : Nat} (hfactor : 0 < factor) :
    roundDiv (num * factor) (den * factor) = roundDiv num den := by
  simp only [roundDiv, Nat.mul_div_mul_right _ _ hfactor, Nat.mul_mod_mul_right, ← Nat.mul_assoc]
  have hlt : 2 * (num % den) * factor < den * factor ↔ 2 * (num % den) < den :=
    Nat.mul_lt_mul_right hfactor
  have heq : 2 * (num % den) * factor = den * factor ↔ 2 * (num % den) = den :=
    Nat.mul_left_inj (Nat.pos_iff_ne_zero.1 hfactor)
  simp only [hlt, heq]

/-- The nearest magnitude of a quotient is that of the reduced quotient. -/
theorem nearest_mul_right (num den : Nat) {factor : Nat} (hfactor : 0 < factor) :
    nearest (num * factor) (den * factor) = nearest num den := by
  simp only [nearest, Nat.mul_div_mul_right _ _ hfactor]
  rw [Nat.mul_right_comm, roundDiv_mul_right _ _ hfactor]

theorem nearest_of_representable {n : Nat} (h : Representable n) : nearest n 1 = n := by
  have hdvd : 2 ^ roundingExponent n ∣ n := h.2
  simp only [nearest, Nat.div_one, Nat.one_mul]
  rw [roundDiv_of_dvd (Nat.two_pow_pos _) hdvd, Nat.div_mul_cancel hdvd]

/-- A representable number of units is exact. -/
theorem ofUnits_of_representable (negative : Bool) {n : Nat} (h : Representable n) :
    ofUnits negative n = .finite negative n h := by
  unfold ofUnits ofRatio
  have hnearest := nearest_of_representable h
  rw [dif_pos (by rw [hnearest]; exact h.1)]
  simp only [hnearest]

/-- A quotient that comes to a representable number of units is exact. -/
theorem ofRatio_mul_right (negative : Bool) {n den : Nat} (hden : 0 < den) (h : Representable n) :
    ofRatio negative (n * den) den = .finite negative n h := by
  have hnearest : nearest (n * den) den = n := by
    have hreduced := nearest_mul_right n 1 hden
    rw [Nat.one_mul] at hreduced
    rw [hreduced, nearest_of_representable h]
  unfold ofRatio
  rw [dif_pos (by rw [hnearest]; exact h.1)]
  simp only [hnearest]

end LogicChip.Binary64

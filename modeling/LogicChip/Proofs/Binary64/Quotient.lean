import LogicChip.Proofs.Binary64.Integer

namespace LogicChip.Binary64

theorem roundDiv_le_of_le_mul {num den count : Nat} (hden : 0 < den) (h : num ≤ count * den) :
    roundDiv num den ≤ count := by
  have hquotient : num / den ≤ count := Nat.div_le_of_le_mul (by rw [Nat.mul_comm]; exact h)
  unfold roundDiv
  rcases Nat.lt_or_eq_of_le hquotient with hlt | heq
  · dsimp only
    split <;> omega
  · -- The quotient is exact here, so it is not rounded up.
    have hsplit := Nat.div_add_mod num den
    rw [heq, Nat.mul_comm den] at hsplit
    have hexact : num % den = 0 := by omega
    rw [if_pos (Or.inl (by omega))]
    exact hquotient

theorem roundingExponent_le {quotient limit : Nat} (h : quotient ≤ limit) :
    roundingExponent quotient ≤ roundingExponent limit := by
  unfold roundingExponent
  by_cases hzero : quotient = 0
  · rw [hzero, Nat.log2_zero, Nat.zero_sub]
    exact Nat.zero_le _
  · have hpower := Nat.le_trans (Nat.log2_self_le hzero) h
    exact Nat.sub_le_sub_right ((Nat.le_log2 (by omega)).2 hpower) 52

/-- Rounding does not pass a magnitude of at most 53 significant bits. -/
theorem nearest_le_of_le_mul {num den limit : Nat} (hden : 0 < den)
    (hlimit : 2 ^ (limit.log2 - 52) ∣ limit) (h : num ≤ limit * den) :
    nearest num den ≤ limit := by
  have hquotient : num / den ≤ limit := Nat.div_le_of_le_mul (by rw [Nat.mul_comm]; exact h)
  have hexponent := roundingExponent_le hquotient
  obtain ⟨count, hcount⟩ := Nat.dvd_trans (Nat.pow_dvd_pow 2 hexponent) hlimit
  unfold nearest
  generalize roundingExponent (num / den) = exponent at hcount
  have hrounded : roundDiv num (den * 2 ^ exponent) ≤ count := by
    apply roundDiv_le_of_le_mul (Nat.mul_pos hden (Nat.two_pow_pos _))
    calc num ≤ limit * den := h
      _ = count * (den * 2 ^ exponent) := by rw [hcount]; ac_rfl
  calc roundDiv num (den * 2 ^ exponent) * 2 ^ exponent
      ≤ count * 2 ^ exponent := Nat.mul_le_mul_right _ hrounded
    _ = limit := by rw [hcount, Nat.mul_comm]

/-- A proper fraction of integers of at most 53 bits rounds to less than one. -/
theorem nearest_lt_unit {a b unit exponent : Nat} (hunit : unit = 2 ^ 53 * 2 ^ exponent)
    (hab : a < b) (hb : b ≤ 2 ^ 53) : nearest (a * unit) b < unit := by
  have hsignificand : a * 2 ^ 53 ≤ (2 ^ 53 - 1) * b := by omega
  -- The limit is the greatest value below one.
  have hlimit := dvd_mul_two_pow (Nat.sub_le (2 ^ 53) 1) exponent
  have hle : a * unit ≤ (2 ^ 53 - 1) * 2 ^ exponent * b := by
    calc a * unit
        = a * 2 ^ 53 * 2 ^ exponent := by rw [hunit, Nat.mul_assoc]
      _ ≤ (2 ^ 53 - 1) * b * 2 ^ exponent := Nat.mul_le_mul_right _ hsignificand
      _ = (2 ^ 53 - 1) * 2 ^ exponent * b := Nat.mul_right_comm _ _ _
  calc nearest (a * unit) b
      ≤ (2 ^ 53 - 1) * 2 ^ exponent := nearest_le_of_le_mul (by omega) hlimit hle
    _ < 2 ^ 53 * 2 ^ exponent := Nat.mul_lt_mul_of_pos_right (by omega) (Nat.two_pow_pos _)
    _ = unit := hunit.symm

theorem scale_eq : scale = 2 ^ 53 * 2 ^ (unitExponent - 53) := by
  unfold scale
  rw [← Nat.pow_add, Nat.add_sub_of_le (by decide)]

theorem finite_div_finite {s t : Bool} {m n : Nat} (hm : Representable m) (hn : Representable n)
    (hne : n ≠ 0) : finite s m hm / finite t n hn = ofRatio (s ^^ t) (m * scale) n :=
  if_neg hne

theorem ofRatio_mul_scale (negative : Bool) (num den : Nat) :
    ofRatio negative (num * scale) (den * scale) = ofRatio negative num den := by
  simp only [ofRatio, nearest_mul_right num den scale_pos]

/-- Integers of at most 53 bits divide with a single rounding. -/
theorem ofInt_div_ofInt {a b : Int} (ha : a.natAbs ≤ 2 ^ 53) (hb : b.natAbs ≤ 2 ^ 53)
    (hne : b ≠ 0) : ofInt a / ofInt b =
      ofRatio (decide (a < 0) ^^ decide (b < 0)) (a.natAbs * scale) b.natAbs := by
  have hscaled : b.natAbs * scale ≠ 0 :=
    Nat.mul_ne_zero (by omega) (Nat.pos_iff_ne_zero.1 scale_pos)
  rw [ofInt_eq_finite ha, ofInt_eq_finite hb, finite_div_finite _ _ hscaled, ofRatio_mul_scale]

theorem signed_false (n : Nat) : signed false n = n := rfl

theorem position_ofRatio {negative : Bool} {num den : Nat} (h : nearest num den < bound) :
    (ofRatio negative num den).position = some (signed negative (nearest num den)) := by
  unfold ofRatio
  rw [dif_pos h]
  rfl

theorem ofNat_eq_ofMagnitude (n : Nat) : (OfNat.ofNat n : Binary64) = ofMagnitude false n := rfl

theorem position_ofNat {n : Nat} (h : n ≤ 2 ^ 53) :
    (OfNat.ofNat n : Binary64).position = some ((n * scale : Nat) : Int) := by
  rw [ofNat_eq_ofMagnitude, ofMagnitude_eq_finite false h]
  rfl

/-- A value from zero up to, but not including, one. -/
def InUnitInterval (x : Binary64) : Prop := le 0 x = true ∧ lt x 1 = true

theorem inUnitInterval_div {a b : Int} (ha : 0 ≤ a) (hab : a < b) (hb : b ≤ 2 ^ 53) :
    InUnitInterval (ofInt a / ofInt b) := by
  have hbelow : nearest (a.natAbs * scale) b.natAbs < scale :=
    nearest_lt_unit scale_eq (by omega) (by omega)
  have hfinite : nearest (a.natAbs * scale) b.natAbs < bound :=
    Nat.lt_of_lt_of_le hbelow (two_pow_le_bound (by decide))
  have hposition : (ofInt a / ofInt b).position =
      some ((nearest (a.natAbs * scale) b.natAbs : Nat) : Int) := by
    rw [ofInt_div_ofInt (by omega) (by omega) (by omega), decide_eq_false (by omega),
      decide_eq_false (by omega), Bool.xor_false, position_ofRatio hfinite, signed_false]
  constructor
  · rw [le_of_position (position_ofNat (n := 0) (by omega)) hposition, decide_eq_true_iff,
      Nat.zero_mul]
    exact Int.ofNat_le.2 (Nat.zero_le _)
  · rw [lt_of_position hposition (position_ofNat (n := 1) (by omega)), decide_eq_true_iff,
      Nat.one_mul]
    exact Int.ofNat_lt.2 hbelow

end LogicChip.Binary64

import LogicChip.Proofs.Binary64.Quotient

namespace LogicChip.Binary64

/-- The distance between two natural numbers. -/
def gap (m n : Nat) : Nat := ((m : Int) - n).natAbs

/-- A rounded quotient is the nearest multiple of the divisor, and an even one if two are
nearest. -/
theorem roundDiv_spec (num count : Nat) {den : Nat} (hden : 0 < den) :
    gap (roundDiv num den * den) num ≤ gap (count * den) num ∧
      (gap (count * den) num = gap (roundDiv num den * den) num →
        count = roundDiv num den ∨ roundDiv num den % 2 = 0) := by
  have hsplit := Nat.div_add_mod num den
  have hrest := Nat.mod_lt num hden
  rw [Nat.mul_comm] at hsplit
  unfold gap roundDiv
  dsimp only
  generalize num / den = quotient at hsplit
  generalize num % den = rest at hsplit hrest
  have hmultiple : ∀ k : Nat, k = 0 ∨ den ≤ k * den := fun k =>
    (Nat.eq_zero_or_pos k).imp_right fun hk => Nat.le_mul_of_pos_left den hk
  rcases Nat.lt_or_ge quotient count with habove | hbelow
  · obtain ⟨k, rfl⟩ := Nat.exists_eq_add_of_lt habove
    have hk := hmultiple k
    simp only [Nat.add_mul, Nat.one_mul]
    split
    · omega
    · rw [Nat.succ_mul]
      omega
  · obtain ⟨k, rfl⟩ := Nat.exists_eq_add_of_le hbelow
    have hk := hmultiple k
    rw [Nat.add_mul] at hsplit
    split
    · rw [Nat.add_mul]
      omega
    · rw [Nat.succ_mul, Nat.add_mul]
      omega

theorem div_le_roundDiv (num den : Nat) : num / den ≤ roundDiv num den := by
  simp only [roundDiv]
  split <;> omega

/-- The significand of a magnitude: its highest 53 bits. -/
def significand (magnitude : Nat) : Nat := magnitude / 2 ^ roundingExponent magnitude

theorem even_significand {count exponent : Nat} (hlower : exponent = 0 ∨ 2 ^ 52 ≤ count)
    (hupper : count ≤ 2 ^ 53) (heven : count % 2 = 0) :
    significand (count * 2 ^ exponent) % 2 = 0 := by
  unfold significand roundingExponent
  rcases Nat.lt_or_eq_of_le hupper with hlt | rfl
  · rcases Nat.lt_or_ge count (2 ^ 52) with hshort | hlong
    · obtain rfl : exponent = 0 := hlower.resolve_right (Nat.not_le.2 hshort)
      have hlog : count.log2 - 52 = 0 := by
        rcases Nat.eq_zero_or_pos count with rfl | hpos
        · rfl
        · have hbits := (Nat.log2_lt (Nat.ne_of_gt hpos)).2 hshort
          omega
      rw [Nat.pow_zero, Nat.mul_one, hlog, Nat.pow_zero, Nat.div_one]
      exact heven
    · have hne : count * 2 ^ exponent ≠ 0 :=
        Nat.mul_ne_zero (by omega) (Nat.pos_iff_ne_zero.1 (Nat.two_pow_pos _))
      have hlog : (count * 2 ^ exponent).log2 = 52 + exponent := by
        rw [Nat.log2_eq_iff hne]
        refine ⟨?_, ?_⟩
        · rw [Nat.pow_add]
          exact Nat.mul_le_mul_right _ hlong
        · rw [Nat.add_right_comm, Nat.pow_add]
          exact Nat.mul_lt_mul_of_pos_right hlt (Nat.two_pow_pos _)
      rw [hlog, Nat.add_sub_cancel_left, Nat.mul_div_cancel _ (Nat.two_pow_pos _)]
      exact heven
  · rw [← Nat.pow_add, Nat.log2_two_pow, Nat.pow_div (Nat.sub_le _ _) Nat.zero_lt_two,
      show 53 + exponent - (53 + exponent - 52) = 52 by omega]

theorem nearest_eq (n : Nat) :
    nearest n 1 = roundDiv n (2 ^ roundingExponent n) * 2 ^ roundingExponent n := by
  rw [nearest, Nat.div_one, Nat.one_mul]

/-- A quotient that is rounded to an even multiple of its unit has an even significand then. -/
theorem even_significand_nearest {num den : Nat}
    (heven : roundDiv num (den * 2 ^ roundingExponent (num / den)) % 2 = 0) :
    significand (nearest num den) % 2 = 0 := by
  refine even_significand ?_ (roundDiv_roundingExponent_le num den) heven
  rcases Nat.lt_or_ge 52 (num / den).log2 with hlong | hshort
  · refine .inr (Nat.le_trans ?_ (div_le_roundDiv _ _))
    rw [← Nat.div_div_eq_div_mul, Nat.le_div_iff_mul_le (Nat.two_pow_pos _), ← Nat.pow_add,
      roundingExponent, Nat.add_sub_cancel' (Nat.le_of_lt hlong)]
    exact Nat.log2_self_le (by intro hzero; simp [hzero] at hlong)
  · exact .inl (Nat.sub_eq_zero_of_le hshort)

/-- No magnitude of at most 53 significant bits is nearer to a quotient than the nearest one, and if
another is as near the nearest one is even. -/
theorem nearest_spec (num : Nat) {den : Nat} (hden : 0 < den) {m : Nat}
    (hm : 2 ^ (m.log2 - 52) ∣ m) :
    gap (nearest num den * den) num ≤ gap (m * den) num ∧
      (gap (m * den) num = gap (nearest num den * den) num →
        m = nearest num den ∨ significand (nearest num den) % 2 = 0) := by
  have hunit : 0 < den * 2 ^ roundingExponent (num / den) := Nat.mul_pos hden (Nat.two_pow_pos _)
  have hscaled : ∀ count, count * 2 ^ roundingExponent (num / den) * den =
      count * (den * 2 ^ roundingExponent (num / den)) := fun count => by ac_rfl
  by_cases hlog : (num / den).log2 ≤ m.log2
  · -- The magnitude is a multiple of the unit that the quotient is rounded to.
    obtain ⟨count, hcount⟩ := Nat.dvd_trans
      (Nat.pow_dvd_pow 2 (Nat.sub_le_sub_right hlog 52)) hm
    have hmultiple : m = count * 2 ^ roundingExponent (num / den) := by
      rw [Nat.mul_comm]
      exact hcount
    obtain ⟨hle, htie⟩ := roundDiv_spec num count hunit
    rw [← hscaled, ← hscaled, ← hmultiple] at hle htie
    refine ⟨hle, fun heq => ?_⟩
    rcases htie heq with hsame | heven
    · exact .inl (hmultiple.trans (congrArg (· * _) hsame))
    · exact .inr (even_significand_nearest heven)
  · -- The power of two at or below the quotient lies between it and the magnitude.
    have hpower : 2 ^ ((num / den).log2 - roundingExponent (num / den)) *
        2 ^ roundingExponent (num / den) = 2 ^ (num / den).log2 := by
      have hexponent : roundingExponent (num / den) ≤ (num / den).log2 :=
        Nat.sub_le (num / den).log2 52
      rw [← Nat.pow_add, Nat.sub_add_cancel hexponent]
    have hbelow : 2 ^ (num / den).log2 * den ≤ num := by
      rw [← Nat.le_div_iff_mul_le hden]
      exact Nat.log2_self_le (by intro hzero; simp [hzero] at hlog)
    have habove : m * den < 2 ^ (num / den).log2 * den := by
      refine Nat.mul_lt_mul_of_pos_right (Nat.lt_of_lt_of_le Nat.lt_log2_self ?_) hden
      exact Nat.pow_le_pow_right Nat.zero_lt_two (Nat.lt_of_not_le hlog)
    have hle := (roundDiv_spec num (2 ^ ((num / den).log2 - roundingExponent (num / den))) hunit).1
    rw [← hscaled, ← hscaled, hpower] at hle
    change gap (nearest num den * den) num ≤ _ at hle
    unfold gap at *
    omega

end LogicChip.Binary64

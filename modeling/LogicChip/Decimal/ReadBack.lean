import LogicChip.Binary64.Exact
import LogicChip.Decimal.Shortest

namespace LogicChip.Decimal

open Binary64 (unitExponent)

theorem value_of_onGrid? {x : Binary64} {negative : Bool} {units dropped : Nat} {d : Decimal}
    (h : onGrid? x negative units dropped = some d) : d.value = x := by
  simp only [onGrid?] at h
  split at h
  · rename_i hlower
    split at h
    · rename_i hupper
      exact Option.some.inj h ▸ hupper.1
    · exact Option.some.inj h ▸ hlower
  · split at h
    · rename_i hupper
      exact Option.some.inj h ▸ hupper
    · exact nomatch h

theorem value_of_findSome? {x : Binary64} {negative : Bool} {units count : Nat} {d : Decimal}
    (h : ((List.range 17).findSome? fun i => onGrid? x negative units (count - (i + 1))) = some d) :
    d.value = x := by
  obtain ⟨_, _, _, _, hgrid, _⟩ := List.findSome?_eq_some_iff.1 h
  exact value_of_onGrid? hgrid

/-- The exact decimal of a magnitude is not cut off as too small. -/
private theorem four_pow_le_expansion {magnitude : Nat} (hpos : magnitude ≠ 0) :
    2 ^ (2 * unitExponent) ≤ expansion magnitude := by
  rw [Nat.pow_mul]
  exact Nat.le_trans (Nat.pow_le_pow_left (by decide) _)
    (Nat.le_mul_of_pos_left _ (Nat.pos_iff_ne_zero.2 hpos))

/-- The exact decimal of a magnitude reads back as it. -/
theorem value_expansion (negative : Bool) {magnitude : Nat} (hpos : magnitude ≠ 0)
    (h : Binary64.Representable magnitude) :
    value ⟨negative, expansion magnitude, -unitExponent⟩ = .finite negative magnitude h := by
  have hlarge := four_pow_le_expansion hpos
  have hne : expansion magnitude ≠ 0 :=
    Nat.pos_iff_ne_zero.1 (Nat.lt_of_lt_of_le (Nat.two_pow_pos _) hlarge)
  have hlog : 2 * unitExponent ≤ (expansion magnitude).log2 := (Nat.le_log2 hne).2 hlarge
  have hnear : ¬(-(unitExponent : Int) + (expansion magnitude).log2 + 1 ≤ -cutoff) := by
    unfold cutoff
    omega
  have hnum : expansion magnitude * Binary64.scale = magnitude * 10 ^ unitExponent := by
    rw [expansion, Binary64.scale, Nat.mul_assoc, ← Nat.mul_pow]
  unfold value
  simp only [hne, hnear, or_self, if_false, hnum, Int.neg_neg, Int.toNat_natCast]
  rw [if_neg (by decide), if_neg (by decide)]
  exact Binary64.ofRatio_mul_right negative (Nat.pow_pos (by decide)) h

/-- The shortest decimal of a finite value reads back as that value: each decimal that is tried is
read back before it is taken, and the exact one behind them is the value. -/
theorem value_shortest (negative : Bool) (magnitude : Nat) (h : Binary64.Representable magnitude) :
    (shortest (.finite negative magnitude h) negative magnitude).value =
      .finite negative magnitude h := by
  unfold shortest
  split
  · rename_i hzero
    subst hzero
    simp [value, Binary64.zero]
  · rename_i hpos
    cases hfound : (List.range 17).findSome? fun i =>
        onGrid? (.finite negative magnitude h) negative (expansion magnitude)
          (digitCount (expansion magnitude) - (i + 1)) with
    | none =>
      simp only [hfound, Option.getD_none]
      exact value_expansion negative hpos h
    | some d =>
      simp only [hfound, Option.getD_some]
      exact value_of_findSome? hfound

end LogicChip.Decimal

import LogicChip.Binary64.Basic

namespace LogicChip.Binary64

/-- The natural number nearest to `num / den`; a tie goes to the even neighbour. -/
def roundDiv (num den : Nat) : Nat :=
  let quotient := num / den
  let twice := 2 * (num % den)
  if twice < den ∨ (twice = den ∧ quotient % 2 = 0) then quotient else quotient + 1

/-- The exponent at which a quotient with this integer part has at most 53 significant bits. -/
def roundingExponent (quotient : Nat) : Nat := quotient.log2 - 52

/-- The magnitude nearest to `num / den` among those with at most 53 significant bits. -/
def nearest (num den : Nat) : Nat :=
  let exponent := roundingExponent (num / den)
  roundDiv num (den * 2 ^ exponent) * 2 ^ exponent

theorem roundDiv_le (num den : Nat) : roundDiv num den ≤ num / den + 1 := by
  simp only [roundDiv]
  split <;> omega

/-- Rounding at the rounding exponent leaves at most 53 bits, or `2 ^ 53` itself. -/
theorem roundDiv_roundingExponent_le (num den : Nat) :
    roundDiv num (den * 2 ^ roundingExponent (num / den)) ≤ 2 ^ 53 := by
  have h := roundDiv_le num (den * 2 ^ roundingExponent (num / den))
  have hlt : num / (den * 2 ^ roundingExponent (num / den)) < 2 ^ 53 := by
    rw [← Nat.div_div_eq_div_mul, Nat.div_lt_iff_lt_mul (Nat.two_pow_pos _), ← Nat.pow_add]
    refine Nat.lt_of_lt_of_le Nat.lt_log2_self (Nat.pow_le_pow_right (by decide) ?_)
    unfold roundingExponent
    omega
  omega

theorem representable_nearest {num den : Nat} (h : nearest num den < bound) :
    Representable (nearest num den) :=
  representable_mul_two_pow (roundDiv_roundingExponent_le num den) h

/-- The value nearest to `num / den` units, with the given sign. All arithmetic on register values
is an exact quotient of natural numbers that is rounded so once. -/
def ofRatio (negative : Bool) (num den : Nat) : Binary64 :=
  if h : nearest num den < bound then .finite negative (nearest num den) (representable_nearest h)
  else .infinity negative

/-- The value nearest to a whole number of units. -/
def ofUnits (negative : Bool) (units : Nat) : Binary64 := ofRatio negative units 1

/-- The value nearest to a natural number with the given sign. -/
def ofMagnitude (negative : Bool) (n : Nat) : Binary64 := ofUnits negative (n * scale)

/-- The value nearest to an integer; zero has the positive sign. -/
def ofInt (n : Int) : Binary64 := ofMagnitude (decide (n < 0)) n.natAbs

instance (n : Nat) : OfNat Binary64 n := ⟨ofMagnitude false n⟩

end LogicChip.Binary64

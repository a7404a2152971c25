-- Powers are those of the core library in every module, whatever else a module imports.
attribute [instance (high), default_instance high + 1] instPowNat

namespace LogicChip

namespace Binary64

/-- One is `2 ^ unitExponent` units. -/
def unitExponent : Nat := 1074

/-- The number of units in `1`. -/
def scale : Nat := 2 ^ unitExponent

/-- Finite values lie below `2 ^ boundExponent` units. -/
def boundExponent : Nat := 2098

/-- The least power of two, in units, that lies beyond every finite value. -/
def bound : Nat := 2 ^ boundExponent

/-- The magnitudes of finite values: below `bound`, with at most 53 significant bits. -/
def Representable (n : Nat) : Prop := n < bound ∧ 2 ^ (n.log2 - 52) ∣ n

instance (n : Nat) : Decidable (Representable n) := inferInstanceAs (Decidable (_ ∧ _))

theorem scale_pos : 0 < scale := Nat.two_pow_pos _

theorem bound_pos : 0 < bound := Nat.two_pow_pos _

theorem two_pow_le_bound {exponent : Nat} (h : exponent ≤ boundExponent) : 2 ^ exponent ≤ bound :=
  Nat.pow_le_pow_right Nat.zero_lt_two h

theorem representable_zero : Representable 0 := ⟨bound_pos, Nat.dvd_zero _⟩

/-- A significand of at most 53 bits, or `2 ^ 53` itself, may stand at any binary exponent. -/
theorem dvd_mul_two_pow {significand : Nat} (h : significand ≤ 2 ^ 53) (exponent : Nat) :
    2 ^ ((significand * 2 ^ exponent).log2 - 52) ∣ significand * 2 ^ exponent := by
  rcases Nat.eq_zero_or_pos significand with rfl | hpos
  · simp
  rcases Nat.lt_or_eq_of_le h with hlt | rfl
  · have hne : significand * 2 ^ exponent ≠ 0 :=
      Nat.mul_ne_zero (by omega) (Nat.pos_iff_ne_zero.1 (Nat.two_pow_pos _))
    have hlog : (significand * 2 ^ exponent).log2 < 53 + exponent := by
      rw [Nat.log2_lt hne, Nat.pow_add]
      exact Nat.mul_lt_mul_of_pos_right hlt (Nat.two_pow_pos _)
    exact Nat.dvd_trans (Nat.pow_dvd_pow 2 (by omega)) (Nat.dvd_mul_left _ _)
  · rw [← Nat.pow_add, Nat.log2_two_pow]
    exact Nat.pow_dvd_pow 2 (by omega)

theorem representable_mul_two_pow {significand exponent : Nat} (h : significand ≤ 2 ^ 53)
    (hbound : significand * 2 ^ exponent < bound) :
    Representable (significand * 2 ^ exponent) :=
  ⟨hbound, dvd_mul_two_pow h exponent⟩

end Binary64

/-- A register value: an IEEE 754 binary64 number with a single NaN. The magnitude of a finite value
is counted in units of the least positive value, `2 ^ (-1074)`. Equality is equality of bit
patterns: the two zeros differ, and NaN equals itself. -/
inductive Binary64 where
  | nan
  | infinity (negative : Bool)
  | finite (negative : Bool) (magnitude : Nat) (representable : Binary64.Representable magnitude)
deriving DecidableEq

namespace Binary64

/-- Zero with the given sign. -/
def zero (negative : Bool) : Binary64 := .finite negative 0 representable_zero

instance : Inhabited Binary64 := ⟨zero false⟩

def isNaN : Binary64 → Bool
  | nan => true
  | _ => false

def isFinite : Binary64 → Bool
  | finite .. => true
  | _ => false

/-- A sign and a magnitude as one integer. -/
def signed (negative : Bool) (magnitude : Nat) : Int := if negative then -magnitude else magnitude

end Binary64

end LogicChip

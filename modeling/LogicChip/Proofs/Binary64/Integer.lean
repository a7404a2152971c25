import LogicChip.Binary64.Arithmetic
import LogicChip.Binary64.Exact
import LogicChip.Binary64.Integral
import LogicChip.Binary64.Order

namespace LogicChip.Binary64

/-- The integer that a register holds; none where it holds no integer. Both zeros hold zero. -/
def integer? : Binary64 → Option Int
  | finite negative magnitude _ =>
    if scale ∣ magnitude then some (signed negative (magnitude / scale)) else none
  | _ => none

theorem representable_mul_scale {n : Nat} (h : n ≤ 2 ^ 53) : Representable (n * scale) := by
  refine representable_mul_two_pow h ?_
  calc n * 2 ^ unitExponent
      ≤ 2 ^ 53 * 2 ^ unitExponent := Nat.mul_le_mul_right _ h
    _ < bound := by
      rw [← Nat.pow_add]
      exact Nat.pow_lt_pow_right (by decide) (by decide)

theorem ofMagnitude_eq_finite (negative : Bool) {n : Nat} (h : n ≤ 2 ^ 53) :
    ofMagnitude negative n = .finite negative (n * scale) (representable_mul_scale h) :=
  ofUnits_of_representable negative _

theorem ofInt_eq_finite {n : Int} (h : n.natAbs ≤ 2 ^ 53) :
    ofInt n = .finite (decide (n < 0)) (n.natAbs * scale) (representable_mul_scale h) :=
  ofMagnitude_eq_finite _ h

theorem signed_natAbs (n : Int) : signed (decide (n < 0)) n.natAbs = n := by
  unfold signed
  split <;> rename_i hsign <;> simp only [decide_eq_true_eq] at hsign <;> omega

theorem integer?_ofInt {n : Int} (h : n.natAbs ≤ 2 ^ 53) : (ofInt n).integer? = some n := by
  rw [ofInt_eq_finite h]
  simp only [integer?, Nat.dvd_mul_left, if_true, Nat.mul_div_cancel _ scale_pos, signed_natAbs]

/-- A register that holds an integer has that integer as its integer part. -/
theorem truncated?_of_integer? {x : Binary64} {n : Int} (h : x.integer? = some n) :
    x.truncated? = some n := by
  cases x with
  | nan => cases h
  | infinity negative => cases h
  | finite negative magnitude hmagnitude =>
    simp only [integer?] at h
    split at h
    · exact h
    · cases h

theorem one_ne_zero : (1 : Binary64) ≠ 0 := by
  have hone : (1 : Binary64) = ofInt 1 := rfl
  have hzero : (0 : Binary64) = ofInt 0 := rfl
  intro heq
  have hinteger := congrArg integer? heq
  rw [hone, hzero, integer?_ofInt (by decide), integer?_ofInt (by decide)] at hinteger
  cases hinteger

theorem truncated?_ofInt {n : Int} (h : n.natAbs ≤ 2 ^ 53) : (ofInt n).truncated? = some n :=
  truncated?_of_integer? (integer?_ofInt h)

theorem natAbs_signed (negative : Bool) (n : Nat) : (signed negative n).natAbs = n := by
  cases negative <;> simp [signed]

/-- A register that holds an integer is a sign and a whole number of ones. -/
theorem eq_finite_of_integer? {x : Binary64} {n : Int} (h : x.integer? = some n) :
    ∃ negative hmagnitude, x = .finite negative (n.natAbs * scale) hmagnitude ∧
      signed negative n.natAbs = n := by
  cases x with
  | nan => cases h
  | infinity negative => cases h
  | finite negative magnitude hmagnitude =>
    simp only [integer?] at h
    split at h
    · rename_i hdvd
      have hvalue : signed negative (magnitude / scale) = n := Option.some.inj h
      have hcount : n.natAbs = magnitude / scale := by rw [← hvalue, natAbs_signed]
      have hwhole : n.natAbs * scale = magnitude := by rw [hcount, Nat.div_mul_cancel hdvd]
      refine ⟨negative, by rw [hwhole]; exact hmagnitude, ?_, by rw [hcount, hvalue]⟩
      simp only [hwhole]
    · cases h

/-- The value made from an integer is not the negative zero. -/
theorem ofInt_ne_negative_zero {n : Int} (h : n.natAbs ≤ 2 ^ 53) : ofInt n ≠ .zero true := by
  rw [ofInt_eq_finite h]
  intro heq
  obtain ⟨hsign, hzero⟩ := Binary64.finite.inj heq
  rcases Nat.mul_eq_zero.1 hzero with hcount | hscale
  · simp only [decide_eq_true_eq] at hsign
    omega
  · exact absurd hscale (Nat.pos_iff_ne_zero.1 scale_pos)

theorem eq_ofInt_of_integer? {x : Binary64} {n : Int} (h : x.integer? = some n) (hne : n ≠ 0)
    (hexact : n.natAbs ≤ 2 ^ 53) : x = ofInt n := by
  obtain ⟨negative, hmagnitude, rfl, hsigned⟩ := eq_finite_of_integer? h
  have hnegative : negative = decide (n < 0) := by
    cases negative with
    | false =>
      have : (n.natAbs : Int) = n := hsigned
      exact (decide_eq_false (by omega)).symm
    | true =>
      have : -(n.natAbs : Int) = n := hsigned
      exact (decide_eq_true (by omega)).symm
  rw [ofInt_eq_finite hexact]
  simp only [hnegative]

theorem signed_mul {negative : Bool} {n : Int} (h : signed negative n.natAbs = n) (k : Nat) :
    signed negative (n.natAbs * k) = n * k := by
  cases negative with
  | false =>
    change ((n.natAbs * k : Nat) : Int) = n * k
    rw [Int.natCast_mul, show (n.natAbs : Int) = n from h]
  | true =>
    change -((n.natAbs * k : Nat) : Int) = n * k
    rw [Int.natCast_mul, ← Int.neg_mul, show -(n.natAbs : Int) = n from h]

theorem position_of_integer? {x : Binary64} {n : Int} (h : x.integer? = some n) :
    x.position = some (n * scale) := by
  obtain ⟨negative, hmagnitude, rfl, hsigned⟩ := eq_finite_of_integer? h
  rw [← signed_mul hsigned]
  rfl

theorem lt_of_position {x y : Binary64} {p q : Int} (hx : x.position = some p)
    (hy : y.position = some q) : lt x y = decide (p < q) := by
  unfold lt compareWith
  rw [hx, hy]

theorem le_of_position {x y : Binary64} {p q : Int} (hx : x.position = some p)
    (hy : y.position = some q) : le x y = decide (p ≤ q) := by
  unfold le compareWith
  rw [hx, hy]

/-- Registers that hold integers compare as the integers do. -/
theorem lt_of_integer? {x y : Binary64} {m n : Int} (hx : x.integer? = some m)
    (hy : y.integer? = some n) : lt x y = decide (m < n) := by
  have hscale : (0 : Int) < scale := Int.natCast_pos.2 scale_pos
  rw [lt_of_position (position_of_integer? hx) (position_of_integer? hy), decide_eq_decide]
  exact Int.mul_lt_mul_right hscale

theorem integer?_abs {x : Binary64} {n : Int} (h : x.integer? = some n) :
    x.abs.integer? = some n.natAbs := by
  obtain ⟨negative, hmagnitude, rfl, _⟩ := eq_finite_of_integer? h
  change (finite false (n.natAbs * scale) hmagnitude).integer? = _
  simp only [integer?, Nat.dvd_mul_left, if_true, Nat.mul_div_cancel _ scale_pos]
  rfl

end LogicChip.Binary64

import LogicChip.Proofs.Binary64.Monotone

namespace LogicChip.Binary64

/-- The place of a value on the line, in units, with NaN at zero. -/
def place (x : Binary64) : Int := x.position.getD 0

@[simp] theorem place_nan : nan.place = 0 := rfl

@[simp] theorem place_infinity (negative : Bool) :
    (infinity negative).place = signed negative bound := rfl

@[simp] theorem place_finite (negative : Bool) (magnitude : Nat) (h : Representable magnitude) :
    (finite negative magnitude h).place = signed negative magnitude := rfl

@[simp] theorem signed_zero (negative : Bool) : signed negative 0 = 0 := by
  cases negative <;> rfl

theorem ofNat_zero_eq : (0 : Binary64) = zero false := by
  have hvalue : (0 : Binary64) = ofInt 0 := rfl
  rw [hvalue, ofInt_eq_finite (Nat.zero_le _)]
  simp [zero]

@[simp] theorem place_zero : (0 : Binary64).place = 0 := by
  rw [ofNat_zero_eq]
  rfl

@[simp] theorem isNaN_zero : (0 : Binary64).isNaN = false := by
  rw [ofNat_zero_eq]
  rfl

theorem position_eq_some_place {x : Binary64} (h : x.isNaN = false) :
    x.position = some x.place := by
  cases x with
  | nan => cases h
  | infinity negative => rfl
  | finite negative magnitude hmagnitude => rfl

theorem eq_nan_of_isNaN {x : Binary64} (h : x.isNaN = true) : x = nan := by
  cases x with
  | nan => rfl
  | infinity negative => cases h
  | finite negative magnitude hmagnitude => cases h

theorem nan_le (x : Binary64) : le nan x = false := rfl

theorem le_nan (x : Binary64) : le x nan = false := by
  cases x <;> rfl

theorem lt_nan (x : Binary64) : lt x nan = false := by
  cases x <;> rfl

/-- Only numbers are in order. -/
theorem isNaN_of_le {x y : Binary64} (h : le x y = true) : x.isNaN = false ∧ y.isNaN = false := by
  constructor
  · cases hx : x.isNaN with
    | false => rfl
    | true =>
      rw [eq_nan_of_isNaN hx, nan_le] at h
      cases h
  · cases hy : y.isNaN with
    | false => rfl
    | true =>
      rw [eq_nan_of_isNaN hy, le_nan] at h
      cases h

theorem lt_eq_decide_place {x y : Binary64} (hx : x.isNaN = false) (hy : y.isNaN = false) :
    lt x y = decide (x.place < y.place) :=
  lt_of_position (position_eq_some_place hx) (position_eq_some_place hy)

theorem le_eq_decide_place {x y : Binary64} (hx : x.isNaN = false) (hy : y.isNaN = false) :
    le x y = decide (x.place ≤ y.place) :=
  le_of_position (position_eq_some_place hx) (position_eq_some_place hy)

theorem place_le_place_of_le {x y : Binary64} (h : le x y = true) : x.place ≤ y.place := by
  obtain ⟨hx, hy⟩ := isNaN_of_le h
  rwa [le_eq_decide_place hx hy, decide_eq_true_eq] at h

theorem place_finite_bounds (negative : Bool) {magnitude : Nat} (h : Representable magnitude) :
    -(bound : Int) < (finite negative magnitude h).place ∧
      (finite negative magnitude h).place < bound := by
  have hlt := h.1
  cases negative with
  | false =>
    change -(bound : Int) < magnitude ∧ (magnitude : Int) < bound
    omega
  | true =>
    change -(bound : Int) < -magnitude ∧ -(magnitude : Int) < bound
    omega

/-- The infinities are the ends of the line. -/
theorem place_bounds (x : Binary64) : -(bound : Int) ≤ x.place ∧ x.place ≤ bound := by
  have hbound : (0 : Int) < bound := Int.natCast_pos.2 bound_pos
  cases x with
  | nan =>
    rw [place_nan]
    omega
  | infinity negative =>
    cases negative with
    | false =>
      rw [place_infinity, signed_false]
      omega
    | true =>
      change -(bound : Int) ≤ -(bound : Int) ∧ -(bound : Int) ≤ bound
      omega
  | finite negative magnitude h =>
    obtain ⟨hlower, hupper⟩ := place_finite_bounds negative h
    exact ⟨Int.le_of_lt hlower, Int.le_of_lt hupper⟩

theorem isNaN_ofRatio (negative : Bool) (num den : Nat) :
    (ofRatio negative num den).isNaN = false := by
  unfold ofRatio
  split <;> rfl

/-- The place of a rounded quotient does not go beyond the ends of the line. -/
theorem place_ofRatio (negative : Bool) (num den : Nat) :
    (ofRatio negative num den).place = signed negative (min (nearest num den) bound) := by
  unfold ofRatio
  split
  · rename_i hbelow
    rw [place_finite, Nat.min_eq_left (Nat.le_of_lt hbelow)]
  · rename_i hbeyond
    rw [place_infinity, Nat.min_eq_right (Nat.le_of_not_lt hbeyond)]

/-- What keeps zero and the order of magnitudes keeps the order of places. -/
theorem signed_le_signed {f : Nat → Nat} (hzero : f 0 = 0) (hmono : ∀ {m n}, m ≤ n → f m ≤ f n)
    {s t : Bool} {m n : Nat} (h : signed s m ≤ signed t n) : signed s (f m) ≤ signed t (f n) := by
  cases s with
  | false =>
    cases t with
    | false =>
      have hle : m ≤ n := Int.ofNat_le.1 h
      exact Int.ofNat_le.2 (hmono hle)
    | true =>
      -- Only zero is below a negative magnitude.
      have hle : (m : Int) ≤ -n := h
      obtain rfl : m = 0 := by omega
      obtain rfl : n = 0 := by omega
      simp [hzero]
  | true =>
    cases t with
    | false =>
      change -(f m : Int) ≤ f n
      omega
    | true =>
      have hle : -(m : Int) ≤ -n := h
      have hback : f n ≤ f m := hmono (by omega)
      change -(f m : Int) ≤ -(f n : Int)
      omega

end LogicChip.Binary64

import LogicChip.Proofs.Binary64.Place

namespace LogicChip.Binary64

@[simp] theorem isNaN_abs (x : Binary64) : x.abs.isNaN = x.isNaN := by
  cases x with
  | nan => rfl
  | infinity negative => rfl
  | finite negative magnitude h => rfl

theorem abs_ofRatio (negative : Bool) (num den : Nat) :
    (ofRatio negative num den).abs = ofRatio false num den := by
  unfold ofRatio
  split <;> rfl

theorem abs_ofSum (zeroNegative : Bool) (units : Int) :
    (ofSum zeroNegative units).abs = ofUnits false units.natAbs := by
  unfold ofSum
  split
  · rename_i hzero
    rw [hzero, Int.natAbs_zero, ofUnits_of_representable false representable_zero]
    rfl
  · exact abs_ofRatio _ _ _

theorem abs_finite_sub_finite {s t : Bool} {m n : Nat} (hm : Representable m)
    (hn : Representable n) : (finite s m hm - finite t n hn).abs =
      ofUnits false (signed s m - signed t n).natAbs := by
  have hneg : signed (!t) n = -signed t n := by cases t <;> simp [signed]
  change (ofSum _ (signed s m + signed (!t) n)).abs = _
  rw [abs_ofSum, hneg, ← Int.sub_eq_add_neg]

/-- The magnitude of a difference does not depend on its direction. -/
theorem abs_sub_comm (a b : Binary64) : (a - b).abs = (b - a).abs := by
  cases a with
  | nan => cases b <;> rfl
  | infinity s =>
    cases b with
    | nan => rfl
    | infinity t => cases s <;> cases t <;> rfl
    | finite t n hn => rfl
  | finite s m hm =>
    cases b with
    | nan => rfl
    | infinity t => rfl
    | finite t n hn =>
      rw [abs_finite_sub_finite, abs_finite_sub_finite, ← Int.natAbs_neg, Int.neg_sub]

/-- Two values have no difference: one of them is not a number, or they are the same infinity. -/
def Incomparable (a b : Binary64) : Prop :=
  a = nan ∨ b = nan ∨ ∃ negative, a = infinity negative ∧ b = infinity negative

theorem isNaN_sub_iff (a b : Binary64) : (a - b).isNaN = true ↔ Incomparable a b := by
  constructor
  · intro h
    cases a with
    | nan => exact .inl rfl
    | infinity s =>
      cases b with
      | nan => exact .inr (.inl rfl)
      | infinity t =>
        -- Infinities of two signs differ by an infinity.
        obtain rfl : s = t := by
          revert h
          cases s <;> cases t <;> decide
        exact .inr (.inr ⟨s, rfl, rfl⟩)
      | finite t n hn => cases h
    | finite s m hm =>
      cases b with
      | nan => exact .inr (.inl rfl)
      | infinity t => cases h
      | finite t n hn =>
        rw [← isNaN_abs, abs_finite_sub_finite, ofUnits, isNaN_ofRatio] at h
        cases h
  · rintro (rfl | rfl | ⟨negative, rfl, rfl⟩)
    · cases b <;> rfl
    · cases a <;> rfl
    · cases negative <;> rfl

/-- Finite values at one place, such as the two zeros, differ by zero. -/
theorem place_abs_sub_of_place_eq {x y : Binary64} (hx : x.isFinite = true)
    (hy : y.isFinite = true) (h : x.place = y.place) : (x - y).abs.place = 0 := by
  cases x with
  | nan => cases hx
  | infinity s => cases hx
  | finite s m hm =>
    cases y with
    | nan => cases hy
    | infinity t => cases hy
    | finite t n hn =>
      rw [place_finite, place_finite] at h
      rw [abs_finite_sub_finite, h, Int.sub_self, Int.natAbs_zero,
        ofUnits_of_representable false representable_zero, place_finite, signed_zero]

/-- Magnitudes at one place are the same. -/
theorem abs_eq_abs_of_place {a b : Binary64} (ha : a.isNaN = false) (hb : b.isNaN = false)
    (h : a.abs.place = b.abs.place) : a.abs = b.abs := by
  cases a with
  | nan => cases ha
  | infinity s =>
    cases b with
    | nan => cases hb
    | infinity t => rfl
    | finite t n hn =>
      have hlt := hn.1
      have hplaces : (bound : Int) = n := h
      omega
  | finite s m hm =>
    have hlt := hm.1
    cases b with
    | nan => cases hb
    | infinity t =>
      have hplaces : (m : Int) = bound := h
      omega
    | finite t n hn =>
      have hplaces : (m : Int) = n := h
      obtain rfl : m = n := Int.ofNat_inj.1 hplaces
      rfl

theorem maxNumber_of_isNaN_left {x : Binary64} (h : x.isNaN = true) (y : Binary64) :
    maxNumber x y = y := if_pos h

theorem maxNumber_of_isNaN_right {x y : Binary64} (hx : x.isNaN = false) (hy : y.isNaN = true) :
    maxNumber x y = x := by
  simp [maxNumber, hx, hy]

theorem maxNumber_of_numbers {x y : Binary64} (hx : x.isNaN = false) (hy : y.isNaN = false) :
    maxNumber x y = if x.place < y.place then y else x := by
  simp [maxNumber, hx, hy, lt_eq_decide_place]

/-- The greater of two magnitudes does not depend on their order. -/
theorem maxNumber_abs_comm (a b : Binary64) :
    maxNumber a.abs b.abs = maxNumber b.abs a.abs := by
  cases ha : a.isNaN with
  | true =>
    cases hb : b.isNaN with
    | true =>
      rw [eq_nan_of_isNaN ha, eq_nan_of_isNaN hb]
    | false =>
      rw [maxNumber_of_isNaN_left (by simp [ha]),
        maxNumber_of_isNaN_right (by simp [hb]) (by simp [ha])]
  | false =>
    cases hb : b.isNaN with
    | true =>
      rw [maxNumber_of_isNaN_left (x := b.abs) (by simp [hb]),
        maxNumber_of_isNaN_right (by simp [ha]) (by simp [hb])]
    | false =>
      rw [maxNumber_of_numbers (by simp [ha]) (by simp [hb]),
        maxNumber_of_numbers (by simp [hb]) (by simp [ha])]
      rcases Int.lt_trichotomy a.abs.place b.abs.place with hlt | heq | hgt
      · rw [if_pos hlt, if_neg (by omega)]
      · rw [if_neg (by omega), if_neg (by omega), abs_eq_abs_of_place ha hb heq]
      · rw [if_neg (by omega), if_pos hgt]

theorem exists_maxNumber_abs (a b : Binary64) : ∃ x : Binary64, maxNumber a.abs b.abs = x.abs := by
  unfold maxNumber
  split
  · exact ⟨b, rfl⟩
  · split
    · exact ⟨a, rfl⟩
    · split
      · exact ⟨b, rfl⟩
      · exact ⟨a, rfl⟩

/-- The greater of a value, if it is a number, and one that is not below zero. -/
theorem place_maxNumber (x : Binary64) {y : Binary64} (hy : y.isNaN = false) (h : 0 ≤ y.place) :
    (maxNumber x y).isNaN = false ∧ (maxNumber x y).place = max x.place y.place := by
  cases hx : x.isNaN with
  | true =>
    rw [maxNumber_of_isNaN_left hx, eq_nan_of_isNaN hx, place_nan, Int.max_eq_right h]
    exact ⟨hy, rfl⟩
  | false =>
    rw [maxNumber_of_numbers hx hy]
    split
    · rename_i hlt
      exact ⟨hy, (Int.max_eq_right (Int.le_of_lt hlt)).symm⟩
    · rename_i hge
      exact ⟨hx, (Int.max_eq_left (Int.not_lt.1 hge)).symm⟩

section Product

variable {m n : Nat} (hm : Representable m) (hn : Representable n)

theorem mul_nan (x : Binary64) : x * nan = nan := by
  cases x <;> rfl

theorem infinity_mul_infinity (s t : Bool) : infinity s * infinity t = infinity (s ^^ t) := rfl

theorem infinity_mul_finite (s t : Bool) :
    infinity s * finite t n hn = if n = 0 then nan else infinity (s ^^ t) := rfl

theorem finite_mul_infinity (s t : Bool) :
    finite s m hm * infinity t = if m = 0 then nan else infinity (s ^^ t) := rfl

theorem finite_mul_finite (s t : Bool) :
    finite s m hm * finite t n hn = ofRatio (s ^^ t) (m * n) scale := by
  change mul _ _ = _
  rw [mul]

theorem place_finite_mul (s : Bool) : (finite s m hm * finite false n hn).place =
    signed s (min (nearest (m * n) scale) bound) := by
  rw [finite_mul_finite, place_ofRatio, Bool.xor_false]

theorem place_infinity_mul (s : Bool) :
    (infinity s * finite false n hn).place = if n = 0 then 0 else signed s bound := by
  rw [infinity_mul_finite, Bool.xor_false]
  split <;> rfl

/-- What is multiplied by zero is zero or not a number. -/
theorem place_mul_zero (c : Binary64) : (c * finite false 0 representable_zero).place = 0 := by
  cases c with
  | nan => rfl
  | infinity s => rw [place_infinity_mul, if_pos rfl]
  | finite s m hm => rw [place_finite_mul, Nat.mul_zero, nearest_zero scale_pos, Nat.zero_min,
      signed_zero]

end Product

/-- A product with infinity is at the end of the line on the side of the other factor. -/
theorem place_mul_infinity (c : Binary64) : (c * infinity false).place =
    if c.place < 0 then -(bound : Int) else if c.place = 0 then 0 else bound := by
  have hbound : (0 : Int) < bound := Int.natCast_pos.2 bound_pos
  cases c with
  | nan => rfl
  | infinity s =>
    rw [infinity_mul_infinity, Bool.xor_false, place_infinity]
    cases s with
    | false => rw [signed_false, if_neg (by omega), if_neg (by omega)]
    | true => exact (if_pos (Int.neg_neg_of_pos hbound)).symm
  | finite s m hm =>
    rw [finite_mul_infinity, Bool.xor_false, place_finite]
    by_cases hzero : m = 0
    · simp [hzero]
    · rw [if_neg hzero, place_infinity]
      cases s with
      | false => rw [signed_false, signed_false, if_neg (by omega), if_neg (by omega)]
      | true => exact (if_pos (show -(m : Int) < 0 by omega)).symm

theorem place_mul_finite_le {c d : Binary64} {n : Nat} (hn : Representable n)
    (hc : c.isFinite = true) (hd : d.isFinite = true) (h : c.place ≤ d.place) :
    (c * finite false n hn).place ≤ (d * finite false n hn).place := by
  cases c with
  | nan => cases hc
  | infinity s => cases hc
  | finite s m hm =>
    cases d with
    | nan => cases hd
    | infinity t => cases hd
    | finite t k hk =>
      rw [place_finite_mul, place_finite_mul]
      refine signed_le_signed (f := fun m => min (nearest (m * n) scale) bound) ?_ ?_ h
      · rw [Nat.zero_mul, nearest_zero scale_pos, Nat.zero_min]
      · intro m k hmk
        have hrounded := nearest_mono scale_pos (Nat.mul_le_mul_right n hmk)
        omega

/-- Of two values in order, the lesser is the lower end of the line, or the greater is the upper
end, or neither is an end. -/
theorem ends_or_finite_of_le {c d : Binary64} (h : le c d = true) :
    c = infinity true ∨ d = infinity false ∨ c.isFinite = true ∧ d.isFinite = true := by
  have hle := place_le_place_of_le h
  obtain ⟨hc, hd⟩ := isNaN_of_le h
  have hbound : (0 : Int) < bound := Int.natCast_pos.2 bound_pos
  cases c with
  | nan => cases hc
  | infinity s =>
    cases s with
    | true => exact .inl rfl
    | false =>
      have hend : (bound : Int) ≤ d.place := hle
      cases d with
      | nan => cases hd
      | infinity t =>
        cases t with
        | false => exact .inr (.inl rfl)
        | true =>
          have hnegative : (bound : Int) ≤ -bound := hend
          omega
      | finite t n hn => exact absurd hend (Int.not_le.2 (place_finite_bounds t hn).2)
  | finite s m hm =>
    cases d with
    | nan => cases hd
    | infinity t =>
      cases t with
      | false => exact .inr (.inl rfl)
      | true => exact absurd hle (Int.not_le.2 (place_finite_bounds s hm).1)
    | finite t n hn => exact .inr (.inr ⟨rfl, rfl⟩)

/-- A product with a magnitude keeps the order of the other factors, if a product that is not a
number counts as zero. -/
theorem place_mul_abs_le {c d : Binary64} (h : le c d = true) (x : Binary64) :
    (c * x.abs).place ≤ (d * x.abs).place := by
  have hle := place_le_place_of_le h
  obtain ⟨hc, hd⟩ := isNaN_of_le h
  cases x with
  | nan =>
    exact Int.le_of_eq (congrArg place ((mul_nan c).trans (mul_nan d).symm))
  | infinity s =>
    change (c * infinity false).place ≤ (d * infinity false).place
    rw [place_mul_infinity, place_mul_infinity]
    omega
  | finite s n hn =>
    change (c * finite false n hn).place ≤ (d * finite false n hn).place
    rcases Nat.eq_zero_or_pos n with rfl | hpos
    · exact Int.le_of_eq ((place_mul_zero c).trans (place_mul_zero d).symm)
    · rcases ends_or_finite_of_le h with rfl | rfl | ⟨hc, hd⟩
      · rw [place_infinity_mul, if_neg (Nat.ne_of_gt hpos)]
        exact (place_bounds _).1
      · rw [place_infinity_mul hn false, if_neg (Nat.ne_of_gt hpos)]
        exact (place_bounds _).2
      · exact place_mul_finite_le hn hc hd hle

end LogicChip.Binary64

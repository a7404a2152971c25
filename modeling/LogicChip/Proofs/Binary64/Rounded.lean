import LogicChip.Proofs.Binary64.Place

namespace LogicChip.Binary64

/-- How far the place of a value is from a quotient of units, times the denominator. -/
def offset (x : Binary64) (num : Int) (den : Nat) : Nat := (x.place * den - num).natAbs

/-- A value than which none is nearer to a quotient of units; if another is as near, its significand
is even. The infinities take part with the least magnitudes that are too large for finite values. -/
structure IsRounded (x : Binary64) (num : Int) (den : Nat) : Prop where
  number : x.isNaN = false
  nearest : ∀ y : Binary64, y.isNaN = false → x.offset num den ≤ y.offset num den
  even : ∀ y : Binary64, y.isNaN = false → y.offset num den = x.offset num den →
    y.place = x.place ∨ significand x.place.natAbs % 2 = 0

theorem two_pow_dvd_bound : 2 ^ (bound.log2 - 52) ∣ bound := by
  rw [bound, Nat.log2_two_pow]
  exact Nat.pow_dvd_pow 2 (Nat.sub_le _ _)

/-- Places are magnitudes of at most 53 significant bits, up to the ends of the line. -/
theorem exists_place_eq_signed {x : Binary64} (h : x.isNaN = false) :
    ∃ negative magnitude, x.place = signed negative magnitude ∧ magnitude ≤ bound ∧
      2 ^ (magnitude.log2 - 52) ∣ magnitude := by
  cases x with
  | nan => cases h
  | infinity negative => exact ⟨negative, bound, rfl, Nat.le_refl _, two_pow_dvd_bound⟩
  | finite negative magnitude hmagnitude =>
    exact ⟨negative, magnitude, rfl, Nat.le_of_lt hmagnitude.1, hmagnitude.2⟩

section Offsets

variable {x : Binary64} {magnitude : Nat}

theorem offset_of_same_sign {negative : Bool} (h : x.place = signed negative magnitude)
    (num den : Nat) : x.offset (signed negative num) den = gap (magnitude * den) num := by
  unfold offset gap
  rw [h, Int.natCast_mul]
  cases negative with
  | false => rfl
  | true =>
    change (-(magnitude : Int) * den - -(num : Int)).natAbs = _
    rw [Int.neg_mul]
    omega

theorem offset_of_other_sign {negative : Bool} (h : x.place = signed (!negative) magnitude)
    (num den : Nat) : x.offset (signed negative num) den = magnitude * den + num := by
  unfold offset
  rw [h]
  cases negative with
  | false =>
    change (-(magnitude : Int) * den - (num : Int)).natAbs = _
    rw [Int.neg_mul, ← Int.natCast_mul]
    omega
  | true =>
    change ((magnitude : Int) * den - -(num : Int)).natAbs = _
    rw [← Int.natCast_mul]
    omega

end Offsets

/-- Of the magnitudes up to the end of the line, the nearest to a quotient is its rounded one, cut
at the end. -/
theorem min_nearest_spec (num : Nat) {den magnitude : Nat} (hden : 0 < den)
    (hbound : magnitude ≤ bound) (hmagnitude : 2 ^ (magnitude.log2 - 52) ∣ magnitude) :
    gap (min (nearest num den) bound * den) num ≤ gap (magnitude * den) num ∧
      (gap (magnitude * den) num = gap (min (nearest num den) bound * den) num →
        magnitude = min (nearest num den) bound ∨
          significand (min (nearest num den) bound) % 2 = 0) := by
  rcases Nat.le_total (nearest num den) bound with hbelow | hbeyond
  · rw [Nat.min_eq_left hbelow]
    exact nearest_spec num hden hmagnitude
  · rcases Nat.lt_or_ge (bound * den) num with hfar | hnear
    · -- The quotient itself is beyond the end.
      rw [Nat.min_eq_right hbeyond]
      have hle : magnitude * den ≤ bound * den := Nat.mul_le_mul_right den hbound
      unfold gap
      refine ⟨by omega, fun htie => .inl ?_⟩
      exact Nat.eq_of_mul_eq_mul_right hden (by omega)
    · have hsame : nearest num den = bound :=
        Nat.le_antisymm (nearest_le_of_le_mul hden two_pow_dvd_bound hnear) hbeyond
      rw [Nat.min_eq_right hbeyond, ← hsame]
      exact nearest_spec num hden hmagnitude

/-- No place is nearer to a quotient than that of its rounded value. -/
theorem offset_ofRatio_spec (negative : Bool) (num : Nat) {den : Nat} (hden : 0 < den)
    {y : Binary64} (hy : y.isNaN = false) :
    (ofRatio negative num den).offset (signed negative num) den ≤
        y.offset (signed negative num) den ∧
      (y.offset (signed negative num) den =
          (ofRatio negative num den).offset (signed negative num) den →
        y.place = (ofRatio negative num den).place ∨
          significand (min (nearest num den) bound) % 2 = 0) := by
  have hplace := place_ofRatio negative num den
  obtain ⟨sign, magnitude, hplaceY, hbound, hmagnitude⟩ := exists_place_eq_signed hy
  rw [offset_of_same_sign hplace num den]
  by_cases hsign : sign = negative
  · obtain ⟨hle, htie⟩ := min_nearest_spec num hden hbound hmagnitude
    rw [hsign] at hplaceY
    rw [offset_of_same_sign hplaceY, hplaceY, hplace]
    exact ⟨hle, fun heq => (htie heq).imp_left (congrArg (signed negative))⟩
  · -- A value of the other sign is not nearer than zero.
    obtain ⟨hle, htie⟩ := min_nearest_spec num hden (Nat.zero_le _) (Nat.dvd_zero _)
    have hzero : gap (0 * den) num = num := by
      unfold gap
      omega
    rw [hzero] at hle htie
    rw [Bool.eq_not.2 hsign] at hplaceY
    rw [offset_of_other_sign hplaceY]
    refine ⟨by omega, fun heq => ?_⟩
    have hproduct : magnitude * den = 0 := by omega
    obtain rfl : magnitude = 0 := (Nat.mul_eq_zero.1 hproduct).resolve_right (Nat.ne_of_gt hden)
    refine (htie (by omega)).imp_left fun hmin => ?_
    rw [hplaceY, hplace, ← hmin, signed_zero, signed_zero]

/-- A quotient is rounded to the value nearest to it. -/
theorem isRounded_ofRatio (negative : Bool) (num : Nat) {den : Nat} (hden : 0 < den) :
    (ofRatio negative num den).IsRounded (signed negative num) den := by
  refine ⟨isNaN_ofRatio negative num den,
    fun y hy => (offset_ofRatio_spec negative num hden hy).1, fun y hy heq => ?_⟩
  have htie := (offset_ofRatio_spec negative num hden hy).2 heq
  rwa [place_ofRatio negative num den, natAbs_signed, ← place_ofRatio negative num den]

/-- A quotient that is rounded to a zero keeps its sign. -/
theorem ofRatio_eq_zero_of_place {negative : Bool} {num den : Nat}
    (h : (ofRatio negative num den).place = 0) : ofRatio negative num den = zero negative := by
  rw [place_ofRatio] at h
  have hnearest : nearest num den = 0 := by
    have hbound := bound_pos
    have hmin := congrArg Int.natAbs h
    rw [natAbs_signed, Int.natAbs_zero] at hmin
    omega
  unfold ofRatio zero
  simp only [hnearest, dif_pos bound_pos]

/-- A quotient of less than half a unit is rounded to zero. -/
theorem ofRatio_eq_zero (negative : Bool) {num den : Nat} (h : 2 * num < den) :
    ofRatio negative num den = zero negative := by
  have hquotient : num / den = 0 := Nat.div_eq_of_lt (by omega)
  have hnearest : nearest num den = 0 := by
    rw [nearest, hquotient, roundingExponent, Nat.log2_zero, Nat.zero_sub, Nat.pow_zero,
      Nat.mul_one, Nat.mul_one, roundDiv, hquotient, Nat.mod_eq_of_lt (by omega), if_pos (.inl h)]
  apply ofRatio_eq_zero_of_place
  rw [place_ofRatio, hnearest, Nat.zero_min, signed_zero]

/-- A quotient beyond the finite values is rounded to infinity. -/
theorem ofRatio_eq_infinity (negative : Bool) {num den : Nat} (hden : 0 < den)
    (h : bound * den ≤ num) : ofRatio negative num den = infinity negative := by
  have hquotient : bound ≤ num / den := (Nat.le_div_iff_mul_le hden).2 h
  have hne : num / den ≠ 0 := Nat.ne_of_gt (Nat.lt_of_lt_of_le bound_pos hquotient)
  have hnearest : bound ≤ nearest num den :=
    calc bound ≤ 2 ^ (num / den).log2 :=
          Nat.pow_le_pow_right Nat.zero_lt_two ((Nat.le_log2 hne).2 hquotient)
      _ ≤ nearest num den :=
          le_nearest_of_dvd (Nat.pow_dvd_pow 2 (Nat.sub_le _ _)) (Nat.log2_self_le hne)
  exact dif_neg (Nat.not_lt.2 hnearest)

/-- The distance between a value and an integer, in units. -/
def distance (x : Binary64) (n : Int) : Nat := (x.position.getD 0 - n * scale).natAbs

/-- The last bit of a finite value's significand is clear. -/
def HasEvenSignificand : Binary64 → Prop
  | finite _ magnitude _ => significand magnitude % 2 = 0
  | _ => False

/-- A finite value than which no finite value is nearer to an integer. If another is as near, its
significand is even. -/
structure IsNearest (x : Binary64) (n : Int) : Prop where
  finite : x.isFinite = true
  nearest : ∀ y : Binary64, y.isFinite = true → x.distance n ≤ y.distance n
  even : ∀ y : Binary64, y.isFinite = true → y.distance n = x.distance n →
    y = x ∨ x.HasEvenSignificand

theorem hasEvenSignificand_iff {x : Binary64} (h : x.isFinite = true) :
    x.HasEvenSignificand ↔ significand x.place.natAbs % 2 = 0 := by
  cases x with
  | nan => cases h
  | infinity negative => cases h
  | finite negative magnitude hmagnitude =>
    rw [place_finite, natAbs_signed]
    rfl

theorem isNaN_of_isFinite {x : Binary64} (h : x.isFinite = true) : x.isNaN = false := by
  cases x with
  | finite negative magnitude hmagnitude => rfl
  | _ => cases h

/-- Only zeros share a place. -/
theorem eq_of_place_eq {x y : Binary64} (hx : x.isFinite = true) (hy : y.isFinite = true)
    (h : x.place = y.place) (hne : y.place ≠ 0) : x = y := by
  cases x with
  | nan => cases hx
  | infinity negative => cases hx
  | finite s m hm =>
    cases y with
    | nan => cases hy
    | infinity negative => cases hy
    | finite t n hn =>
      rw [place_finite, place_finite] at h
      rw [place_finite] at hne
      have hmagnitude := congrArg Int.natAbs h
      rw [natAbs_signed, natAbs_signed] at hmagnitude
      subst hmagnitude
      have hpos : m ≠ 0 := by
        rintro rfl
        exact hne (signed_zero t)
      have hsign : s = t := by
        cases s with
        | false =>
          cases t with
          | false => rfl
          | true =>
            have hopposite : (m : Int) = -m := h
            omega
        | true =>
          cases t with
          | false =>
            have hopposite : -(m : Int) = m := h
            omega
          | true => rfl
      rw [hsign]

theorem offset_one (x : Binary64) (n : Int) : x.offset (n * scale) 1 = x.distance n := by
  unfold offset
  rw [Int.natCast_one, Int.mul_one]
  rfl

theorem nearest_lt_bound {n : Nat} (h : n ≤ 2 ^ 64) : nearest (n * scale) 1 < bound := by
  have hlimit : (2 : Nat) ^ 64 * scale = 1 * 2 ^ (64 + unitExponent) := by
    rw [Nat.one_mul, Nat.pow_add, scale]
  calc nearest (n * scale) 1
      ≤ 1 * 2 ^ (64 + unitExponent) := by
        refine nearest_le_of_le_mul Nat.one_pos (dvd_mul_two_pow (by decide) _) ?_
        rw [Nat.mul_one, ← hlimit]
        exact Nat.mul_le_mul_right _ h
    _ < bound := by
        rw [Nat.one_mul]
        exact Nat.pow_lt_pow_right (by decide) (by decide)

theorem ofInt_natCast {n : Nat} (h : n ≤ 2 ^ 64) : ofInt n =
    .finite false (nearest (n * scale) 1) (representable_nearest (nearest_lt_bound h)) := by
  have hsign : decide ((n : Int) < 0) = false := decide_eq_false (by omega)
  unfold ofInt ofMagnitude ofUnits ofRatio
  rw [hsign, Int.natAbs_natCast, dif_pos (nearest_lt_bound h)]

/-- Natural numbers of at most 64 bits are rounded to the nearest value. -/
theorem isNearest_ofInt {n : Nat} (h : n ≤ 2 ^ 64) : IsNearest (.ofInt n) n := by
  have hrounded := isRounded_ofRatio false (n * scale) Nat.one_pos
  have hfinite : (ofInt n).isFinite = true := by
    rw [ofInt_natCast h]
    rfl
  have hratio : ofRatio false (n * scale) 1 = ofInt n := by
    rw [ofInt_natCast h]
    exact dif_pos (nearest_lt_bound h)
  have hunits : signed false (n * scale) = (n : Int) * scale := Int.natCast_mul n scale
  rw [hratio, hunits] at hrounded
  refine ⟨hfinite, fun y hy => ?_, fun y hy htie => ?_⟩
  · rw [← offset_one, ← offset_one]
    exact hrounded.nearest y (isNaN_of_isFinite hy)
  · rw [← offset_one, ← offset_one] at htie
    rw [hasEvenSignificand_iff hfinite]
    rcases hrounded.even y (isNaN_of_isFinite hy) htie with hsame | heven
    · by_cases hzero : (ofInt n).place = 0
      · exact .inr (by rw [hzero]; rfl)
      · exact .inl (eq_of_place_eq hy hfinite hsame hzero)
    · exact .inr heven

end LogicChip.Binary64

import LogicChip.Proofs.Binary64.Integer
import LogicChip.Proofs.Binary64.Pattern

namespace LogicChip.Binary64

/-- The integer part of a register value. NaN and the infinities have none and count as zero. -/
def whole (x : Binary64) : Int := x.truncated?.getD 0

theorem whole_finite (negative : Bool) (magnitude : Nat) (h : Representable magnitude) :
    (finite negative magnitude h).whole = signed negative (magnitude / scale) := rfl

theorem whole_of_truncated? {x : Binary64} {n : Int} (h : x.truncated? = some n) :
    x.whole = n := by
  unfold whole
  rw [h]
  rfl

theorem whole_of_integer? {x : Binary64} {n : Int} (h : x.integer? = some n) : x.whole = n :=
  whole_of_truncated? (truncated?_of_integer? h)

theorem whole_ofInt {n : Int} (h : n.natAbs ≤ 2 ^ 53) : (ofInt n).whole = n :=
  whole_of_truncated? (truncated?_ofInt h)

theorem truncated?_of_isFinite {x : Binary64} (h : x.isFinite = true) :
    x.truncated? = some x.whole := by
  cases x with
  | nan => cases h
  | infinity negative => cases h
  | finite negative magnitude hmagnitude => rfl

theorem whole_neg (x : Binary64) : x.neg.whole = -x.whole := by
  cases x with
  | nan => rfl
  | infinity negative => rfl
  | finite negative magnitude h =>
    change signed (!negative) (magnitude / scale) = -signed negative (magnitude / scale)
    generalize magnitude / scale = n
    cases negative with
    | false => rfl
    | true => exact (Int.neg_neg (n : Int)).symm

/-- The values from `2 ^ 53` on are whole numbers. -/
theorem scale_dvd_of_le {magnitude : Nat} (h : Representable magnitude)
    (hlarge : 2 ^ 53 * scale ≤ magnitude) : scale ∣ magnitude := by
  have hlog : 53 + unitExponent ≤ magnitude.log2 := by
    have hpow : 2 ^ (53 + unitExponent) ≤ magnitude := by
      calc 2 ^ (53 + unitExponent) = 2 ^ 53 * scale := by rw [scale, Nat.pow_add]
        _ ≤ magnitude := hlarge
    have hne : magnitude ≠ 0 := Nat.pos_iff_ne_zero.1 (Nat.lt_of_lt_of_le (Nat.two_pow_pos _) hpow)
    exact (Nat.le_log2 hne).2 hpow
  exact Nat.dvd_trans (Nat.pow_dvd_pow 2 (by omega)) h.2

theorem representable_whole {magnitude : Nat} (h : Representable magnitude) :
    Representable (magnitude / scale * scale) := by
  by_cases hlarge : 2 ^ 53 * scale ≤ magnitude
  · rwa [Nat.div_mul_cancel (scale_dvd_of_le h hlarge)]
  · have hsmall : magnitude / scale < 2 ^ 53 :=
      (Nat.div_lt_iff_lt_mul scale_pos).2 (Nat.lt_of_not_le hlarge)
    exact representable_mul_scale (Nat.le_of_lt hsmall)

/-- Cutting to the integer part needs no rounding. -/
theorem trunc_finite (negative : Bool) {magnitude : Nat} (h : Representable magnitude) :
    (finite negative magnitude h).trunc =
      finite negative (magnitude / scale * scale) (representable_whole h) := by
  change ofUnits negative (magnitude / scale * scale) = _
  exact ofUnits_of_representable negative (representable_whole h)

theorem integer?_trunc {x : Binary64} (h : x.isFinite = true) :
    x.trunc.integer? = some x.whole := by
  cases x with
  | nan => cases h
  | infinity negative => cases h
  | finite negative magnitude hmagnitude =>
    rw [trunc_finite, whole_finite]
    simp only [integer?, Nat.dvd_mul_left, if_true, Nat.mul_div_cancel _ scale_pos]

section Fields

variable {negative : Bool} {magnitude shift significand : Nat} (h : Representable magnitude)

/-- The exponent field counts from one, as field 0 is that of the subnormal values. -/
theorem toNat_exponentField (hlower : 2 ^ 52 ≤ significand) (hupper : significand < 2 ^ 53)
    (hshift : shift < 2046)
    (hfields : fieldsOfMagnitude magnitude = shift * 2 ^ 52 + significand) :
    (exponentField (finite negative magnitude h).toBits).toNat = shift + 1 := by
  have hbits := toNat_toBits_finite negative h
  have hplaces : (52 : UInt64).toNat % 64 = 52 := by decide
  have hmask : (0x7ff : UInt64).toNat = 2 ^ 11 - 1 := by decide
  unfold exponentField
  rw [UInt64.toNat_and, UInt64.toNat_shiftRight, hplaces, hmask, Nat.and_two_pow_sub_one_eq_mod,
    Nat.shiftRight_eq_div_pow, hbits, hfields]
  split <;> omega

theorem toNat_significandField (hlower : 2 ^ 52 ≤ significand) (hupper : significand < 2 ^ 53)
    (hfields : fieldsOfMagnitude magnitude = shift * 2 ^ 52 + significand) :
    (significandField (finite negative magnitude h).toBits).toNat = significand := by
  have hbits := toNat_toBits_finite negative h
  have hmask : (0xfffffffffffff : UInt64).toNat = 2 ^ 52 - 1 := by decide
  have hleading : (0x10000000000000 : UInt64).toNat = 2 ^ 52 * 1 := by decide
  have hfraction :
      (finite negative magnitude h).toBits.toNat % 2 ^ 52 = significand - 2 ^ 52 := by
    rw [hbits, hfields]
    split <;> omega
  unfold significandField
  rw [UInt64.toNat_or, UInt64.toNat_and, hmask, hleading, Nat.and_two_pow_sub_one_eq_mod,
    hfraction, Nat.or_comm, ← Nat.two_pow_add_eq_or_of_lt (by omega)]
  omega

/-- A value with more than 52 bits is the significand of its pattern, shifted to the left by one
less than the exponent field. -/
theorem exists_fields (negative : Bool) (hlarge : 2 ^ 52 ≤ magnitude) :
    ∃ shift significand, magnitude = significand * 2 ^ shift ∧ significand < 2 ^ 53 ∧
      shift < 2046 ∧
      (exponentField (finite negative magnitude h).toBits).toNat = shift + 1 ∧
      (significandField (finite negative magnitude h).toBits).toNat = significand := by
  obtain ⟨hlower, hupper⟩ := two_pow_le_shiftRight hlarge
  have hlog : magnitude.log2 < boundExponent := (Nat.log2_lt (by omega)).2 h.1
  have hshift : magnitude.log2 - 52 < 2046 := by
    unfold boundExponent at hlog
    omega
  have hfields : fieldsOfMagnitude magnitude =
      (magnitude.log2 - 52) * 2 ^ 52 + magnitude / 2 ^ (magnitude.log2 - 52) := by
    simp only [fieldsOfMagnitude, Nat.shiftRight_eq_div_pow]
  exact ⟨magnitude.log2 - 52, magnitude / 2 ^ (magnitude.log2 - 52),
    (Nat.div_mul_cancel h.2).symm, hupper, hshift,
    toNat_exponentField h hlower hupper hshift hfields,
    toNat_significandField h hlower hupper hfields⟩

/-- From `2 ^ 53` on a value is an integer with its significand shifted to the left. -/
theorem exists_fields_of_le (negative : Bool) {k : Nat} (hwhole : magnitude = k * scale)
    (hlarge : 2 ^ 53 ≤ k) :
    ∃ places significand, k = significand * 2 ^ places ∧ places < 972 ∧
      (exponentField (finite negative magnitude h).toBits).toNat = places + 1075 ∧
      (significandField (finite negative magnitude h).toBits).toNat = significand := by
  have hbits : 2 ^ 53 * 2 ^ unitExponent ≤ magnitude := by
    calc 2 ^ 53 * 2 ^ unitExponent ≤ k * 2 ^ unitExponent := Nat.mul_le_mul_right _ hlarge
      _ = magnitude := hwhole.symm
  have hmany : 2 ^ 52 ≤ magnitude := by
    have hunit : 0 < 2 ^ unitExponent := Nat.two_pow_pos _
    calc 2 ^ 52 ≤ 2 ^ 53 * 1 := by decide
      _ ≤ 2 ^ 53 * 2 ^ unitExponent := Nat.mul_le_mul_left _ hunit
      _ ≤ magnitude := hbits
  obtain ⟨shift, significand, hmagnitude, hupper, hshift, hexponent, hsignificand⟩ :=
    exists_fields h negative hmany
  -- A smaller shift of a significand below `2 ^ 53` stays below `2 ^ 53` ones.
  have hplaces : unitExponent ≤ shift := by
    refine Nat.le_of_not_lt fun hbelow => Nat.not_lt.2 hbits ?_
    calc magnitude = significand * 2 ^ shift := hmagnitude
      _ ≤ significand * 2 ^ unitExponent :=
        Nat.mul_le_mul_left _ (Nat.pow_le_pow_right (by decide) (Nat.le_of_lt hbelow))
      _ < 2 ^ 53 * 2 ^ unitExponent := Nat.mul_lt_mul_of_pos_right hupper (Nat.two_pow_pos _)
  have hcount : k = significand * 2 ^ (shift - unitExponent) := by
    refine Nat.eq_of_mul_eq_mul_right scale_pos ?_
    rw [← hwhole, hmagnitude, Nat.mul_assoc, scale, ← Nat.pow_add, Nat.sub_add_cancel hplaces]
  have hunit : unitExponent = 1074 := rfl
  exact ⟨shift - unitExponent, significand, hcount, by omega, by omega, hsignificand⟩

end Fields

end LogicChip.Binary64

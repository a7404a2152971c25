import LogicChip.Binary64.Basic

namespace LogicChip.Binary64

/-- The magnitude, in units, with the given exponent and fraction fields. Exponent field 0 holds
the subnormal magnitudes, which lack the leading bit. -/
def magnitudeOfFields (exponent fraction : Nat) : Nat :=
  if exponent = 0 then fraction else (2 ^ 52 + fraction) * 2 ^ (exponent - 1)

theorem representable_magnitudeOfFields {exponent fraction : Nat} (hexponent : exponent < 2047)
    (hfraction : fraction < 2 ^ 52) : Representable (magnitudeOfFields exponent fraction) := by
  unfold magnitudeOfFields
  split
  · have h : Representable (fraction * 2 ^ 0) :=
      representable_mul_two_pow (Nat.le_of_lt (Nat.lt_trans hfraction (by decide)))
        (by
          have : 2 ^ 52 ≤ bound := two_pow_le_bound (by decide)
          omega)
    simpa using h
  · refine representable_mul_two_pow (by omega) ?_
    calc (2 ^ 52 + fraction) * 2 ^ (exponent - 1)
        < 2 ^ 53 * 2 ^ (exponent - 1) :=
          Nat.mul_lt_mul_of_pos_right (by omega) (Nat.two_pow_pos _)
      _ ≤ bound := by
          rw [← Nat.pow_add]
          exact two_pow_le_bound (by unfold boundExponent; omega)

/-- The exponent field of a bit pattern. -/
def exponentField (bits : UInt64) : UInt64 := (bits >>> 52) &&& 0x7ff

/-- The fraction field of a bit pattern, with the leading bit of a normal magnitude. -/
def significandField (bits : UInt64) : UInt64 := (bits &&& 0xfffffffffffff) ||| 0x10000000000000

/-- The exponent and fraction fields of a magnitude, as one number. -/
def fieldsOfMagnitude (magnitude : Nat) : Nat :=
  let shift := magnitude.log2 - 52
  shift * 2 ^ 52 + magnitude >>> shift

/-- The bit pattern of a value, as a number below `2 ^ 64`. -/
def pattern : Binary64 → Nat
  | nan => 0x7ff8000000000000
  | infinity negative => (if negative then 2 ^ 63 else 0) + 0x7ff0000000000000
  | finite negative magnitude _ => (if negative then 2 ^ 63 else 0) + fieldsOfMagnitude magnitude

/-- The bit pattern of a value: a sign bit, eleven exponent bits and 52 fraction bits. NaN is the
quiet one with an empty payload. -/
def toBits (x : Binary64) : UInt64 := UInt64.ofNat x.pattern

/-- The value with the given bit pattern. Every NaN pattern reads as the one NaN. -/
def ofBits (bits : UInt64) : Binary64 :=
  let negative := decide (bits.toNat / 2 ^ 63 = 1)
  let exponent := bits.toNat / 2 ^ 52 % 2 ^ 11
  let fraction := bits.toNat % 2 ^ 52
  if h : exponent < 2047 then
    .finite negative (magnitudeOfFields exponent fraction)
      (representable_magnitudeOfFields h (Nat.mod_lt _ (by decide)))
  else if fraction = 0 then .infinity negative
  else .nan

/-- The position of the leading bit of a magnitude that has more than 52 bits. -/
theorem two_pow_le_shiftRight {magnitude : Nat} (h : 2 ^ 52 ≤ magnitude) :
    2 ^ 52 ≤ magnitude / 2 ^ (magnitude.log2 - 52) ∧
      magnitude / 2 ^ (magnitude.log2 - 52) < 2 ^ 53 := by
  have hne : magnitude ≠ 0 := by omega
  have hlog : 52 ≤ magnitude.log2 := (Nat.le_log2 hne).2 h
  constructor
  · rw [Nat.le_div_iff_mul_le (Nat.two_pow_pos _), ← Nat.pow_add,
      show 52 + (magnitude.log2 - 52) = magnitude.log2 by omega]
    exact Nat.log2_self_le hne
  · rw [Nat.div_lt_iff_lt_mul (Nat.two_pow_pos _), ← Nat.pow_add,
      show 53 + (magnitude.log2 - 52) = magnitude.log2 + 1 by omega]
    exact Nat.lt_log2_self

theorem fieldsOfMagnitude_of_lt {magnitude : Nat} (h : magnitude < 2 ^ 52) :
    fieldsOfMagnitude magnitude = magnitude := by
  have hlog : magnitude.log2 - 52 = 0 := by
    rcases Nat.eq_zero_or_pos magnitude with rfl | hpos
    · decide
    · have := (Nat.log2_lt (Nat.pos_iff_ne_zero.1 hpos)).2 h
      omega
  simp [fieldsOfMagnitude, hlog]

/-- The fields of a magnitude are those of a finite value, and give the magnitude back. -/
theorem magnitudeOfFields_fieldsOfMagnitude {magnitude : Nat} (h : Representable magnitude) :
    fieldsOfMagnitude magnitude / 2 ^ 52 < 2047 ∧
      magnitudeOfFields (fieldsOfMagnitude magnitude / 2 ^ 52)
        (fieldsOfMagnitude magnitude % 2 ^ 52) = magnitude := by
  rcases Nat.lt_or_ge magnitude (2 ^ 52) with hlt | hge
  · rw [fieldsOfMagnitude_of_lt hlt, Nat.div_eq_of_lt hlt, Nat.mod_eq_of_lt hlt]
    simp [magnitudeOfFields]
  · obtain ⟨hlower, hupper⟩ := two_pow_le_shiftRight hge
    have hshift : magnitude.log2 < boundExponent := (Nat.log2_lt (by omega)).2 h.1
    have hback := Nat.div_mul_cancel h.2
    simp only [fieldsOfMagnitude, Nat.shiftRight_eq_div_pow]
    generalize hs : magnitude.log2 - 52 = shift at *
    generalize hq : magnitude / 2 ^ shift = significand at *
    have hdiv : (shift * 2 ^ 52 + significand) / 2 ^ 52 = shift + 1 := by omega
    have hmod : (shift * 2 ^ 52 + significand) % 2 ^ 52 = significand - 2 ^ 52 := by omega
    rw [hdiv, hmod]
    unfold boundExponent at hshift
    refine ⟨by omega, ?_⟩
    simp only [magnitudeOfFields, Nat.add_one_ne_zero, ↓reduceIte, Nat.add_sub_cancel]
    rw [show 2 ^ 52 + (significand - 2 ^ 52) = significand by omega, hback]

/-- Reading the bit pattern of a value gives the value back. -/
theorem ofBits_toBits (x : Binary64) : ofBits x.toBits = x := by
  cases x with
  | nan => decide +kernel
  | infinity negative => cases negative <;> decide +kernel
  | finite negative magnitude h =>
    obtain ⟨hfields, hback⟩ := magnitudeOfFields_fieldsOfMagnitude h
    have hnat : (toBits (.finite negative magnitude h)).toNat =
        (if negative then 2 ^ 63 else 0) + fieldsOfMagnitude magnitude := by
      simp only [toBits, pattern, UInt64.toNat_ofNat']
      cases negative <;> simp only [Bool.false_eq_true, ↓reduceIte] <;> omega
    have hexponent : (toBits (.finite negative magnitude h)).toNat / 2 ^ 52 % 2 ^ 11 =
        fieldsOfMagnitude magnitude / 2 ^ 52 := by
      rw [hnat]
      cases negative <;> simp only [Bool.false_eq_true, ↓reduceIte] <;> omega
    have hfraction : (toBits (.finite negative magnitude h)).toNat % 2 ^ 52 =
        fieldsOfMagnitude magnitude % 2 ^ 52 := by
      rw [hnat]
      cases negative <;> simp only [Bool.false_eq_true, ↓reduceIte] <;> omega
    have hnegative : decide ((toBits (.finite negative magnitude h)).toNat / 2 ^ 63 = 1) =
        negative := by
      rw [hnat]
      cases negative
      · rw [decide_eq_false_iff_not]
        simp only [Bool.false_eq_true, ↓reduceIte]
        omega
      · rw [decide_eq_true_eq]
        simp only [↓reduceIte]
        omega
    simp only [ofBits, hexponent, hfraction, hnegative, hback, dif_pos hfields]

end LogicChip.Binary64

import LogicChip.Proofs.Long.CheckedField
import LogicChip.Proofs.Long.LowWord

namespace LogicChip

namespace Long

theorem toInt_eq_toNat_low {n : Long} (hlower : 0 ≤ n.toInt) (hupper : n.toInt < 2 ^ 54) :
    n.toInt = n.low.toNat := by
  rw [low_eq_ofInt, BitVec.toNat_ofInt]
  omega

theorem and_mask54_bounds (n : Long) :
    0 ≤ (n &&& mask54).toInt ∧ (n &&& mask54).toInt < 2 ^ 54 := by
  have hlt : n.low.toNat < 2 ^ 54 := n.low.isLt
  rw [toInt_and_mask54]
  omega

end Long

namespace Binary64

theorem toNat_significandField_lt (bits : UInt64) : (significandField bits).toNat < 2 ^ 53 := by
  have hmask : (0xfffffffffffff : UInt64).toNat = 2 ^ 52 - 1 := by decide
  have hleading : (0x10000000000000 : UInt64).toNat < 2 ^ 53 := by decide
  have hfraction : (bits &&& 0xfffffffffffff).toNat < 2 ^ 53 := by
    rw [UInt64.toNat_and, hmask, Nat.and_two_pow_sub_one_eq_mod]
    omega
  unfold significandField
  rw [UInt64.toNat_or]
  exact Nat.or_lt_two_pow hfraction hleading

end Binary64

namespace Bitwise

open BitField.Checked (sub?)

namespace Checked

/-- An integer as a long, if it is one. -/
def ofInt? (n : Int) : Option Long :=
  if -2 ^ 63 ≤ n ∧ n < 2 ^ 63 then some (Int64.ofInt n) else none

/-- How many places a significand is shifted by, if the exponent field is not too small. -/
def places? (exponent : UInt64) : Option UInt64 :=
  if 1075 ≤ exponent then some (exponent - 1075) else none

/-- A shift to the left, if it is by less than the width of a long. -/
def shiftLeft? (n : Long) (places : UInt64) : Option Long :=
  if places < 64 then some (n <<< places.toInt64) else none

/-- The magnitude of an integral value modulo `2 ^ 54`, if no step gives up. -/
def lowMagnitude? (integral : Binary64) : Option Long :=
  if Binary64.lt integral.abs (.ofInt Long.boundary.toInt) then
    ofInt? (integral.truncated?.getD 0).natAbs
  else do
    let places ← places? (Binary64.exponentField integral.toBits)
    if 54 ≤ places then pure 0
    else do
      let significand ← ofInt? (Binary64.significandField integral.toBits).toNat
      let moved ← shiftLeft? significand places
      pure (moved &&& Long.mask54)

/-- The word that a target is read as, if no step gives up. -/
def lowWord? (x : Binary64) : Option Long :=
  if x.isFinite then do
    let magnitude ← lowMagnitude? x.trunc
    if Binary64.lt x.trunc 0 then do
      let difference ← sub? Long.wrap magnitude
      pure (difference &&& Long.mask54)
    else pure magnitude
  else pure 0

theorem toInt64_shiftLeft (n : UInt64) {places : UInt64} (h : places.toNat < 64) :
    (n <<< places).toInt64 = n.toInt64 <<< places.toInt64 := by
  have hcount : places.toInt64.toInt = places.toNat := by
    change places.toBitVec.toInt = _
    rw [BitVec.toInt_eq_toNat_of_lt (by rw [UInt64.toNat_toBitVec]; omega), UInt64.toNat_toBitVec]
  apply Int64.toBitVec_inj.1
  rw [toBitVec_shiftLeft_of_lt n.toInt64 h hcount]
  apply BitVec.eq_of_toNat_eq
  rw [UInt64.toBitVec_toInt64, UInt64.toNat_toBitVec, UInt64.toNat_shiftLeft, Nat.mod_eq_of_lt h,
    BitVec.toNat_shiftLeft, UInt64.toBitVec_toInt64, UInt64.toNat_toBitVec]

theorem ofInt?_toNat {n : UInt64} (h : n.toNat < 2 ^ 63) : ofInt? n.toNat = some n.toInt64 := by
  have hvalue : Int64.ofInt n.toNat = n.toInt64 := by
    apply Int64.toBitVec_inj.1
    rw [Int64.toBitVec_ofInt, UInt64.toBitVec_toInt64, BitVec.ofInt_natCast]
    exact BitVec.ofNat_toNat _ n.toBitVec
  rw [ofInt?, if_pos (by omega), hvalue]

theorem shiftLeft?_of_lt {significand places : UInt64} (hsignificand : significand.toNat < 2 ^ 63)
    (hplaces : places.toNat < 64) :
    ((ofInt? significand.toNat).bind fun n => shiftLeft? n places) =
      some (significand <<< places).toInt64 := by
  have hwidth : (64 : UInt64).toNat = 64 := by decide
  have hroom : places < 64 := by rwa [UInt64.lt_iff_toNat_lt, hwidth]
  rw [ofInt?_toNat hsignificand, Option.bind_some, shiftLeft?, if_pos hroom,
    toInt64_shiftLeft significand hplaces]

/-- From the magnitude `2 ^ 53` on the exponent field is not less than what is taken from it. -/
theorem places?_of_le {x : Binary64} {n : Int} (h : x.integer? = some n)
    (hlarge : 2 ^ 53 ≤ n.natAbs) :
    places? (Binary64.exponentField x.toBits) =
      some (Binary64.exponentField x.toBits - 1075) := by
  obtain ⟨negative, hmagnitude, rfl, _⟩ := Binary64.eq_finite_of_integer? h
  obtain ⟨places, _, _, _, hexponent, _⟩ :=
    Binary64.exists_fields_of_le hmagnitude negative rfl hlarge
  rw [places?, if_pos (toNat_sub_bias hexponent).1]

theorem lowMagnitude?_eq {x : Binary64} {n : Int} (h : x.integer? = some n) :
    lowMagnitude? x = some (lowMagnitude x) := by
  unfold lowMagnitude? lowMagnitude
  by_cases hsmall : n.natAbs < 2 ^ 53
  · have hbelow := (lt_boundary_iff h).2 hsmall
    rw [if_pos hbelow, if_pos hbelow, Binary64.truncated?_of_integer? h, Option.getD_some, ofInt?,
      if_pos (by omega)]
  · have hreached := mt (lt_boundary_iff h).1 hsmall
    have hsignificand := Binary64.toNat_significandField_lt x.toBits
    rw [if_neg hreached, if_neg hreached, places?_of_le h (Nat.le_of_not_lt hsmall)]
    dsimp only [Option.bind_eq_bind, Option.bind_some]
    split
    · rfl
    · rename_i hnear
      have hlimit : (54 : UInt64).toNat = 54 := by decide
      rw [UInt64.le_iff_toNat_le, hlimit] at hnear
      rw [← Option.bind_assoc, shiftLeft?_of_lt (by omega) (by omega)]
      rfl

theorem lowMagnitude_bounds {x : Binary64} (h : x.isFinite = true) :
    0 ≤ (lowMagnitude x.trunc).toInt ∧ (lowMagnitude x.trunc).toInt < 2 ^ 54 := by
  have hinteger := Binary64.integer?_trunc h
  by_cases hsmall : x.whole.natAbs < 2 ^ 53
  · rw [lowMagnitude_of_lt hinteger hsmall, Int64.toInt_ofInt_of_le (by omega) (by omega)]
    omega
  · unfold lowMagnitude
    rw [if_neg (mt (lt_boundary_iff hinteger).1 hsmall)]
    dsimp only
    split
    · decide
    · exact Long.and_mask54_bounds _

/-- A word of 54 bits is taken from `2 ^ 54` without an overflow. -/
theorem sub?_wrap {n : Long} (hlower : 0 ≤ n.toInt) (hupper : n.toInt < 2 ^ 54) :
    sub? Long.wrap n = some (Long.wrap - n) := by
  have hwrap : Long.wrap.toInt = 2 ^ 54 := by decide
  rw [sub?, if_pos]
  rw [Int64.toInt_sub, hwrap, Int.bmod_eq_of_le (by omega) (by omega)]

theorem lowWord?_eq (x : Binary64) : lowWord? x = some (lowWord x) := by
  unfold lowWord? lowWord
  by_cases hfinite : x.isFinite = true
  · obtain ⟨hlower, hupper⟩ := lowMagnitude_bounds hfinite
    rw [if_pos hfinite, if_pos hfinite, lowMagnitude?_eq (Binary64.integer?_trunc hfinite),
      Option.bind_eq_bind, Option.bind_some, sub?_wrap hlower hupper]
    dsimp only
    split <;> rfl
  · rw [if_neg hfinite, if_neg hfinite]
    rfl

end Checked

theorem lowWord_bounds (x : Binary64) : 0 ≤ (lowWord x).toInt ∧ (lowWord x).toInt < 2 ^ 54 := by
  unfold lowWord
  split
  · rename_i hfinite
    dsimp only
    split
    · exact Long.and_mask54_bounds _
    · exact Checked.lowMagnitude_bounds hfinite
  · decide

/-- Every target is read, on checked numbers too, as the residue of its integer part modulo
`2 ^ 54`, and as zero if it has none. -/
theorem lowWord_eq_residue (x : Binary64) :
    Checked.lowWord? x = some (lowWord x) ∧
      (0 ≤ (lowWord x).toInt ∧ (lowWord x).toInt < 2 ^ 54) ∧
      (lowWord x).toInt = x.truncated?.elim 0 (· % 2 ^ 54) := by
  obtain ⟨hlower, hupper⟩ := lowWord_bounds x
  have hwhole : x.truncated?.elim 0 (· % 2 ^ 54) = x.whole % 2 ^ 54 := by
    rw [Binary64.whole]
    cases x.truncated? <;> rfl
  refine ⟨Checked.lowWord?_eq x, ⟨hlower, hupper⟩, ?_⟩
  rw [hwhole, Long.toInt_eq_toNat_low hlower hupper, low_lowWord, BitVec.toNat_ofInt]
  omega

end Bitwise

end LogicChip

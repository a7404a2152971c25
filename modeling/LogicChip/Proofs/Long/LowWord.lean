import LogicChip.Operation.Bitwise
import LogicChip.Proofs.Binary64.Whole
import LogicChip.Proofs.Long.Codec

namespace LogicChip.Bitwise

open Binary64 (lt_of_integer? integer?_ofInt)

theorem integer?_boundary : (Binary64.ofInt Long.boundary.toInt).integer? = some (2 ^ 53) := by
  have hvalue : Long.boundary.toInt = 2 ^ 53 := by decide
  rw [hvalue]
  exact integer?_ofInt (by omega)

theorem lt_boundary_iff {x : Binary64} {n : Int} (h : x.integer? = some n) :
    Binary64.lt x.abs (.ofInt Long.boundary.toInt) = true ↔ n.natAbs < 2 ^ 53 := by
  rw [lt_of_integer? (Binary64.integer?_abs h) integer?_boundary, decide_eq_true_eq]
  omega

/-- Below the magnitude `2 ^ 53` an integer is taken as it is. -/
theorem lowMagnitude_of_lt {x : Binary64} {n : Int} (h : x.integer? = some n)
    (hsmall : n.natAbs < 2 ^ 53) : lowMagnitude x = Int64.ofInt n.natAbs := by
  unfold lowMagnitude
  rw [if_pos ((lt_boundary_iff h).2 hsmall), Binary64.truncated?_of_integer? h]
  rfl

/-- What is taken from an exponent field leaves the places that a significand is shifted by. -/
theorem toNat_sub_bias {exponent : UInt64} {places : Nat} (h : exponent.toNat = places + 1075) :
    1075 ≤ exponent ∧ (exponent - 1075).toNat = places := by
  have hbias : (1075 : UInt64).toNat = 1075 := by decide
  have hle : 1075 ≤ exponent := by
    rw [UInt64.le_iff_toNat_le, h, hbias]
    exact Nat.le_add_left 1075 places
  refine ⟨hle, ?_⟩
  rw [UInt64.toNat_sub_of_le _ _ hle, h, hbias, Nat.add_sub_cancel]

/-- From the magnitude `2 ^ 53` on the low bits are those of the shifted significand. -/
theorem low_lowMagnitude_of_le {negative : Bool} {magnitude : Nat}
    (h : Binary64.Representable magnitude) {k : Nat} (hwhole : magnitude = k * Binary64.scale)
    (hlarge : 2 ^ 53 ≤ k) :
    (lowMagnitude (.finite negative magnitude h)).low = BitVec.ofNat 54 k := by
  obtain ⟨places, significand, hk, hplaces, hexponent, hsignificand⟩ :=
    Binary64.exists_fields_of_le h negative hwhole hlarge
  have hinteger : (Binary64.finite negative magnitude h).integer? =
      some (Binary64.signed negative k) := by
    simp only [Binary64.integer?, hwhole, Nat.dvd_mul_left, if_true,
      Nat.mul_div_cancel _ Binary64.scale_pos]
  have hreached : ¬(Binary64.signed negative k).natAbs < 2 ^ 53 := by
    rw [Binary64.natAbs_signed]
    exact Nat.not_lt.2 hlarge
  obtain ⟨_, hcount⟩ := toNat_sub_bias hexponent
  have hwidth : (54 : UInt64).toNat = 54 := by decide
  unfold lowMagnitude
  rw [if_neg (mt (lt_boundary_iff hinteger).1 hreached)]
  dsimp only
  simp only [UInt64.le_iff_toNat_le, hcount, hwidth]
  apply BitVec.eq_of_toNat_eq
  rw [BitVec.toNat_ofNat]
  -- A shift by 54 places or more leaves nothing of the significand in the low bits.
  by_cases hfar : 54 ≤ places
  · have hdvd : 2 ^ 54 ∣ k := by
      rw [hk]
      exact Nat.dvd_trans (Nat.pow_dvd_pow 2 hfar) (Nat.dvd_mul_left _ _)
    rw [if_pos hfar, Nat.mod_eq_zero_of_dvd hdvd]
    rfl
  · rw [if_neg hfar, Long.low_and_mask54, Long.toNat_low, UInt64.toBitVec_toInt64,
      UInt64.toNat_toBitVec, UInt64.toNat_shiftLeft, hcount, hsignificand, Nat.shiftLeft_eq,
      Nat.mod_eq_of_lt (by omega : places < 64), ← hk]
    omega

/-- The magnitude of a target is read modulo `2 ^ 54`. -/
theorem low_lowMagnitude {x : Binary64} (h : x.isFinite = true) :
    (lowMagnitude x.trunc).low = BitVec.ofNat 54 x.whole.natAbs := by
  have hinteger := Binary64.integer?_trunc h
  by_cases hsmall : x.whole.natAbs < 2 ^ 53
  · rw [lowMagnitude_of_lt hinteger hsmall, Long.low_eq_ofInt,
      Int64.toInt_ofInt_of_le (by omega) (by omega)]
    rfl
  · obtain ⟨negative, hmagnitude, heq, _⟩ := Binary64.eq_finite_of_integer? hinteger
    rw [heq]
    exact low_lowMagnitude_of_le hmagnitude rfl (Nat.le_of_not_lt hsmall)

theorem low_sub (m n : Long) : (m - n).low = m.low - n.low := by
  unfold Long.low
  rw [Int64.toBitVec_sub, BitVec.sub_eq_add_neg, BitVec.setWidth_add _ _ (by decide),
    BitVec.setWidth_neg_of_le (by decide), ← BitVec.sub_eq_add_neg]

/-- Any target is read as the word of its integer part. -/
theorem low_lowWord (x : Binary64) : (lowWord x).low = BitVec.ofInt 54 x.whole := by
  unfold lowWord
  by_cases hfinite : x.isFinite = true
  · have hzero : (0 : Binary64).integer? = some 0 := integer?_ofInt (n := 0) (by decide)
    have hmagnitude := low_lowMagnitude hfinite
    have hwrap : Long.wrap.low = 0 := by decide
    rw [if_pos hfinite, lt_of_integer? (Binary64.integer?_trunc hfinite) hzero]
    by_cases hsign : x.whole < 0
    · have hword : BitVec.ofInt 54 x.whole = -BitVec.ofNat 54 x.whole.natAbs := by
        calc BitVec.ofInt 54 x.whole = BitVec.ofInt 54 (-(x.whole.natAbs : Int)) :=
              congrArg _ (by omega)
          _ = -BitVec.ofNat 54 x.whole.natAbs := BitVec.ofInt_neg
      rw [if_pos (decide_eq_true hsign), Long.low_and_mask54, low_sub, hmagnitude, hwrap, hword]
      exact BitVec.zero_sub _
    · have hword : BitVec.ofInt 54 x.whole = BitVec.ofNat 54 x.whole.natAbs :=
        congrArg (BitVec.ofInt 54) (show x.whole = (x.whole.natAbs : Int) by omega)
      rw [if_neg (by simpa using hsign), hmagnitude, hword]
  · rw [if_neg hfinite]
    cases x with
    | nan => rfl
    | infinity negative => rfl
    | finite negative magnitude h => exact absurd rfl hfinite

end LogicChip.Bitwise

import LogicChip.Operation.Bitwise
import LogicChip.Proofs.Long.Operand
import LogicChip.Proofs.Long.TwosComplement

namespace LogicChip.Bitwise

/-- An integer shifted to the left, or to the right where the number of places is negative. -/
def movedLeft (n places : Int) : Int :=
  if 0 ≤ places then n * 2 ^ places.toNat else n / 2 ^ (-places).toNat

/-- An integer shifted to the right, or to the left where the number of places is negative. -/
def movedRight (n places : Int) : Int :=
  if 0 ≤ places then n / 2 ^ places.toNat else n * 2 ^ (-places).toNat

theorem movedLeft_natCast (n : Int) (places : Nat) : movedLeft n places = n * 2 ^ places :=
  if_pos (by omega)

theorem movedRight_natCast (n : Int) (places : Nat) : movedRight n places = n / 2 ^ places :=
  if_pos (by omega)

theorem movedLeft_neg (n places : Int) : movedLeft n (-places) = movedRight n places := by
  unfold movedLeft movedRight
  rcases Int.lt_trichotomy places 0 with hnegative | rfl | hpositive
  · rw [if_pos (by omega), if_neg (by omega)]
  · simp
  · rw [if_neg (by omega), if_pos (by omega), Int.neg_neg]

/-- The amount of a shift is the remainder of the operand by 64, with the sign of the operand. -/
theorem shiftAmount_of_accepts {b : Binary64} (h : Long.AcceptsInt32 b) :
    ∃ amount : Int32, shiftAmount b = .ok amount ∧ amount.toInt = b.whole.tmod 64 ∧
      amount.toInt.natAbs < 64 := by
  obtain ⟨n, hoperand, hvalue⟩ := Long.int32OfOperand_of_accepts h
  have hwidth : (64 : Int32).toInt = 64 := by decide
  have hplaces : (n % 64).toInt = b.whole.tmod 64 := by
    rw [Int32.toInt_mod, hvalue, hwidth]
  refine ⟨n % 64, ?_, hplaces, ?_⟩
  · unfold shiftAmount
    rw [hoperand]
    rfl
  · rw [hplaces, Int.natAbs_tmod]
    exact Nat.mod_lt _ (by decide)

private theorem toNat_smod_of_lt {c : Int64} {r : Nat} (hr : r < 64) (h : c.toInt = r) :
    (c.toBitVec.smod 64).toNat = r := by
  have hamount : (c.toBitVec.smod 64).toInt = r := by
    have hwidth : (64 : BitVec 64).toInt = 64 := by decide
    rw [BitVec.toInt_smod, hwidth]
    change c.toInt.fmod 64 = r
    rw [h]
    exact Int.fmod_eq_of_lt (by omega) (by omega)
  rw [BitVec.toInt_eq_toNat_cond] at hamount
  split at hamount <;> omega

theorem toBitVec_shiftLeft_of_lt (n : Long) {c : Int64} {r : Nat} (hr : r < 64)
    (h : c.toInt = r) : (n <<< c).toBitVec = n.toBitVec <<< r := by
  rw [Int64.toBitVec_shiftLeft, BitVec.shiftLeft_eq', toNat_smod_of_lt hr h]

theorem toBitVec_shiftRight_of_lt (n : Long) {c : Int64} {r : Nat} (hr : r < 64)
    (h : c.toInt = r) : (n >>> c).toBitVec = n.toBitVec.sshiftRight r := by
  rw [Int64.toBitVec_shiftRight, BitVec.sshiftRight_eq', toNat_smod_of_lt hr h]

theorem toInt_shiftRight_of_lt (n : Long) {c : Int64} {r : Nat} (hr : r < 64) (h : c.toInt = r) :
    (n >>> c).toInt = n.toInt / 2 ^ r := by
  change (n >>> c).toBitVec.toInt = _
  rw [toBitVec_shiftRight_of_lt n hr h, BitVec.toInt_sshiftRight, Int.shiftRight_eq_div_pow,
    Int.natCast_pow]
  rfl

private theorem zero_le_amount {amount : Int32} {r : Nat} (h : amount.toInt = r) :
    (0 : Int32) ≤ amount := by
  have hzero : (0 : Int32).toInt = 0 := by decide
  rw [Int32.le_iff_toInt_le, h, hzero]
  omega

/-- A shift to the left needs only the low bits of its operand. -/
theorem low_shiftLeft (n : Long) {amount : Int32} {r : Nat} (hr : r < 64)
    (h : amount.toInt = r) : (shiftLeft n amount).low = n.low <<< r := by
  have hcount : amount.toInt64.toInt = r := by rw [Int32.toInt_toInt64, h]
  unfold shiftLeft Long.low
  rw [if_pos (zero_le_amount h), toBitVec_shiftLeft_of_lt n hr hcount,
    BitVec.setWidth_shiftLeft_of_le (by decide)]

theorem toInt_neg_amount {amount : Int32} (h : amount.toInt.natAbs < 64) :
    (-amount).toInt = -amount.toInt := by
  rw [Int32.toInt_neg, Int.bmod_eq_of_le (by omega) (by omega)]

/-- A negative amount shifts the other way. -/
theorem shiftLeft_eq_shiftRight_neg (n : Long) {amount : Int32} (h : amount.toInt.natAbs < 64) :
    shiftLeft n amount = shiftRight n (-amount) := by
  have hzero : (0 : Int32).toInt = 0 := by decide
  have hneg := toInt_neg_amount h
  unfold shiftLeft shiftRight
  simp only [Int32.le_iff_toInt_le, hzero, hneg]
  rcases Int.lt_trichotomy amount.toInt 0 with hnegative | hnone | hpositive
  · rw [if_neg (by omega), if_pos (by omega)]
  · have hamount : amount = 0 := Int32.toInt_inj.1 (by rw [hnone, hzero])
    have hleft : (n <<< (0 : Int32).toInt64).toBitVec = n.toBitVec <<< 0 :=
      toBitVec_shiftLeft_of_lt n (by decide) (by decide)
    have hright : (n >>> (-(0 : Int32)).toInt64).toBitVec = n.toBitVec.sshiftRight 0 :=
      toBitVec_shiftRight_of_lt n (by decide) (by decide)
    rw [if_pos (by omega), if_pos (by omega), hamount, ← Int64.toBitVec_inj, hleft, hright,
      BitVec.shiftLeft_zero, BitVec.sshiftRight_zero]
  · rw [if_pos (by omega), if_neg (by omega), Int32.neg_neg]

section Longs

variable (n : Long) {amount : Int32}

theorem toInt_shiftRight {r : Nat} (hr : r < 64) (h : amount.toInt = r) :
    (shiftRight n amount).toInt = n.toInt / 2 ^ r := by
  have hcount : amount.toInt64.toInt = r := by rw [Int32.toInt_toInt64, h]
  unfold shiftRight
  rw [if_pos (zero_le_amount h), toInt_shiftRight_of_lt n hr hcount]

theorem low_shiftLeft_eq_ofInt (h : amount.toInt.natAbs < 64) :
    (shiftLeft n amount).low = BitVec.ofInt 54 (movedLeft n.toInt amount.toInt) := by
  unfold movedLeft
  by_cases hsign : 0 ≤ amount.toInt
  · rw [if_pos hsign, low_shiftLeft n (by omega) (Int.toNat_of_nonneg hsign).symm, n.low_eq_ofInt,
      Long.ofInt_mul_two_pow]
  · have hneg : (-amount).toInt = ((-amount.toInt).toNat : Int) := by
      rw [toInt_neg_amount h]
      omega
    rw [if_neg hsign, shiftLeft_eq_shiftRight_neg n h, Long.low_eq_ofInt,
      toInt_shiftRight n (by omega) hneg]

theorem low_shiftRight_eq_ofInt (h : amount.toInt.natAbs < 64) :
    (shiftRight n amount).low = BitVec.ofInt 54 (movedRight n.toInt amount.toInt) := by
  have hneg := toInt_neg_amount h
  have hback : shiftRight n amount = shiftLeft n (-amount) := by
    rw [shiftLeft_eq_shiftRight_neg n (by omega), Int32.neg_neg]
  rw [hback, low_shiftLeft_eq_ofInt n (by omega), hneg, movedLeft_neg]

end Longs

end LogicChip.Bitwise

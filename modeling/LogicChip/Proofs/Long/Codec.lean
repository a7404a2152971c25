import LogicChip.Long.Basic
import LogicChip.Proofs.Binary64.Integer

namespace LogicChip.Long

/-- The bits of a long that a register holds. -/
def low (n : Long) : BitVec 54 := n.toBitVec.setWidth 54

theorem toNat_low (n : Long) : n.low.toNat = n.toBitVec.toNat % 2 ^ 54 :=
  BitVec.toNat_setWidth ..

theorem low_eq_ofInt (n : Long) : n.low = BitVec.ofInt 54 n.toInt := by
  apply BitVec.eq_of_toNat_eq
  change n.low.toNat = (BitVec.ofInt 54 n.toBitVec.toInt).toNat
  rw [toNat_low, BitVec.toNat_ofInt, BitVec.toInt_eq_toNat_cond]
  split <;> omega

theorem toBitVec_and_mask54 (n : Long) : (n &&& mask54).toBitVec = n.low.setWidth 64 := by
  have hmask : mask54.toBitVec = BitVec.ofNat 64 (2 ^ 54 - 1) := by decide
  apply BitVec.eq_of_getLsbD_eq
  intro i hi
  rw [Int64.toBitVec_and, BitVec.getLsbD_and, hmask, BitVec.getLsbD_ofNat,
    Nat.testBit_two_pow_sub_one, low, BitVec.getLsbD_setWidth, BitVec.getLsbD_setWidth]
  simp only [hi, decide_true, Bool.true_and, Bool.and_comm]

theorem low_and_mask54 (n : Long) : (n &&& mask54).low = n.low := by
  unfold low
  rw [toBitVec_and_mask54, BitVec.setWidth_setWidth_of_le _ (by decide), BitVec.setWidth_eq, low]

theorem toInt_and_mask54 (n : Long) : (n &&& mask54).toInt = n.low.toNat := by
  have hlt : n.low.toNat < 2 ^ 54 := n.low.isLt
  change (n &&& mask54).toBitVec.toInt = _
  rw [toBitVec_and_mask54, BitVec.toInt_setWidth, Int.bmod_eq_of_le (by omega) (by omega)]

/-- A register holds the signed reading of the low 54 bits of a long. -/
theorem decode_eq (n : Long) : decode n = .ofInt n.low.toInt := by
  have hlow := toInt_and_mask54 n
  have hlt : n.low.toNat < 2 ^ 54 := n.low.isLt
  have hboundary : boundary.toInt = 2 ^ 53 := by decide
  have hwrap : wrap.toInt = 2 ^ 54 := by decide
  unfold decode
  simp only [Int64.lt_iff_toInt_lt, hlow, hboundary]
  refine congrArg Binary64.ofInt ?_
  rw [BitVec.toInt_eq_toNat_cond]
  by_cases h : n.low.toNat < 2 ^ 53
  · rw [if_pos (by omega), if_pos (by omega), hlow]
  · rw [if_neg (by omega), if_neg (by omega), Int64.toInt_sub, hlow, hwrap,
      Int.bmod_eq_of_le (by omega) (by omega)]
    omega

theorem integerPart_of_truncated? {x : Binary64} {n : Int} (h : x.truncated? = some n) :
    integerPart x = .ok n := by
  unfold integerPart
  rw [h]

theorem ofOperand_of_truncated? (reading : Reading) {x : Binary64} {n : Int}
    (h : x.truncated? = some n) (hfits : n.natAbs < 2 ^ 63) :
    ofOperand reading x = .ok (encode reading (Int64.ofInt n)) := by
  unfold ofOperand
  rw [integerPart_of_truncated? h]
  change (if 2 ^ 63 < n.natAbs then _ else if n.natAbs = 2 ^ 63 then _ else _) = _
  rw [if_neg (by omega), if_neg (by omega)]
  rfl

theorem int32OfOperand_of_truncated? {x : Binary64} {n : Int} (h : x.truncated? = some n)
    (hlower : -2 ^ 31 ≤ n) (hupper : n < 2 ^ 31) : int32OfOperand x = .ok (Int32.ofInt n) := by
  unfold int32OfOperand
  rw [integerPart_of_truncated? h]
  change (if n < -2 ^ 31 ∨ 2 ^ 31 ≤ n then _ else _) = _
  rw [if_neg (by omega)]
  rfl

/-- The integer as which a reading takes an integer part. -/
def readInteger : Reading → Int → Int
  | .signed, n => if n.natAbs = 2 ^ 53 ∨ n.natAbs = 2 ^ 63 then 0 else n
  | .unsigned, n =>
    if n = -2 ^ 53 ∨ n.natAbs = 2 ^ 63 then 0 else if n < 0 then n + 2 ^ 54 else n

theorem toInt_encode (reading : Reading) {n : Int} (h : n.natAbs < 2 ^ 63) :
    (encode reading (Int64.ofInt n)).toInt = readInteger reading n := by
  have htoInt : (Int64.ofInt n).toInt = n := Int64.toInt_ofInt_of_le (by omega) (by omega)
  have hboundary : boundary.toInt = 2 ^ 53 := by decide
  have hnegative : (-boundary).toInt = -2 ^ 53 := by decide
  have hwrap : wrap.toInt = 2 ^ 54 := by decide
  have hzero : (0 : Int64).toInt = 0 := by decide
  cases reading with
  | signed =>
    simp only [encode, encodeSigned, readInteger, ← Int64.toInt_inj, htoInt, hboundary, hnegative]
    by_cases hspecial : n = 2 ^ 53 ∨ n = -2 ^ 53
    · rw [if_pos hspecial, if_pos (by omega), hzero]
    · rw [if_neg hspecial, if_neg (by omega), htoInt]
  | unsigned =>
    simp only [encode, encodeUnsigned, readInteger, ← Int64.toInt_inj, Int64.lt_iff_toInt_lt, htoInt,
      hnegative, hzero]
    by_cases hspecial : n = -2 ^ 53
    · rw [if_pos hspecial, if_pos (.inl hspecial), hzero]
    · have hread : ¬(n = -2 ^ 53 ∨ n.natAbs = 2 ^ 63) := by omega
      simp only [if_neg hspecial, if_neg hread]
      split
      · rw [Int64.toInt_add, htoInt, hwrap, Int.bmod_eq_of_le (by omega) (by omega)]
      · exact htoInt

theorem readInteger_signed_of_lt {n : Int} (hlower : -2 ^ 53 < n) (hupper : n < 2 ^ 53) :
    readInteger .signed n = n :=
  if_neg (by omega)

theorem readInteger_unsigned_of_lt {n : Int} (hlower : -2 ^ 53 < n) (hupper : n < 2 ^ 53) :
    readInteger .unsigned n = if n < 0 then n + 2 ^ 54 else n :=
  if_neg (by omega)

/-- Either reading of a register keeps the register's word. -/
theorem low_encode (reading : Reading) {n : Int} (hlower : -2 ^ 53 < n) (hupper : n < 2 ^ 53) :
    (encode reading (Int64.ofInt n)).low = BitVec.ofInt 54 n := by
  rw [low_eq_ofInt, toInt_encode reading (by omega)]
  cases reading with
  | signed => rw [readInteger_signed_of_lt hlower hupper]
  | unsigned =>
    apply BitVec.eq_of_toNat_eq
    rw [readInteger_unsigned_of_lt hlower hupper, BitVec.toNat_ofInt, BitVec.toNat_ofInt]
    split <;> omega

end LogicChip.Long

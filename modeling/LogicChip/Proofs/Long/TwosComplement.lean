import LogicChip.Long.Basic
import Mathlib.Data.Int.Bitwise

namespace LogicChip.Long

theorem getLsbD_ofInt (width : Nat) (n : Int) (i : Nat) :
    (BitVec.ofInt width n).getLsbD i = (decide (i < width) && n.testBit i) := by
  cases n with
  | ofNat n => exact BitVec.getLsbD_ofNat width n i
  | negSucc n =>
    rw [BitVec.ofInt_negSucc_eq_not_ofNat, BitVec.getLsbD_not, BitVec.getLsbD_ofNat]
    by_cases hi : i < width
    · simp [hi, Int.testBit]
    · simp [hi]

section Words

variable (width : Nat) (m n : Int)

theorem ofInt_land :
    BitVec.ofInt width (m.land n) = BitVec.ofInt width m &&& BitVec.ofInt width n := by
  apply BitVec.eq_of_getLsbD_eq
  intro i hi
  simp only [BitVec.getLsbD_and, getLsbD_ofInt, Int.testBit_land, hi, decide_true, Bool.true_and]

theorem ofInt_lor :
    BitVec.ofInt width (m.lor n) = BitVec.ofInt width m ||| BitVec.ofInt width n := by
  apply BitVec.eq_of_getLsbD_eq
  intro i hi
  simp only [BitVec.getLsbD_or, getLsbD_ofInt, Int.testBit_lor, hi, decide_true, Bool.true_and]

theorem ofInt_xor :
    BitVec.ofInt width (m.xor n) = BitVec.ofInt width m ^^^ BitVec.ofInt width n := by
  apply BitVec.eq_of_getLsbD_eq
  intro i hi
  simp only [BitVec.getLsbD_xor, getLsbD_ofInt, Int.testBit_lxor, hi, decide_true, Bool.true_and]

theorem ofInt_lnot : BitVec.ofInt width n.lnot = ~~~BitVec.ofInt width n := by
  apply BitVec.eq_of_getLsbD_eq
  intro i hi
  simp only [BitVec.getLsbD_not, getLsbD_ofInt, Int.testBit_lnot, hi, decide_true, Bool.true_and]

theorem ofInt_mul_two_pow (places : Nat) :
    BitVec.ofInt width (n * 2 ^ places) = BitVec.ofInt width n <<< places := by
  have hpow : BitVec.ofInt width (2 ^ places) = BitVec.twoPow width places := by
    apply BitVec.eq_of_toNat_eq
    rw [BitVec.toNat_twoPow, show (2 : Int) ^ places = ((2 ^ places : Nat) : Int) by simp,
      BitVec.ofInt_natCast, BitVec.toNat_ofNat]
  rw [BitVec.ofInt_mul, hpow, BitVec.mul_twoPow_eq_shiftLeft]

end Words

theorem ofInt_div_two_pow {width : Nat} (w : BitVec width) (places : Nat) :
    BitVec.ofInt width ((w.toNat / 2 ^ places : Nat) : Int) = w >>> places := by
  have hle : w.toNat / 2 ^ places ≤ w.toNat := Nat.div_le_self ..
  have hlt := w.isLt
  apply BitVec.eq_of_toNat_eq
  rw [BitVec.ofInt_natCast, BitVec.toNat_ofNat, BitVec.toNat_ushiftRight,
    Nat.shiftRight_eq_div_pow, Nat.mod_eq_of_lt (by omega)]

end LogicChip.Long

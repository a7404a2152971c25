import LogicChip.Constant.NameHash
import Mathlib.Logic.Function.Iterate

namespace LogicChip.NameHash

/-- A remainder, whose lowest bit is the next to be divided out. -/
abbrev Remainder := BitVec 32

/-- Divides out one bit: the remainder moves down, and where the bit was set the reflected
polynomial is added. -/
def divideBit (r : Remainder) : Remainder :=
  (r >>> 1) ^^^ if r.getLsbD 0 then 0xEDB88320#32 else 0#32

/-- Adds a byte to the lowest byte of the remainder and divides out its eight bits. -/
def divideByte (r : Remainder) (byte : UInt8) : Remainder :=
  divideBit^[8] (r ^^^ byte.toBitVec.setWidth 32)

/-- The checksum of bytes that are taken in bit by bit: the complement of the last remainder, as a
signed number. -/
def checksum (bytes : List UInt8) : Int := (~~~(bytes.foldl divideByte 0xFFFFFFFF#32)).toInt

theorem getLsbD_divideBit (r : Remainder) (i : Nat) : (divideBit r).getLsbD i =
    (r.getLsbD (1 + i) ^^ (r.getLsbD 0 && (0xEDB88320#32).getLsbD i)) := by
  unfold divideBit
  rw [BitVec.getLsbD_xor, BitVec.getLsbD_ushiftRight]
  cases r.getLsbD 0 <;> simp

theorem divideBit_xor (r s : Remainder) : divideBit (r ^^^ s) = divideBit r ^^^ divideBit s := by
  apply BitVec.eq_of_getLsbD_eq
  intro i _
  simp only [BitVec.getLsbD_xor, getLsbD_divideBit, Bool.and_xor_distrib_right, Bool.xor_assoc,
    Bool.xor_left_comm]

theorem iterate_divideBit_xor (count : Nat) (r s : Remainder) :
    divideBit^[count] (r ^^^ s) = divideBit^[count] r ^^^ divideBit^[count] s := by
  induction count generalizing r s with
  | zero => rfl
  | succ count ih => simp only [Function.iterate_succ_apply, divideBit_xor, ih]

/-- Bits that are clear only move the remainder down. -/
theorem iterate_divideBit_of_clear {count : Nat} {r : Remainder}
    (h : ∀ i < count, r.getLsbD i = false) : divideBit^[count] r = r >>> count := by
  induction count with
  | zero => simp
  | succ count ih =>
    have hnext : (r >>> count).getLsbD 0 = false := by
      rw [BitVec.getLsbD_ushiftRight]
      exact h count (Nat.lt_succ_self count)
    rw [Function.iterate_succ_apply', ih fun i hi => h i (Nat.lt_succ_of_lt hi), divideBit, hnext,
      BitVec.shiftRight_add]
    simp

/-- A remainder that is moved up and loses no bit is moved back down. -/
theorem iterate_divideBit_shiftLeft {r : Remainder} {count : Nat}
    (h : ∀ i, 32 ≤ count + i → r.getLsbD i = false) : divideBit^[count] (r <<< count) = r := by
  have hclear : ∀ i < count, (r <<< count).getLsbD i = false := by
    intro i hi
    simp [BitVec.getLsbD_shiftLeft, hi]
  rw [iterate_divideBit_of_clear hclear]
  apply BitVec.eq_of_getLsbD_eq
  intro i _
  rw [BitVec.getLsbD_ushiftRight, BitVec.getLsbD_shiftLeft]
  by_cases hkept : count + i < 32
  · simp [hkept]
  · simp [hkept, h i (Nat.le_of_not_lt hkept)]

/-- Adding a byte changes the lowest byte of a remainder and leaves the bytes above it. -/
theorem xor_byte (r : Remainder) (b : BitVec 8) : r ^^^ b.setWidth 32 =
    (r.setWidth 8 ^^^ b).setWidth 32 ^^^ ((r >>> 8) <<< 8) := by
  apply BitVec.eq_of_getLsbD_eq
  intro i hi
  simp only [BitVec.getLsbD_xor, BitVec.getLsbD_setWidth, BitVec.getLsbD_shiftLeft,
    BitVec.getLsbD_ushiftRight, hi, decide_true, Bool.true_and]
  by_cases hlow : i < 8
  · simp [hlow]
  · have hplace : 8 + (i - 8) = i := by omega
    simp [hlow, hplace, BitVec.getLsbD_of_ge b i (by omega)]

theorem toBitVec_stepBit (crc : UInt32) : (stepBit crc).toBitVec = divideBit crc.toBitVec := by
  have hlow : crc &&& 1 = 1 ↔ crc.toBitVec.getLsbD 0 = true := by
    rw [← UInt32.toBitVec_inj, UInt32.toBitVec_and, UInt32.toBitVec_one,
      BitVec.and_one_eq_setWidth_ofBool_getLsbD]
    cases crc.toBitVec.getLsbD 0 <;> simp
  unfold stepBit divideBit
  by_cases h : crc &&& 1 = 1
  · rw [if_pos h, if_pos (hlow.1 h)]
    simp [polynomial, BitVec.xor_comm]
  · rw [if_neg h, if_neg (fun hbit => h (hlow.2 hbit))]
    simp

theorem toBitVec_stepBits (crc : UInt32) :
    (stepBits crc).toBitVec = divideBit^[8] crc.toBitVec := by
  have hrepeat : ∀ count, (Nat.repeat stepBit count crc).toBitVec =
      divideBit^[count] crc.toBitVec := by
    intro count
    induction count with
    | zero => rfl
    | succ count ih => rw [Nat.repeat, toBitVec_stepBit, ih, Function.iterate_succ_apply']
  exact hrepeat 8

theorem get_table (i : Fin 256) : table.get i = stepBits (UInt32.ofNat i) := by
  change table[i.val] = _
  simp [table]

/-- A step through the table divides out the eight bits of a byte. -/
theorem toBitVec_stepByte (crc : UInt32) (byte : UInt8) :
    (stepByte crc byte).toBitVec = divideByte crc.toBitVec byte := by
  have hindex : (UInt32.ofNat (crc.toUInt8 ^^^ byte).toNat).toBitVec =
      (crc.toBitVec.setWidth 8 ^^^ byte.toBitVec).setWidth 32 := by
    simp only [UInt32.ofNat_uInt8ToNat, UInt8.toBitVec_toUInt32, UInt8.toBitVec_xor,
      UInt32.toBitVec_toUInt8]
  have hshift : (crc >>> 8).toBitVec = crc.toBitVec >>> 8 := by simp
  have hhigh : ∀ i, 32 ≤ 8 + i → (crc.toBitVec >>> 8).getLsbD i = false := by
    intro i hi
    rw [BitVec.getLsbD_ushiftRight, BitVec.getLsbD_of_ge _ _ hi]
  unfold stepByte divideByte
  rw [UInt32.toBitVec_xor, get_table, toBitVec_stepBits, hindex, hshift, xor_byte,
    iterate_divideBit_xor, iterate_divideBit_shiftLeft hhigh]

theorem toBitVec_foldl_stepByte (bytes : List UInt8) (crc : UInt32) :
    (bytes.foldl stepByte crc).toBitVec = bytes.foldl divideByte crc.toBitVec := by
  induction bytes generalizing crc with
  | nil => rfl
  | cons byte rest ih => rw [List.foldl_cons, List.foldl_cons, ih, toBitVec_stepByte]

theorem toInt_ofBytes (bytes : List UInt8) : (ofBytes bytes).toInt = checksum bytes := by
  unfold ofBytes checksum
  rw [← Int32.toInt_toBitVec, UInt32.toBitVec_toInt32, UInt32.toBitVec_not, toBitVec_foldl_stepByte]
  simp

/-- The hash of a name is the checksum of its UTF-8 bytes, taken in bit by bit. -/
theorem ofName_eq_checksum (name : String) :
    (ofName name).toInt = checksum name.toUTF8.data.toList :=
  toInt_ofBytes _

end LogicChip.NameHash

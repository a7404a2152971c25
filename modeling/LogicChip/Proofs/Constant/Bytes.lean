import LogicChip.Constant.Packed
import LogicChip.Proofs.Constant.Characters
import LogicChip.Proofs.Long.Shift

namespace LogicChip.Packed

open Bitwise (toBitVec_shiftLeft_of_lt toInt_shiftRight_of_lt)

theorem toNat_toBitVec {long : Long} {n : Nat} (h : long.toInt = n) : long.toBitVec.toNat = n := by
  have hread := BitVec.toInt_eq_toNat_cond long.toBitVec
  change long.toInt = _ at hread
  have hlt := long.toBitVec.isLt
  split at hread <;> omega

theorem toInt_of_toNat_toBitVec {long : Long} {n : Nat} (h : long.toBitVec.toNat = n)
    (hn : n < 2 ^ 63) : long.toInt = n := by
  change long.toBitVec.toInt = n
  rw [BitVec.toInt_eq_toNat_of_lt (by omega), h]

section Push

variable {cs : List Char} {packed : Long} {n : Nat}

/-- Moving a number up by a byte and setting the bits of a code below it writes one more digit. -/
theorem toInt_shiftLeft_or {c : Char} (hn : packed.toInt = n) (hroom : n < 2 ^ 55)
    (hc : c.toNat < 256) :
    ((packed <<< 8) ||| Int64.ofNat c.toNat).toInt = (n * 256 + c.toNat : Nat) := by
  have hcode : (Int64.ofNat c.toNat).toBitVec.toNat = c.toNat :=
    toNat_toBitVec (Int64.toInt_ofNat_of_lt (by omega))
  have hmoved : (packed <<< 8).toBitVec.toNat = 2 ^ 8 * n := by
    rw [toBitVec_shiftLeft_of_lt packed (r := 8) (by decide) (by decide), BitVec.toNat_shiftLeft,
      toNat_toBitVec hn, Nat.shiftLeft_eq, Nat.mod_eq_of_lt (by omega), Nat.mul_comm]
  refine toInt_of_toNat_toBitVec ?_ (by omega)
  rw [Int64.toBitVec_or, BitVec.toNat_or, hmoved, hcode, ← Nat.two_pow_add_eq_or_of_lt hc]
  omega

/-- The loop over ASCII characters writes their codes after the digits of the number that it starts
with, as long as there is room in a long. -/
theorem foldlM_push (hascii : ∀ c ∈ cs, c.toNat < 128) (hn : packed.toInt = n)
    (hroom : (n + 1) * 256 ^ cs.length ≤ 2 ^ 63) : ∃ result, cs.foldlM push packed = .ok result ∧
      result.toInt = (n * 256 ^ cs.length + number cs : Nat) := by
  induction cs generalizing packed n with
  | nil => exact ⟨packed, rfl, by simpa [number] using hn⟩
  | cons c cs ih =>
    obtain ⟨hc, hrest⟩ := List.forall_mem_cons.1 hascii
    have hpower : 0 < 256 ^ cs.length := Nat.pow_pos (by decide)
    rw [List.length_cons, Nat.pow_succ] at hroom
    have hfits : n + 1 ≤ 2 ^ 55 := by
      have hle : (n + 1) * 256 ≤ (n + 1) * (256 ^ cs.length * 256) :=
        Nat.mul_le_mul_left _ (Nat.le_mul_of_pos_left 256 hpower)
      omega
    have hmore : (n * 256 + c.toNat + 1) * 256 ^ cs.length ≤ 2 ^ 63 := by
      calc (n * 256 + c.toNat + 1) * 256 ^ cs.length
          ≤ (n + 1) * 256 * 256 ^ cs.length := Nat.mul_le_mul_right _ (by omega)
        _ = (n + 1) * (256 ^ cs.length * 256) := by ring
        _ ≤ 2 ^ 63 := hroom
    obtain ⟨result, hrun, hresult⟩ :=
      ih hrest (toInt_shiftLeft_or hn (by omega) (by omega)) hmore
    refine ⟨result, ?_, ?_⟩
    · rw [List.foldlM_cons, push, if_pos hc]
      exact hrun
    · rw [hresult, number_cons, List.length_cons]
      congr 1
      ring

/-- The loop ends at the first character that is not ASCII. -/
theorem foldlM_push_of_nonAscii {before after : List Char} {c : Char}
    (hbefore : ∀ d ∈ before, d.toNat < 128) (hc : 128 ≤ c.toNat) (packed : Long) :
    (before ++ c :: after).foldlM push packed = .error (.nonAscii c) := by
  induction before generalizing packed with
  | nil =>
    rw [List.nil_append, List.foldlM_cons, push, if_neg (Nat.not_lt.2 hc)]
    rfl
  | cons d before ih =>
    obtain ⟨hd, hrest⟩ := List.forall_mem_cons.1 hbefore
    rw [List.cons_append, List.foldlM_cons, push, if_pos hd]
    exact ih hrest _

end Push

section Bytes

variable {long : Long}

theorem toNat_ofUInt8 (byte : UInt8) : (Char.ofUInt8 byte).toNat = byte.toNat :=
  UInt8.toNat_toUInt32 byte

/-- A byte that is moved down and masked is a digit to base 256. -/
theorem byteAt_eq {n place : Nat} (h : long.toInt = n) (hplace : place < 8) :
    byteAt long place = Char.ofNat (n / 256 ^ place % 256) := by
  have hcount : (Int64.ofNat (8 * place)).toInt = (8 * place : Nat) :=
    Int64.toInt_ofNat_of_lt (by omega)
  have hmoved : (long >>> Int64.ofNat (8 * place)).toInt = (n / 256 ^ place : Nat) := by
    rw [toInt_shiftRight_of_lt long (by omega) hcount, h, ← two_pow_bytes, Int.natCast_ediv,
      Int.natCast_pow]
    rfl
  have hmask : (0xff : Int64).toBitVec.toNat = 2 ^ 8 - 1 := by decide
  rw [byteAt, ← Char.toNat_inj, toNat_ofUInt8, UInt64.toNat_toUInt8,
    toNat_ofNat_byte (Nat.mod_lt _ (by decide))]
  change ((long >>> Int64.ofNat (8 * place)) &&& 0xff).toBitVec.toNat % 2 ^ 8 = _
  rw [Int64.toBitVec_and, BitVec.toNat_and, toNat_toBitVec hmoved, hmask,
    Nat.and_two_pow_sub_one_eq_mod, Nat.mod_mod]

/-- The loop counts the digits to base 256, if its limit is not less than their number. -/
theorem byteCount_eq {limit : Nat} (h : long.toInt < 256 ^ limit) :
    byteCount limit long = (characters long.toInt.toNat).length := by
  have hzero : (0 : Long).toInt = 0 := by decide
  induction limit generalizing long with
  | zero =>
    have hnone : long.toInt.toNat = 0 := by omega
    rw [hnone, characters_zero]
    rfl
  | succ limit ih =>
    rw [byteCount]
    by_cases hpos : 0 < long.toInt
    · have hmoved : (long >>> 8).toInt = long.toInt / 256 :=
        toInt_shiftRight_of_lt long (r := 8) (by decide) (by decide)
      have hless : (long >>> 8).toInt < 256 ^ limit := by
        rw [hmoved]
        rw [Int.pow_succ] at h
        exact Int.ediv_lt_of_lt_mul (by decide) h
      have hquotient : (long >>> 8).toInt.toNat = long.toInt.toNat / 256 := by omega
      rw [if_pos (Int64.lt_iff_toInt_lt.2 (by rwa [hzero])), ih hless, hquotient,
        characters_of_ne_zero (n := long.toInt.toNat) (by omega), List.length_append]
      rfl
    · have hnone : long.toInt.toNat = 0 := by omega
      rw [if_neg fun hlt => hpos (by rwa [Int64.lt_iff_toInt_lt, hzero] at hlt), hnone,
        characters_zero]
      rfl

/-- The digits of a number, each taken by its place. -/
theorem map_range_characters (n : Nat) :
    (List.range (characters n).length).reverse.map
      (fun place => Char.ofNat (n / 256 ^ place % 256)) = characters n := by
  fun_induction characters n with
  | case1 => rfl
  | case2 n h ih =>
    have hplaces : ∀ place, n / 256 ^ (place + 1) = n / 256 / 256 ^ place := fun place => by
      rw [Nat.div_div_eq_div_mul, Nat.pow_succ']
    rw [List.length_append, List.length_singleton, List.range_succ_eq_map, List.reverse_cons,
      ← List.map_reverse, List.map_append, List.map_map, List.map_singleton, Nat.pow_zero,
      Nat.div_one]
    refine congrArg (· ++ _) (Eq.trans (List.map_congr_left fun place _ => ?_) ih)
    rw [Function.comp_apply, Nat.succ_eq_add_one, hplaces]

/-- What is taken out of a long byte by byte are the digits of its number to base 256, and nothing
if it is not positive. -/
theorem bytes_eq (long : Long) : bytes long = characters long.toInt.toNat := by
  have hlimit : long.toInt < 256 ^ longBytes := by
    have hlt := Int64.toInt_lt long
    have hbytes : (256 : Int) ^ longBytes = 2 ^ 64 := by decide
    omega
  rw [bytes, byteCount_eq hlimit]
  rcases Int.lt_or_le 0 long.toInt with hpos | hneg
  · have hn : long.toInt = long.toInt.toNat := (Int.toNat_of_nonneg (Int.le_of_lt hpos)).symm
    have hcount : (characters long.toInt.toNat).length ≤ 8 := by
      have hlt := Int64.toInt_lt long
      exact length_characters_le_iff.2 (by omega)
    refine Eq.trans (List.map_congr_left fun place hplace => byteAt_eq hn ?_)
      (map_range_characters long.toInt.toNat)
    exact Nat.lt_of_lt_of_le (List.mem_range.1 (List.mem_reverse.1 hplace)) hcount
  · rw [Int.toNat_of_nonpos hneg, characters_zero]
    rfl

end Bytes

end LogicChip.Packed

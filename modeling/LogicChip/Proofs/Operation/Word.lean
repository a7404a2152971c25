import LogicChip.Proofs.Long.BitField
import LogicChip.Proofs.Long.LowWord
import LogicChip.Proofs.Operation.Residue

namespace LogicChip.Bitwise

/-- A register that holds an integer of 54 bits. -/
structure Holds (x : Binary64) (n : Int) : Prop where
  integer : x.integer? = some n
  lower : -2 ^ 53 ≤ n
  upper : n < 2 ^ 53

/-- The word that an integer is written as. -/
abbrev word (n : Int) : BitVec 54 := BitVec.ofInt 54 n

/-- The long that an integer is read as. -/
abbrev long (reading : Reading) (n : Int) : Long := Long.encode reading (Int64.ofInt n)

/-- A field of the low 53 bits of a word, moved down to bit 0. -/
def readField (start length : Nat) (w : BitVec 54) : BitVec 54 :=
  ((w.setWidth 53).extractLsb' start length).setWidth 54

/-- A word with bit 53 cleared and a field replaced by the low bits of a value. -/
def writeField (start length : Nat) (w value : BitVec 54) : BitVec 54 :=
  let region := (BitVec.allOnes length).setWidth 54 <<< start
  ((w.setWidth 53).setWidth 54 &&& ~~~region) ||| (value <<< start &&& region)

theorem holds_ofInt_toInt (w : BitVec 54) : Holds (.ofInt w.toInt) w.toInt := by
  have hlower : -2 ^ 53 ≤ w.toInt := BitVec.le_toInt w
  have hupper : w.toInt < 2 ^ 53 := BitVec.toInt_lt
  exact ⟨Binary64.integer?_ofInt (by omega), hlower, hupper⟩

namespace Holds

variable {x : Binary64} {n : Int}

theorem ofOperand (h : Holds x n) (reading : Reading) :
    Long.ofOperand reading x = .ok (long reading n) := by
  have hlower := h.lower
  have hupper := h.upper
  exact Long.ofOperand_of_truncated? reading (Binary64.truncated?_of_integer? h.integer) (by omega)

theorem lower_of_ne (h : Holds x n) (hne : n ≠ -2 ^ 53) : -2 ^ 53 < n := by
  have hlower := h.lower
  omega

theorem low_long (h : Holds x n) (hne : n ≠ -2 ^ 53) (reading : Reading) :
    (long reading n).low = word n :=
  Long.low_encode reading (h.lower_of_ne hne) h.upper

theorem accepts (h : Holds x n) : Long.Accepts x := by
  have hlower := h.lower
  have hupper := h.upper
  obtain ⟨_, _, rfl, _⟩ := Binary64.eq_finite_of_integer? h.integer
  refine .inr ⟨rfl, ?_⟩
  rw [Binary64.whole_of_integer? h.integer]
  omega

theorem signedInteger_eq (h : Holds x n) (hne : n ≠ -2 ^ 53) : signedInteger x = n := by
  unfold signedInteger
  rw [Binary64.whole_of_integer? h.integer,
    Long.readInteger_signed_of_lt (h.lower_of_ne hne) h.upper]

theorem unsignedInteger_eq (h : Holds x n) (hne : n ≠ -2 ^ 53) :
    unsignedInteger x = (word n).toNat := by
  have hlower := h.lower
  have hupper := h.upper
  unfold unsignedInteger
  rw [Binary64.whole_of_integer? h.integer,
    Long.readInteger_unsigned_of_lt (h.lower_of_ne hne) h.upper, BitVec.toNat_ofInt]
  split <;> omega

end Holds

/-- An operation that combines the low bits of two longs combines the words of two registers. -/
theorem combineBits_word {combine : Long → Long → Long}
    {f : BitVec 54 → BitVec 54 → BitVec 54}
    (hlow : ∀ m n : Long, (combine m n).low = f m.low n.low) {a b : Binary64} {m n : Int}
    (ha : Holds a m) (hb : Holds b n) :
    ∃ w : BitVec 54, combineBits combine a b = .ok (.ofInt w.toInt) ∧
      (m ≠ -2 ^ 53 → n ≠ -2 ^ 53 → w = f (word m) (word n)) := by
  refine ⟨(combine (long .signed m) (long .signed n)).low, ?_, ?_⟩
  · unfold combineBits
    rw [ha.ofOperand, hb.ofOperand]
    exact congrArg Except.ok (Long.decode_eq _)
  · intro hm hn
    rw [hlow, ha.low_long hm, hb.low_long hn]

theorem not_word {a : Binary64} {n : Int} (ha : Holds a n) :
    ∃ w : BitVec 54, not a = .ok (.ofInt w.toInt) ∧ (n ≠ -2 ^ 53 → w = ~~~word n) := by
  refine ⟨(~~~long .signed n).low, ?_, ?_⟩
  · unfold not
    rw [ha.ofOperand]
    exact congrArg Except.ok (Long.decode_eq _)
  · intro hn
    rw [low_not, ha.low_long hn]

section Shifts

variable {a : Binary64} {n : Int} (ha : Holds a n) {k : Nat} (hk : k < 2 ^ 31)

include hk

theorem acceptsInt32_constant : Long.AcceptsInt32 (.ofInt k) :=
  Long.acceptsInt32_ofInt (by omega) (by omega)

/-- The amount of a shift by a constant is the constant's remainder by 64. -/
theorem tmod_constant : (Binary64.ofInt k).whole.tmod 64 = (k % 64 : Nat) := by
  rw [Binary64.whole_ofInt (by omega)]
  exact Int.ofNat_tmod k 64

include ha

theorem sll_word :
    ∃ w : BitVec 54, sll a (.ofInt k) = .ok (.ofInt w.toInt) ∧
      (n ≠ -2 ^ 53 → w = word n <<< (k % 64)) := by
  refine ⟨word (movedLeft (signedInteger a) ((Binary64.ofInt k).whole.tmod 64)), ?_, ?_⟩
  · rw [sll_eq_residue ha.accepts (acceptsInt32_constant hk), BitVec.toInt_ofInt]
    rfl
  · intro hn
    rw [tmod_constant hk, ha.signedInteger_eq hn, movedLeft_natCast]
    exact Long.ofInt_mul_two_pow 54 n (k % 64)

theorem srl_word :
    ∃ w : BitVec 54, srl a (.ofInt k) = .ok (.ofInt w.toInt) ∧
      (n ≠ -2 ^ 53 → w = word n >>> (k % 64)) := by
  refine ⟨word (movedRight (unsignedInteger a) ((Binary64.ofInt k).whole.tmod 64)), ?_, ?_⟩
  · rw [srl_eq_residue ha.accepts (acceptsInt32_constant hk), BitVec.toInt_ofInt]
    rfl
  · intro hn
    have hquotient : ((word n).toNat : Int) / 2 ^ (k % 64) =
        (((word n).toNat / 2 ^ (k % 64) : Nat) : Int) := by
      rw [Int.natCast_ediv, Int.natCast_pow]
      rfl
    rw [tmod_constant hk, ha.unsignedInteger_eq hn, movedRight_natCast, hquotient]
    exact Long.ofInt_div_two_pow (word n) (k % 64)

theorem sra_word :
    ∃ w : BitVec 54, sra a (.ofInt k) = .ok (.ofInt w.toInt) ∧
      (n ≠ -2 ^ 53 → w = (word n).sshiftRight (k % 64)) := by
  refine ⟨word (movedRight (signedInteger a) ((Binary64.ofInt k).whole.tmod 64)), ?_, ?_⟩
  · rw [sra_eq_residue ha.accepts (acceptsInt32_constant hk), BitVec.toInt_ofInt]
    rfl
  · intro hn
    have hvalue : (word n).toInt = n := BitVec.toInt_ofInt_eq_self (by decide) ha.lower ha.upper
    rw [tmod_constant hk, ha.signedInteger_eq hn, movedRight_natCast]
    unfold BitVec.sshiftRight
    rw [hvalue, Int.shiftRight_eq_div_pow, Int.natCast_pow]
    rfl

end Shifts

theorem low_extract {field : BitField} (h : field.Inside) (n : Long) :
    (field.extract n).low = readField field.start.toNat field.length.toNat n.low := by
  have hend := h.fits
  unfold readField Long.low
  apply BitVec.eq_of_getLsbD_eq
  intro i hi
  rw [BitVec.getLsbD_setWidth, BitField.getLsbD_extract h n (by omega), BitVec.getLsbD_setWidth,
    BitVec.getLsbD_extractLsb', BitVec.getLsbD_setWidth, BitVec.getLsbD_setWidth]
  by_cases hlength : i < field.length.toNat
  · have hplace : field.start.toNat + i < 53 := by omega
    have hword : field.start.toNat + i < 54 := by omega
    simp [hi, hlength, hplace, hword]
  · simp [hlength]

theorem low_insert {field : BitField} (h : field.Inside) (n value : Long) :
    (field.insert n value).low =
      writeField field.start.toNat field.length.toNat n.low value.low := by
  have hend := h.fits
  unfold writeField Long.low
  apply BitVec.eq_of_getLsbD_eq
  intro i hi
  simp only [BitVec.getLsbD_setWidth, BitField.getLsbD_insert h, BitVec.getLsbD_or,
    BitVec.getLsbD_and, BitVec.getLsbD_not, BitVec.getLsbD_shiftLeft, BitVec.getLsbD_allOnes]
  by_cases hplace : field.start.toNat ≤ i ∧ i < field.start.toNat + field.length.toNat
  · have hoffset : i - field.start.toNat < field.length.toNat := by omega
    have hbit : i - field.start.toNat < 54 := by omega
    simp [hplace, hi, hoffset, hbit, Nat.not_lt.2 hplace.1]
  · have hoff : field.start.toNat ≤ i → ¬i - field.start.toNat < field.length.toNat := by omega
    by_cases hbelow : i < field.start.toNat
    · simp [hplace, hi, hbelow]
    · simp [hplace, hi, hbelow, hoff (by omega)]

theorem ofOperands_word {start length : Int32} (h : BitField.Valid start.toInt length.toInt) :
    ∃ field, BitField.ofOperands (.ofInt start.toInt) (.ofInt length.toInt) = .ok field ∧
      field.Inside ∧ field.start.toNat = start.toInt.toNat ∧
      field.length.toNat = length.toInt.toNat := by
  obtain ⟨hstart, hlength, hend⟩ := h.bounds
  have hstartWhole : (Binary64.ofInt start.toInt).whole = start.toInt :=
    Binary64.whole_ofInt (by omega)
  have hlengthWhole : (Binary64.ofInt length.toInt).whole = length.toInt :=
    Binary64.whole_ofInt (by omega)
  have hfield := BitField.ofOperands_of_accepts
    (Long.acceptsInt32_ofInt (n := start.toInt) (by omega) (by omega))
    (Long.acceptsInt32_ofInt (n := length.toInt) (by omega) (by omega))
    (by rwa [hstartWhole, hlengthWhole])
  rwa [hstartWhole, hlengthWhole] at hfield

theorem ext_word {a : Binary64} {n : Int} (ha : Holds a n) {start length : Int32}
    (h : BitField.Valid start.toInt length.toInt) :
    ∃ w : BitVec 54, ext a (.ofInt start.toInt) (.ofInt length.toInt) = .ok (.ofInt w.toInt) ∧
      (n ≠ -2 ^ 53 → w = readField start.toInt.toNat length.toInt.toNat (word n)) := by
  obtain ⟨field, hfield, hinside, hstart, hlength⟩ := ofOperands_word h
  refine ⟨(field.extract (long .unsigned n)).low, ?_, ?_⟩
  · unfold ext
    rw [hfield, ha.ofOperand]
    exact congrArg Except.ok (Long.decode_eq _)
  · intro hn
    rw [low_extract hinside, ha.low_long hn, hstart, hlength]

theorem ins_word {a b : Binary64} {m n : Int} (ha : Holds a m) (hb : Holds b n)
    {start length : Int32} (h : BitField.Valid start.toInt length.toInt) :
    ∃ w : BitVec 54,
      ins a (.ofInt start.toInt) (.ofInt length.toInt) b = .ok (.ofInt w.toInt) ∧
      (m ≠ -2 ^ 53 → n ≠ -2 ^ 53 →
        w = writeField start.toInt.toNat length.toInt.toNat (word m) (word n)) := by
  obtain ⟨field, hfield, hinside, hstart, hlength⟩ := ofOperands_word h
  refine ⟨(field.insert (lowWord a) (long .unsigned n)).low, ?_, ?_⟩
  · unfold ins
    rw [hfield, hb.ofOperand]
    exact congrArg Except.ok (Long.decode_eq _)
  · intro hm hn
    rw [low_insert hinside, low_lowWord, Binary64.whole_of_integer? ha.integer, hb.low_long hn,
      hstart, hlength]

end LogicChip.Bitwise

import LogicChip.Proofs.Constant.Remainder

namespace LogicChip.NameHash

/-- The highest bit of the polynomial tells whether the bit that was divided out was set. -/
theorem eq_zero_of_divideBit {r : Remainder} (h : divideBit r = 0#32) : r = 0#32 := by
  have hbits : ∀ i, (r.getLsbD (1 + i) ^^ (r.getLsbD 0 && (0xEDB88320#32).getLsbD i)) = false := by
    intro i
    rw [← getLsbD_divideBit, h, BitVec.getLsbD_zero]
  have hlow : r.getLsbD 0 = false := by
    have hhighest := hbits 31
    rw [BitVec.getLsbD_of_ge r (1 + 31) (by decide)] at hhighest
    simpa using hhighest
  apply BitVec.eq_of_getLsbD_eq
  intro i _
  cases i with
  | zero => rw [hlow, BitVec.getLsbD_zero]
  | succ i =>
    have hnext := hbits i
    rw [hlow, Bool.false_and, Bool.xor_false, Nat.add_comm] at hnext
    rw [hnext, BitVec.getLsbD_zero]

theorem divideBit_injective : Function.Injective divideBit := by
  intro r s h
  rw [← BitVec.xor_eq_zero_iff]
  apply eq_zero_of_divideBit
  rw [divideBit_xor, h, BitVec.xor_self]

/-- Bytes that follow keep remainders apart. -/
theorem foldl_divideByte_injective (bytes : List UInt8) :
    Function.Injective fun r => bytes.foldl divideByte r := by
  induction bytes with
  | nil => exact Function.injective_id
  | cons byte rest ih =>
    intro r s h
    have hbyte := (divideBit_injective.iterate 8) (ih h)
    exact (BitVec.xor_left_inj _).1 hbyte

/-- Bytes as one word, the first of them lowest. -/
def word : List UInt8 → Remainder
  | [] => 0#32
  | byte :: rest => byte.toBitVec.setWidth 32 ^^^ (word rest <<< 8)

theorem getLsbD_word_of_le {bytes : List UInt8} {i : Nat} (h : 8 * bytes.length ≤ i) :
    (word bytes).getLsbD i = false := by
  induction bytes generalizing i with
  | nil => simp [word]
  | cons byte rest ih =>
    rw [List.length_cons] at h
    simp [word, BitVec.getLsbD_of_ge byte.toBitVec i (by omega), ih (i := i - 8) (by omega)]

/-- Up to three bytes leave room for one below them. -/
theorem iterate_divideBit_word {bytes : List UInt8} (h : bytes.length ≤ 3) :
    divideBit^[8] (word bytes <<< 8) = word bytes :=
  iterate_divideBit_shiftLeft fun i hi => getLsbD_word_of_le (by omega)

/-- Up to four bytes are added to the remainder as one word, and then all of their bits are divided
out. -/
theorem foldl_divideByte_short {bytes : List UInt8} (h : bytes.length ≤ 4) (r : Remainder) :
    bytes.foldl divideByte r = divideBit^[8 * bytes.length] (r ^^^ word bytes) := by
  induction bytes generalizing r with
  | nil => simp [word]
  | cons byte rest ih =>
    have hrest : rest.length ≤ 3 := Nat.le_of_succ_le_succ h
    calc (byte :: rest).foldl divideByte r
        = divideBit^[8 * rest.length] (divideByte r byte ^^^ word rest) := ih (by omega) _
      _ = divideBit^[8 * rest.length] (divideBit^[8] (r ^^^ word (byte :: rest))) := by
        rw [word, ← BitVec.xor_assoc, iterate_divideBit_xor 8, iterate_divideBit_word hrest,
          divideByte]
      _ = divideBit^[8 * (byte :: rest).length] (r ^^^ word (byte :: rest)) := by
        rw [← Function.iterate_add_apply, List.length_cons, Nat.mul_succ]

theorem setWidth_word (byte : UInt8) (rest : List UInt8) :
    (word (byte :: rest)).setWidth 8 = byte.toBitVec := by
  apply BitVec.eq_of_getLsbD_eq
  intro i hi
  simp [word, hi]

/-- A word holds each of its bytes. -/
theorem eq_of_word_eq {first second : List UInt8} (hlength : first.length = second.length)
    (hshort : first.length ≤ 4) (h : word first = word second) : first = second := by
  induction first generalizing second with
  | nil => exact (List.length_eq_zero_iff.1 hlength.symm).symm
  | cons byte rest ih =>
    cases second with
    | nil => cases hlength
    | cons other others =>
      have hbyte : byte.toBitVec = other.toBitVec := by
        rw [← setWidth_word byte rest, h, setWidth_word]
      obtain rfl := UInt8.toBitVec_inj.1 hbyte
      have hrest : rest.length = others.length := Nat.succ.inj hlength
      have hthree : rest.length ≤ 3 := Nat.le_of_succ_le_succ hshort
      have hword : word rest = word others := by
        have hmoved := congrArg divideBit^[8] ((BitVec.xor_right_inj _).1 h)
        rwa [iterate_divideBit_word hthree, iterate_divideBit_word (hrest ▸ hthree)] at hmoved
      rw [ih hrest (by omega) hword]

/-- Up to four bytes can be told from the remainders before and after them. -/
theorem eq_of_foldl_divideByte_eq {first second : List UInt8} {r : Remainder}
    (hlength : first.length = second.length) (hshort : first.length ≤ 4)
    (h : first.foldl divideByte r = second.foldl divideByte r) : first = second := by
  rw [foldl_divideByte_short hshort, foldl_divideByte_short (hlength ▸ hshort), hlength] at h
  have hword := (BitVec.xor_right_inj _).1 (divideBit_injective.iterate _ h)
  exact eq_of_word_eq hlength hshort hword

theorem eq_of_checksum_eq {before first second after : List UInt8}
    (hlength : first.length = second.length) (hshort : first.length ≤ 4)
    (h : checksum (before ++ first ++ after) = checksum (before ++ second ++ after)) :
    first = second := by
  have hremainder := BitVec.not_inj.1 (BitVec.toInt_inj.1 h)
  simp only [List.foldl_append] at hremainder
  exact eq_of_foldl_divideByte_eq hlength hshort (foldl_divideByte_injective after hremainder)

/-- Names whose UTF-8 bytes differ only within four adjacent ones have different hashes. -/
theorem ofName_ne_of_adjacent_bytes {first second : String}
    {before changed replaced after : List UInt8}
    (hfirst : first.toUTF8.data.toList = before ++ changed ++ after)
    (hsecond : second.toUTF8.data.toList = before ++ replaced ++ after)
    (hlength : changed.length = replaced.length) (hshort : changed.length ≤ 4)
    (hne : changed ≠ replaced) : ofName first ≠ ofName second := by
  intro h
  have hchecksum : checksum (before ++ changed ++ after) =
      checksum (before ++ replaced ++ after) := by
    rw [← hfirst, ← hsecond, ← ofName_eq_checksum, ← ofName_eq_checksum, h]
  exact hne (eq_of_checksum_eq hlength hshort hchecksum)

/-- Two names that differ in the four bytes of a metal. -/
theorem ofName_ne_of_metals :
    let before := "Item".toUTF8.data.toList
    let changed := "Iron".toUTF8.data.toList
    let replaced := "Gold".toUTF8.data.toList
    let after := "Ingot".toUTF8.data.toList
    ("ItemIronIngot".toUTF8.data.toList = before ++ changed ++ after ∧
      "ItemGoldIngot".toUTF8.data.toList = before ++ replaced ++ after ∧
      changed.length = replaced.length ∧ changed.length ≤ 4 ∧ changed ≠ replaced) ∧
    ofName "ItemIronIngot" ≠ ofName "ItemGoldIngot" := by
  intro before changed replaced after
  have hfirst : "ItemIronIngot".toUTF8.data.toList = before ++ changed ++ after := by decide
  have hsecond : "ItemGoldIngot".toUTF8.data.toList = before ++ replaced ++ after := by decide
  have hlength : changed.length = replaced.length := by decide
  have hshort : changed.length ≤ 4 := by decide
  have hne : changed ≠ replaced := by decide
  exact ⟨⟨hfirst, hsecond, hlength, hshort, hne⟩,
    ofName_ne_of_adjacent_bytes hfirst hsecond hlength hshort hne⟩

end LogicChip.NameHash

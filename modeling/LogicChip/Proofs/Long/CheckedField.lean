import LogicChip.Proofs.Long.BitField

namespace LogicChip.BitField

namespace Checked

/-- A shift to the left, if it is by less than the width of a long. -/
def shiftLeft? (n : Long) (bits : UInt32) : Option Long :=
  if bits.toNat < 64 then some (n <<< shiftCount bits) else none

/-- A shift to the right, if it is by less than the width of a long. -/
def shiftRight? (n : Long) (bits : UInt32) : Option Long :=
  if bits.toNat < 64 then some (n >>> shiftCount bits) else none

/-- The difference of two longs, if it is a long. -/
def sub? (m n : Long) : Option Long :=
  if (m - n).toInt = m.toInt - n.toInt then some (m - n) else none

/-- The sum of two numbers of bits, if it is one. -/
def add? (m n : UInt32) : Option UInt32 :=
  if (m + n).toNat = m.toNat + n.toNat then some (m + n) else none

def widthMask? (field : BitField) : Option Long :=
  if field.length.toNat = width then some Long.mask53
  else do
    let unit ← shiftLeft? 1 field.length
    sub? unit 1

def regionMask? (field : BitField) : Option Long := do
  let mask ← widthMask? field
  shiftLeft? mask field.start

def extract? (field : BitField) (word : Long) : Option Long := do
  let region ← regionMask? field
  shiftRight? ((word &&& Long.mask53) &&& region) field.start

def insert? (field : BitField) (word value : Long) : Option Long := do
  let region ← regionMask? field
  let mask ← widthMask? field
  let moved ← shiftLeft? (value &&& Long.mask53 &&& mask) field.start
  pure ((((word &&& Long.mask53) &&& ~~~region) ||| (moved &&& region)) &&& Long.mask53)

def text? (field : BitField) : Option (List Char) := do
  let stop ← add? field.start field.length
  pure ('[' :: Text.digits field.start.toNat ++ ['.', '.'] ++ Text.digits stop.toNat ++ [')'])

theorem toInt_unit {bits : UInt32} (h : bits.toNat < 64) : ((1 : Long) <<< shiftCount bits).toInt =
    if bits.toNat < 63 then 2 ^ bits.toNat else -2 ^ 63 := by
  have hone : (1 : Long).toBitVec.toNat = 1 := by decide
  have hword : ((1 : Long) <<< shiftCount bits).toBitVec.toNat = 2 ^ bits.toNat := by
    have hpower : 2 ^ bits.toNat < 2 ^ 64 := Nat.pow_lt_pow_right (by decide) h
    rw [Bitwise.toBitVec_shiftLeft_of_lt 1 h toInt_shiftCount, BitVec.toNat_shiftLeft, hone,
      Nat.one_shiftLeft, Nat.mod_eq_of_lt hpower]
  change ((1 : Long) <<< shiftCount bits).toBitVec.toInt = _
  rw [BitVec.toInt_eq_toNat_cond, hword]
  by_cases hsmall : bits.toNat < 63
  · have hpower : 2 ^ bits.toNat < 2 ^ 63 := Nat.pow_lt_pow_right (by decide) hsmall
    rw [if_pos (by omega), if_pos hsmall, Int.natCast_pow]
    rfl
  · have hlast : bits.toNat = 63 := by omega
    rw [hlast, if_neg (by decide), if_neg (by decide)]
    decide

/-- One place short of the sign there is a mask of all lower bits. -/
theorem sub?_unit {bits : UInt32} (h : bits.toNat < 64) :
    sub? ((1 : Long) <<< shiftCount bits) 1 =
      if bits.toNat < 63 then some (((1 : Long) <<< shiftCount bits) - 1) else none := by
  have hunit := toInt_unit h
  have hone : (1 : Long).toInt = 1 := by decide
  unfold sub?
  rw [Int64.toInt_sub, hunit, hone]
  by_cases hsmall : bits.toNat < 63
  · have hpower : (2 : Int) ^ bits.toNat ≤ 2 ^ 62 := by
      exact_mod_cast Nat.pow_le_pow_right (by decide : 0 < 2) (by omega : bits.toNat ≤ 62)
    have hpos : (0 : Int) < 2 ^ bits.toNat := Int.pow_pos (by decide)
    rw [if_pos hsmall, if_pos hsmall, Int.bmod_eq_of_le (by omega) (by omega), if_pos rfl]
  · rw [if_neg hsmall, if_neg hsmall, if_neg (by decide)]

variable {field : BitField}

theorem widthMask?_eq (field : BitField) : widthMask? field =
    if field.length.toNat < 63 then some field.widthMask else none := by
  unfold widthMask? BitField.widthMask
  by_cases hfull : field.length.toNat = width
  · have hsmall : field.length.toNat < 63 := by
      rw [hfull]
      decide
    rw [if_pos hfull, if_pos hfull, if_pos hsmall]
  · rw [if_neg hfull, if_neg hfull]
    by_cases hshort : field.length.toNat < 64
    · rw [shiftLeft?, if_pos hshort]
      exact sub?_unit hshort
    · rw [shiftLeft?, if_neg hshort, if_neg (by omega)]
      rfl

/-- The start and the length are small enough for words of 64 bits. -/
def Fits (field : BitField) : Prop := field.start.toNat < 64 ∧ field.length.toNat < 63

theorem regionMask?_of_fits (h : Fits field) : regionMask? field = some field.regionMask := by
  rw [regionMask?, widthMask?_eq, if_pos h.2]
  exact if_pos h.1

theorem fits_of_regionMask? {mask : Long} (h : regionMask? field = some mask) : Fits field := by
  rw [regionMask?, widthMask?_eq] at h
  by_cases hlength : field.length.toNat < 63
  · rw [if_pos hlength] at h
    by_cases hstart : field.start.toNat < 64
    · exact ⟨hstart, hlength⟩
    · have hnone : shiftLeft? field.widthMask field.start = none := if_neg hstart
      rw [Option.bind_eq_bind, Option.bind_some, hnone] at h
      cases h
  · rw [if_neg hlength] at h
    cases h

theorem extract?_of_fits (h : Fits field) (word : Long) :
    extract? field word = some (field.extract word) := by
  rw [extract?, regionMask?_of_fits h]
  exact if_pos h.1

theorem insert?_of_fits (h : Fits field) (word value : Long) :
    insert? field word value = some (field.insert word value) := by
  rw [insert?, regionMask?_of_fits h, widthMask?_eq, if_pos h.2]
  simp only [Option.bind_eq_bind, Option.bind_some, shiftLeft?, if_pos h.1]
  rfl

theorem text?_of_fits (h : Fits field) : text? field = some field.text := by
  obtain ⟨hstart, hlength⟩ := h
  have hsum : (field.start + field.length).toNat = field.start.toNat + field.length.toNat := by
    rw [UInt32.toNat_add]
    omega
  rw [text?, add?, if_pos hsum]
  rfl

/-- All that a field is used for succeeds on checked words, on whatever word and value. -/
structure Serves (field : BitField) : Prop where
  widthMask : widthMask? field = some field.widthMask
  regionMask : regionMask? field = some field.regionMask
  extract : ∀ word, extract? field word = some (field.extract word)
  insert : ∀ word value, insert? field word value = some (field.insert word value)
  text : text? field = some field.text

theorem serves_iff : Serves field ↔ field.start.toNat < 64 ∧ field.length.toNat < 63 := by
  constructor
  · intro h
    exact fits_of_regionMask? h.regionMask
  · intro h
    exact ⟨(widthMask?_eq field).trans (if_pos h.2), regionMask?_of_fits h, extract?_of_fits h,
      insert?_of_fits h, text?_of_fits h⟩

end Checked

section Inside

variable {field : BitField} (h : field.Inside)

/-- A long without bits from a place below its sign on lies below the power of two of that place. -/
theorem toInt_bounds_of_clear {n : Long} {bits : Nat} (hbits : bits < 64)
    (hclear : ∀ i, bits ≤ i → i < 64 → n.toBitVec.getLsbD i = false) :
    0 ≤ n.toInt ∧ n.toInt < 2 ^ bits := by
  have hword : n.toBitVec.toNat < 2 ^ bits := by
    refine Nat.lt_pow_two_of_testBit _ fun i hi => ?_
    by_cases hplace : i < 64
    · exact hclear i hi hplace
    · exact BitVec.getLsbD_of_ge _ _ (Nat.le_of_not_lt hplace)
  have hhalf : 2 ^ bits ≤ 2 ^ 63 := Nat.pow_le_pow_right (by decide) (by omega)
  change 0 ≤ n.toBitVec.toInt ∧ n.toBitVec.toInt < 2 ^ bits
  rw [BitVec.toInt_eq_toNat_cond, if_pos (by omega)]
  exact ⟨Int.natCast_nonneg _, by exact_mod_cast hword⟩

include h

theorem Inside.serves : Checked.Serves field := by
  have hend := h.fits
  exact Checked.serves_iff.2 ⟨by omega, by omega⟩

/-- What is read is a number of as many bits as the field is long. -/
theorem extract_bounds (word : Long) :
    0 ≤ (field.extract word).toInt ∧ (field.extract word).toInt < 2 ^ field.length.toNat := by
  have hend := h.fits
  refine toInt_bounds_of_clear (by omega) fun i hi hplace => ?_
  rw [getLsbD_extract h word hplace, decide_eq_false (Nat.not_lt.2 hi), Bool.false_and]

/-- What is written is a number of 53 bits. -/
theorem insert_bounds (word value : Long) :
    0 ≤ (field.insert word value).toInt ∧ (field.insert word value).toInt < 2 ^ 53 := by
  have hend := h.fits
  refine toInt_bounds_of_clear (by decide) fun i hi hplace => ?_
  rw [getLsbD_insert h, if_neg (by omega), decide_eq_false (by omega), Bool.false_and]

/-- The low 53 bits of the word stay as they are outside the field. -/
theorem getLsbD_insert_outside (word value : Long) {i : Nat} (hi : i < 53)
    (houtside : i < field.start.toNat ∨ field.start.toNat + field.length.toNat ≤ i) :
    (field.insert word value).toBitVec.getLsbD i = word.toBitVec.getLsbD i := by
  rw [getLsbD_insert h, if_neg (by omega), decide_eq_true hi, Bool.true_and]

end Inside

end LogicChip.BitField

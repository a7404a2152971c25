import LogicChip.Operation.Bitwise
import LogicChip.Proofs.Long.Shift

namespace LogicChip.BitField

/-- Fields are not empty and lie within the low 53 bits. -/
def Valid (start length : Int) : Prop := 0 ≤ start ∧ 0 < length ∧ start + length ≤ width

instance (start length : Int) : Decidable (Valid start length) :=
  inferInstanceAs (Decidable (_ ∧ _ ∧ _))

/-- The field lies within the low 53 bits and is not empty. -/
def Inside (field : BitField) : Prop :=
  0 < field.length.toNat ∧ field.start.toNat + field.length.toNat ≤ width

theorem Inside.fits {field : BitField} (h : field.Inside) :
    field.start.toNat + field.length.toNat ≤ 53 := h.2

theorem Valid.bounds {start length : Int} (h : Valid start length) :
    0 ≤ start ∧ 0 < length ∧ start + length ≤ 53 := h

theorem toNat_toUInt32 {n : Int32} (h : 0 ≤ n.toInt) : n.toUInt32.toNat = n.toInt.toNat := by
  have hread := BitVec.toInt_eq_toNat_cond n.toBitVec
  change n.toInt = _ at hread
  change n.toBitVec.toNat = _
  split at hread <;> omega

/-- A start and a length are accepted if they describe a field: the bounds on each alone follow from
the one on their sum, and the sum of the words is their sum. -/
theorem admits_iff_valid {start length : Int32} :
    Admits start length ↔ Valid start.toInt length.toInt := by
  have hzero : (0 : Int32).toInt = 0 := by decide
  have hwidth : (UInt32.ofNat width).toNat = 53 := by decide
  have hsum : (start.toUInt32 + length.toUInt32).toNat =
      (start.toUInt32.toNat + length.toUInt32.toNat) % 2 ^ 32 := UInt32.toNat_add _ _
  unfold Admits Valid
  rw [Int32.lt_iff_toInt_lt, Int32.le_iff_toInt_le, UInt32.lt_iff_toNat_lt, UInt32.le_iff_toNat_le,
    UInt32.le_iff_toNat_le, hzero, hwidth, hsum]
  constructor
  · rintro ⟨hlength, hstart, hstartWidth, hlengthWidth, hend⟩
    have hstartNat := toNat_toUInt32 hstart
    have hlengthNat := toNat_toUInt32 (Int.le_of_lt hlength)
    refine ⟨hstart, hlength, ?_⟩
    change _ ≤ (53 : Int)
    omega
  · rintro ⟨hstart, hlength, hend⟩
    have hstartNat := toNat_toUInt32 hstart
    have hlengthNat := toNat_toUInt32 (Int.le_of_lt hlength)
    change _ ≤ (53 : Int) at hend
    exact ⟨hlength, hstart, by omega, by omega, by omega⟩

theorem new_of_valid {start length : Int32} (h : Valid start.toInt length.toInt) :
    ∃ field, new start length = .ok field ∧ field.Inside ∧
      field.start.toNat = start.toInt.toNat ∧ field.length.toNat = length.toInt.toNat := by
  obtain ⟨hstart, hlength, hend⟩ := h
  have hstartNat := toNat_toUInt32 hstart
  have hlengthNat := toNat_toUInt32 (Int.le_of_lt hlength)
  have hinside : 0 < length.toUInt32.toNat ∧
      start.toUInt32.toNat + length.toUInt32.toNat ≤ width := by omega
  have hadmits : Admits start length := admits_iff_valid.2 ⟨hstart, hlength, hend⟩
  exact ⟨⟨start.toUInt32, length.toUInt32⟩, if_pos hadmits, hinside, hstartNat, hlengthNat⟩

/-- A field lies within the low 53 bits if its start and length are valid. -/
theorem inside_iff_valid {field : BitField} {start length : Int}
    (hstart : (field.start.toNat : Int) = start) (hlength : (field.length.toNat : Int) = length) :
    field.Inside ↔ Valid start length := by
  unfold Inside Valid
  omega

/-- The fields that are made are those that lie within the low 53 bits, each of its own start and
length alone. -/
theorem new_eq_ok_iff {start length : Int32} {field : BitField} : new start length = .ok field ↔
    field.Inside ∧ (field.start.toNat : Int) = start.toInt ∧
      (field.length.toNat : Int) = length.toInt := by
  constructor
  · intro h
    have hvalid : Valid start.toInt length.toInt := Decidable.byContradiction fun hnot => by
      rw [new, if_neg (mt admits_iff_valid.1 hnot)] at h
      cases h
    obtain ⟨made, hmade, hinside, hstart, hlength⟩ := new_of_valid hvalid
    obtain ⟨hstartSign, hlengthSign, _⟩ := hvalid.bounds
    rw [hmade] at h
    cases h
    exact ⟨hinside, by omega, by omega⟩
  · rintro ⟨hinside, hstart, hlength⟩
    obtain ⟨made, hmade, _, hmadeStart, hmadeLength⟩ :=
      new_of_valid ((inside_iff_valid hstart hlength).1 hinside)
    have hstarts : made.start = field.start := UInt32.toNat_inj.1 (by omega)
    have hlengths : made.length = field.length := UInt32.toNat_inj.1 (by omega)
    have hfield : (⟨made.start, made.length⟩ : BitField) = ⟨field.start, field.length⟩ := by
      rw [hstarts, hlengths]
    exact hmade.trans (congrArg Except.ok hfield)

/-- Two operands that are read as a valid start and length describe a field. -/
theorem ofOperands_of_accepts {start length : Binary64} (hstart : Long.AcceptsInt32 start)
    (hlength : Long.AcceptsInt32 length) (h : Valid start.whole length.whole) :
    ∃ field, ofOperands start length = .ok field ∧ field.Inside ∧
      field.start.toNat = start.whole.toNat ∧ field.length.toNat = length.whole.toNat := by
  obtain ⟨m, hreadStart, hstartValue⟩ := Long.int32OfOperand_of_accepts hstart
  obtain ⟨n, hreadLength, hlengthValue⟩ := Long.int32OfOperand_of_accepts hlength
  rw [← hstartValue, ← hlengthValue] at h ⊢
  obtain ⟨field, hfield, hrest⟩ := new_of_valid h
  refine ⟨field, ?_, hrest⟩
  unfold ofOperands
  rw [hreadStart, hreadLength]
  exact hfield

theorem toInt_shiftCount {bits : UInt32} : (shiftCount bits).toInt = bits.toNat := by
  have hbits : bits.toNat < 2 ^ 32 := bits.toNat_lt
  have hword : (shiftCount bits).toBitVec.toNat = bits.toNat := by
    change bits.toUInt64.toNat = _
    exact UInt32.toNat_toUInt64 bits
  change (shiftCount bits).toBitVec.toInt = _
  rw [BitVec.toInt_eq_toNat_cond, hword, if_pos (by omega)]

theorem toBitVec_mask53 : Long.mask53.toBitVec = BitVec.ofNat 64 (2 ^ 53 - 1) := by decide

theorem getLsbD_mask53 (i : Nat) : Long.mask53.toBitVec.getLsbD i = decide (i < 53) := by
  rw [toBitVec_mask53, BitVec.getLsbD_ofNat, Nat.testBit_two_pow_sub_one]
  by_cases h : i < 53
  · have hword : i < 64 := by omega
    simp [h, hword]
  · simp [h]

theorem getLsbD_widthMask {field : BitField} (h : field.Inside) (i : Nat) :
    field.widthMask.toBitVec.getLsbD i = decide (i < field.length.toNat) := by
  have hend := h.fits
  unfold widthMask
  by_cases hfull : field.length.toNat = width
  · rw [if_pos hfull, getLsbD_mask53, hfull]
    rfl
  · rw [if_neg hfull, Int64.toBitVec_sub,
      Bitwise.toBitVec_shiftLeft_of_lt 1 (by omega) toInt_shiftCount]
    have hmask : (1 : Int64).toBitVec <<< field.length.toNat - (1 : Int64).toBitVec =
        BitVec.ofNat 64 (2 ^ field.length.toNat - 1) := by
      apply BitVec.eq_of_toNat_eq
      have hpow : 2 ^ field.length.toNat < 2 ^ 64 := Nat.pow_lt_pow_right (by decide) (by omega)
      have hpos : 0 < 2 ^ field.length.toNat := Nat.two_pow_pos _
      have hone : (1 : Int64).toBitVec.toNat = 1 := by decide
      rw [BitVec.toNat_sub, BitVec.toNat_shiftLeft, BitVec.toNat_ofNat, hone, Nat.shiftLeft_eq]
      omega
    rw [hmask, BitVec.getLsbD_ofNat, Nat.testBit_two_pow_sub_one]
    by_cases hi : i < field.length.toNat
    · have hword : i < 64 := by omega
      simp [hi, hword]
    · simp [hi]

theorem getLsbD_regionMask {field : BitField} (h : field.Inside) (i : Nat) :
    field.regionMask.toBitVec.getLsbD i =
      decide (field.start.toNat ≤ i ∧ i < field.start.toNat + field.length.toNat) := by
  have hend := h.fits
  unfold regionMask
  rw [Bitwise.toBitVec_shiftLeft_of_lt _ (by omega) toInt_shiftCount, BitVec.getLsbD_shiftLeft,
    getLsbD_widthMask h]
  by_cases hlow : field.start.toNat ≤ i
  · by_cases hhigh : i < field.start.toNat + field.length.toNat
    · have hword : i < 64 := by omega
      have hoffset : i - field.start.toNat < field.length.toNat := by omega
      simp [hlow, hhigh, hword, hoffset, Nat.not_lt.2 hlow]
    · have hoffset : ¬i - field.start.toNat < field.length.toNat := by omega
      simp [hhigh, hoffset]
  · simp [hlow, Nat.lt_of_not_le hlow]

/-- Bit `i` of what is read is bit `start + i` of the word, within the length of the field. -/
theorem getLsbD_extract {field : BitField} (h : field.Inside) (word : Long) {i : Nat}
    (hi : i < 64) : (field.extract word).toBitVec.getLsbD i =
      (decide (i < field.length.toNat) && word.toBitVec.getLsbD (field.start.toNat + i)) := by
  have hend := h.fits
  have hclear : ((word &&& Long.mask53) &&& field.regionMask).toBitVec.msb = false := by
    rw [BitVec.msb_eq_getLsbD_last, Int64.toBitVec_and, Int64.toBitVec_and, BitVec.getLsbD_and,
      BitVec.getLsbD_and, getLsbD_mask53]
    simp
  unfold extract
  rw [Bitwise.toBitVec_shiftRight_of_lt _ (by omega) toInt_shiftCount,
    BitVec.getLsbD_sshiftRight, hclear, Int64.toBitVec_and, Int64.toBitVec_and,
    BitVec.getLsbD_and, BitVec.getLsbD_and, getLsbD_mask53, getLsbD_regionMask h]
  by_cases hlength : i < field.length.toNat
  · have hplace : field.start.toNat + i < 53 := by omega
    have hword : field.start.toNat + i < 64 := by omega
    simp [hlength, hplace, hword, Nat.not_le.2 hi]
  · simp [hlength]

/-- Bit `i` of what is written is a bit of the value inside the field and a bit of the word outside
it, among the low 53. -/
theorem getLsbD_insert {field : BitField} (h : field.Inside) (word value : Long) (i : Nat) :
    (field.insert word value).toBitVec.getLsbD i =
      if field.start.toNat ≤ i ∧ i < field.start.toNat + field.length.toNat then
        value.toBitVec.getLsbD (i - field.start.toNat)
      else decide (i < 53) && word.toBitVec.getLsbD i := by
  have hend := h.fits
  have hstart : field.start.toNat < 64 := by omega
  unfold insert
  simp only [Int64.toBitVec_and, Int64.toBitVec_or, Int64.toBitVec_not, BitVec.getLsbD_and,
    BitVec.getLsbD_or, BitVec.getLsbD_not, getLsbD_mask53, getLsbD_regionMask h,
    Bitwise.toBitVec_shiftLeft_of_lt _ hstart toInt_shiftCount,
    BitVec.getLsbD_shiftLeft, getLsbD_widthMask h]
  by_cases hplace : field.start.toNat ≤ i ∧ i < field.start.toNat + field.length.toNat
  · have hlow : i < 53 := by omega
    have hword : i < 64 := by omega
    have hoffset : i - field.start.toNat < field.length.toNat := by omega
    have hbit : i - field.start.toNat < 53 := by omega
    simp [hplace, hlow, hword, hoffset, hbit, Nat.not_lt.2 hplace.1]
  · by_cases hlow : i < 53
    · have hword : i < 64 := by omega
      simp [hplace, hlow, hword]
    · simp [hplace, hlow]

end LogicChip.BitField

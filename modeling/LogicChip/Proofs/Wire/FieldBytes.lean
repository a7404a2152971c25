import LogicChip.Proofs.Long.CheckedField
import LogicChip.Proofs.Operation.Check
import LogicChip.Proofs.Wire.Position

namespace LogicChip.BitField

/-- Operands that make a field are read as its start and length. -/
theorem exists_new_of_ofOperands {start length : Binary64} {field : BitField}
    (h : ofOperands start length = .ok field) : ∃ m n : Int32, m.toInt = start.whole ∧
      n.toInt = length.whole ∧ new m n = .ok field := by
  unfold ofOperands at h
  cases hstart : Long.int32OfOperand start with
  | error fault =>
    rw [hstart] at h
    cases h
  | ok m =>
    cases hlength : Long.int32OfOperand length with
    | error fault =>
      rw [hstart, hlength] at h
      cases h
    | ok n =>
      rw [hstart, hlength] at h
      exact ⟨m, n, Long.toInt_of_int32OfOperand hstart, Long.toInt_of_int32OfOperand hlength, h⟩

end LogicChip.BitField

namespace LogicChip.Wire

open BitField (Inside)
open BitField.Checked (Serves)

/-- Any eight bytes are read as a field, by the numbers that stand in them. -/
theorem bitField_eq_some_iff {field : BitField} {bytes rest : List UInt8} :
    bitField bytes = some (field, rest) ↔
      8 ≤ bytes.length ∧ field.start.toNat = littleEndian (bytes.take 4) ∧
        field.length.toNat = littleEndian ((bytes.drop 4).take 4) ∧ rest = bytes.drop 8 := by
  simp only [bitField, bind_eq_some, pure_eq_some, uint32_eq_some_iff]
  constructor
  · rintro ⟨start, _, ⟨_, hstart, rfl⟩, length, _, ⟨hwidth, hlength, rfl⟩, rfl, rfl⟩
    rw [List.length_drop] at hwidth
    exact ⟨by omega, hstart, hlength, List.drop_drop⟩
  · rintro ⟨hwidth, hstart, hlength, rfl⟩
    refine ⟨field.start, _, ⟨by omega, hstart, rfl⟩, field.length, _, ⟨?_, hlength, rfl⟩, rfl, ?_⟩
    · rw [List.length_drop]
      omega
    · exact List.drop_drop

/-- A start and a length, and operands too, make a field only if it lies within the low 53 bits.
Bytes are read as any field at all, which does so only if the numbers in them do. What a field is
used for succeeds on checked words up to a start of 63 and a length of 62, and a field that lies
within the low 53 bits reads as many bits as it is long, and writes 53 bits, which are those of the
word outside the field. -/
theorem field_inside_unless_decoded (field : BitField) :
    (∀ start length : Int32, BitField.new start length = .ok field ↔
      Inside field ∧ (field.start.toNat : Int) = start.toInt ∧
        (field.length.toNat : Int) = length.toInt) ∧
    (∀ start length : Binary64, BitField.ofOperands start length = .ok field →
      Inside field ∧ (field.start.toNat : Int) = start.whole ∧
        (field.length.toNat : Int) = length.whole) ∧
    (∀ bytes rest : List UInt8,
      let start := littleEndian (bytes.take 4)
      let length := littleEndian ((bytes.drop 4).take 4)
      (bitField bytes = some (field, rest) ↔ 8 ≤ bytes.length ∧ field.start.toNat = start ∧
        field.length.toNat = length ∧ rest = bytes.drop 8) ∧
      (bitField bytes = some (field, rest) →
        (Inside field ↔ 0 < length ∧ start + length ≤ 53))) ∧
    (Serves field ↔ field.start.toNat < 64 ∧ field.length.toNat < 63) ∧
    (Inside field → Serves field ∧
      (∀ word, 0 ≤ (field.extract word).toInt ∧
        (field.extract word).toInt < 2 ^ field.length.toNat) ∧
      ∀ word value, (0 ≤ (field.insert word value).toInt ∧
          (field.insert word value).toInt < 2 ^ 53) ∧
        ∀ i < 53, i < field.start.toNat ∨ field.start.toNat + field.length.toNat ≤ i →
          (field.insert word value).toBitVec.getLsbD i = word.toBitVec.getLsbD i) := by
  refine ⟨fun start length => BitField.new_eq_ok_iff, fun start length h => ?_, ?_,
    BitField.Checked.serves_iff, fun h => ⟨h.serves, BitField.extract_bounds h, ?_⟩⟩
  · obtain ⟨m, n, hm, hn, hnew⟩ := BitField.exists_new_of_ofOperands h
    obtain ⟨hinside, hstart, hlength⟩ := BitField.new_eq_ok_iff.1 hnew
    exact ⟨hinside, hstart.trans hm, hlength.trans hn⟩
  · intro bytes rest start length
    refine ⟨bitField_eq_some_iff, fun h => ?_⟩
    obtain ⟨_, hstart, hlength, _⟩ := bitField_eq_some_iff.1 h
    rw [Inside, hstart, hlength]
    rfl
  · intro word value
    exact ⟨BitField.insert_bounds h word value, fun i hi houtside =>
      BitField.getLsbD_insert_outside h word value hi houtside⟩

theorem field_inside_unless_decoded_of_byte :
    BitField.new 8 8 = .ok ⟨8, 8⟩ ∧ Inside ⟨8, 8⟩ ∧
      bitField [8, 0, 0, 0, 8, 0, 0, 0] = some (⟨8, 8⟩, []) ∧ Serves ⟨8, 8⟩ ∧
      ((BitField.mk 8 8).insert 0x3400 (-1)).toBitVec.getLsbD 16 = false := by
  obtain ⟨hnew, _, hread, _, hinside⟩ := field_inside_unless_decoded ⟨8, 8⟩
  have hfield : Inside ⟨8, 8⟩ := (BitField.inside_iff_valid rfl rfl).2 (by decide)
  have hmade : BitField.new 8 8 = .ok ⟨8, 8⟩ := (hnew 8 8).2 ⟨hfield, by decide, by decide⟩
  obtain ⟨hserves, _, hinsert⟩ := hinside hfield
  exact ⟨hmade, hfield, (hread _ _).1.2 (by decide), hserves,
    (hinsert 0x3400 (-1)).2 16 (by decide) (.inr (by decide))⟩

/-- Bytes are read as a field beyond the low 53 bits, and as one whose bits cannot be masked. -/
theorem decoded_field_not_inside :
    bitField [53, 0, 0, 0, 1, 0, 0, 0] = some (⟨53, 1⟩, []) ∧ ¬Inside ⟨53, 1⟩ ∧
      bitField [64, 0, 0, 0, 1, 0, 0, 0] = some (⟨64, 1⟩, []) ∧ ¬Inside ⟨64, 1⟩ ∧
      BitField.Checked.regionMask? ⟨64, 1⟩ = none := by
  have houtside : ∀ {start : UInt32}, 53 ≤ start.toNat → ¬Inside ⟨start, 1⟩ := by
    intro start hstart h
    have hend : start.toNat + (1 : UInt32).toNat ≤ 53 := h.fits
    have hone : (1 : UInt32).toNat = 1 := by decide
    omega
  exact ⟨bitField_eq_some_iff.2 (by decide), houtside (by decide),
    bitField_eq_some_iff.2 (by decide), houtside (by decide), rfl⟩

end LogicChip.Wire

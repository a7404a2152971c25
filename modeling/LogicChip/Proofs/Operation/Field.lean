import LogicChip.Proofs.Long.Payload

namespace LogicChip.Bitwise

open Binary64 (ofPayload)
open Long (Accepts AcceptsInt32)

/-- Two operands that describe a field of the low 53 bits. -/
structure DescribesField (start length : Binary64) : Prop where
  acceptsStart : AcceptsInt32 start
  acceptsLength : AcceptsInt32 length
  valid : BitField.Valid start.whole length.whole

theorem describesField_ofInt {start length : Int} (h : BitField.Valid start length) :
    DescribesField (.ofInt start) (.ofInt length) := by
  obtain ⟨hstart, hlength, hend⟩ := h.bounds
  refine ⟨Long.acceptsInt32_ofInt (by omega) (by omega),
    Long.acceptsInt32_ofInt (by omega) (by omega), ?_⟩
  rwa [Binary64.whole_ofInt (by omega), Binary64.whole_ofInt (by omega)]

section Instructions

variable {start length : Binary64}

/-- The range that two operands describe. -/
def DescribesField.span (h : DescribesField start length) : Span where
  start := start.whole.toNat
  length := length.whole.toNat
  fits := by
    obtain ⟨hstart, hlength, hend⟩ := h.valid.bounds
    omega

@[simp] theorem DescribesField.span_start (h : DescribesField start length) :
    h.span.start = start.whole.toNat := rfl

@[simp] theorem DescribesField.span_length (h : DescribesField start length) :
    h.span.length = length.whole.toNat := rfl

theorem DescribesField.exists_field (h : DescribesField start length) :
    ∃ (field : BitField) (hinside : field.Inside),
      BitField.ofOperands start length = .ok field ∧ field.span hinside = h.span := by
  obtain ⟨field, hfield, hinside, hstart, hlength⟩ :=
    BitField.ofOperands_of_accepts h.acceptsStart h.acceptsLength h.valid
  refine ⟨field, hinside, hfield, ?_⟩
  unfold BitField.span DescribesField.span
  simp only [hstart, hlength]

theorem ext_payload (h : DescribesField start length) {a : Binary64} (ha : Accepts a) :
    ext a start length = .ok (ofPayload (h.span.read a.payload)) := by
  obtain ⟨field, hinside, hfield, hspan⟩ := h.exists_field
  obtain ⟨n, hoperand, hpayload⟩ := Long.ofOperand_payload .unsigned ha
  have hdecoded := Long.decode_of_toBitVec (BitField.toBitVec_extract hinside n)
  rw [hspan, hpayload] at hdecoded
  unfold ext
  rw [hfield, hoperand]
  exact congrArg Except.ok hdecoded

theorem ins_payload (h : DescribesField start length) (target : Binary64) {value : Binary64}
    (hvalue : Accepts value) :
    ins target start length value =
      .ok (ofPayload (h.span.write target.payload value.payload)) := by
  obtain ⟨field, hinside, hfield, hspan⟩ := h.exists_field
  obtain ⟨n, hoperand, hpayload⟩ := Long.ofOperand_payload .unsigned hvalue
  have hdecoded := Long.decode_of_toBitVec (BitField.toBitVec_insert hinside (lowWord target) n)
  rw [hspan, hpayload, Long.payload_lowWord] at hdecoded
  unfold ins
  rw [hfield, hoperand]
  exact congrArg Except.ok hdecoded

end Instructions

/-- A natural number below `2 ^ 53` with the bits of a target, but the low bits of a value from bit
`start` on. -/
structure Replaces (start length target value n : Int) : Prop where
  nonneg : 0 ≤ n
  upper : n < 2 ^ 53
  bits : ∀ i : Nat, i < 53 → n.testBit i =
    if start ≤ i ∧ i < start + length then value.testBit (i - start.toNat)
    else target.testBit i

theorem Replaces.unique {start length target value m n : Int}
    (hm : Replaces start length target value m) (hn : Replaces start length target value n) :
    m = n := by
  have hword : BitVec.ofInt 53 m = BitVec.ofInt 53 n := by
    apply BitVec.eq_of_getLsbD_eq
    intro i hi
    rw [Long.getLsbD_ofInt, Long.getLsbD_ofInt, hm.bits i hi, hn.bits i hi]
  have hnat := congrArg BitVec.toNat hword
  have hmLower := hm.nonneg
  have hmUpper := hm.upper
  have hnLower := hn.nonneg
  have hnUpper := hn.upper
  rw [BitVec.toNat_ofInt, BitVec.toNat_ofInt] at hnat
  omega

theorem testBit_toNat (w : BitVec 53) (i : Nat) : (w.toNat : Int).testBit i = w.getLsbD i := rfl

theorem replaces_write {start length : Binary64} (h : DescribesField start length)
    (target value : Binary64) :
    Replaces start.whole length.whole target.whole value.whole
      (h.span.write target.payload value.payload).toNat := by
  have hlt := (h.span.write target.payload value.payload).isLt
  obtain ⟨hstart, hlength, hend⟩ := h.valid.bounds
  refine ⟨by omega, by omega, ?_⟩
  intro i hi
  rw [testBit_toNat, Span.getLsbD_write]
  unfold Binary64.payload
  rw [Long.getLsbD_ofInt, Long.getLsbD_ofInt]
  have hcovered : h.span.start ≤ i ∧ i < h.span.start + h.span.length ↔
      start.whole ≤ i ∧ i < start.whole + length.whole := by
    rw [h.span_start, h.span_length]
    omega
  by_cases hplace : start.whole ≤ i ∧ i < start.whole + length.whole
  · rw [if_pos (hcovered.2 hplace), if_pos hplace, h.span_start, decide_eq_true (by omega),
      Bool.true_and]
  · rw [if_neg (fun h => hplace (hcovered.1 h)), if_neg hplace, decide_eq_true hi, Bool.true_and]

/-- The field instructions bit by bit. A field is read from the integer part of any accepted
operand, and written over the bits of any target, of which those from bit 53 on are cleared. -/
theorem ext_and_ins_bits {start length : Binary64} (h : DescribesField start length) :
    (∀ a : Binary64, Accepts a → ext a start length =
      .ok (.ofInt (a.whole % 2 ^ 53 / 2 ^ start.whole.toNat % 2 ^ length.whole.toNat))) ∧
    ∀ target value : Binary64, Accepts value → ∃ n,
      ins target start length value = .ok (.ofInt n) ∧
      Replaces start.whole length.whole target.whole value.whole n ∧
      ∀ m, Replaces start.whole length.whole target.whole value.whole m → m = n := by
  refine ⟨?_, ?_⟩
  · intro a ha
    have hread : ((h.span.read a.payload).toNat : Int) =
        a.whole % 2 ^ 53 / 2 ^ start.whole.toNat % 2 ^ length.whole.toNat := by
      rw [Span.toNat_read, ← Binary64.toNat_payload]
      simp only [h.span_start, h.span_length, Int.natCast_emod, Int.natCast_ediv, Int.natCast_pow]
      rfl
    rw [ext_payload h ha, ← hread]
    rfl
  · intro target value hvalue
    have hreplaces := replaces_write h target value
    exact ⟨_, ins_payload h target hvalue, hreplaces, fun m hm => hm.unique hreplaces⟩

/-- The second byte of minus two, and a byte written over the second byte of minus one. -/
theorem ext_and_ins_bits_of_byte :
    (DescribesField (.ofInt 8) (.ofInt 8) ∧ Accepts (.ofInt (-2)) ∧ Accepts (.ofInt 0x5a)) ∧
    ext (.ofInt (-2)) (.ofInt 8) (.ofInt 8) = .ok (.ofInt 0xff) ∧
    ins (.ofInt (-1)) (.ofInt 8) (.ofInt 8) (.ofInt 0x5a) =
      .ok (.ofInt (2 ^ 53 - 1 - 0xff00 + 0x5a00)) := by
  have hfield : DescribesField (.ofInt 8) (.ofInt 8) := describesField_ofInt (by decide)
  have ha : Accepts (.ofInt (-2)) := Long.accepts_ofInt (by decide)
  have hv : Accepts (.ofInt 0x5a) := Long.accepts_ofInt (by decide)
  obtain ⟨hext, hins⟩ := ext_and_ins_bits hfield
  obtain ⟨n, hresult, _, hunique⟩ := hins (.ofInt (-1)) (.ofInt 0x5a) hv
  have hreplaces : Replaces (Binary64.ofInt 8).whole (Binary64.ofInt 8).whole
      (Binary64.ofInt (-1)).whole (Binary64.ofInt 0x5a).whole
      (2 ^ 53 - 1 - 0xff00 + 0x5a00) := by
    rw [Binary64.whole_ofInt (by decide), Binary64.whole_ofInt (by decide),
      Binary64.whole_ofInt (by decide)]
    exact ⟨by decide, by decide, by decide +kernel⟩
  refine ⟨⟨hfield, ha, hv⟩, (hext _ ha).trans ?_, by rw [hresult, hunique _ hreplaces]⟩
  rw [Binary64.whole_ofInt (by decide), Binary64.whole_ofInt (by decide)]
  rfl

end LogicChip.Bitwise

import LogicChip.Proofs.Long.BitField
import LogicChip.Proofs.Long.LowWord
import LogicChip.Proofs.Long.Residue
import LogicChip.Proofs.Long.Span
import LogicChip.Proofs.Long.TwosComplement

namespace LogicChip

namespace Binary64

/-- The low 53 bits of the integer part of a register. -/
def payload (x : Binary64) : BitVec 53 := BitVec.ofInt 53 x.whole

/-- The register that holds 53 bits as a natural number. -/
def ofPayload (w : BitVec 53) : Binary64 := .ofInt w.toNat

theorem natAbs_toNat_le (w : BitVec 53) : (w.toNat : Int).natAbs ≤ 2 ^ 53 := by
  have hlt := w.isLt
  omega

theorem payload_ofPayload (w : BitVec 53) : (ofPayload w).payload = w := by
  unfold payload ofPayload
  rw [whole_ofInt (natAbs_toNat_le w), BitVec.ofInt_natCast, BitVec.ofNat_toNat, BitVec.setWidth_eq]

theorem toNat_payload (x : Binary64) : (x.payload.toNat : Int) = x.whole % 2 ^ 53 := by
  unfold payload
  rw [BitVec.toNat_ofInt]
  omega

/-- The low bits of a payload are those of the integer part. -/
theorem toNat_payload_mod (x : Binary64) {k : Nat} (h : k ≤ 53) :
    ((x.payload.toNat % 2 ^ k : Nat) : Int) = x.whole % 2 ^ k := by
  have hdvd : (2 : Int) ^ k ∣ 2 ^ 53 := pow_dvd_pow 2 h
  rw [Int.natCast_emod, toNat_payload, Int.natCast_pow]
  exact Int.emod_emod_of_dvd x.whole hdvd

theorem accepts_ofPayload (w : BitVec 53) : Long.Accepts (ofPayload w) :=
  Long.accepts_ofInt (natAbs_toNat_le w)

end Binary64

namespace Long

/-- The low 53 bits of a long. -/
def payload (n : Long) : BitVec 53 := n.toBitVec.setWidth 53

theorem payload_eq_setWidth_low (n : Long) : n.payload = n.low.setWidth 53 := by
  unfold payload low
  rw [BitVec.setWidth_setWidth_of_le _ (by decide)]

theorem payload_of_low {n : Long} {z : Int} (h : n.low = BitVec.ofInt 54 z) :
    n.payload = BitVec.ofInt 53 z := by
  rw [payload_eq_setWidth_low, h]
  apply BitVec.eq_of_toNat_eq
  rw [BitVec.toNat_setWidth, BitVec.toNat_ofInt, BitVec.toNat_ofInt]
  omega

/-- A long without bits from bit 53 on is decoded to its payload. -/
theorem decode_of_toBitVec {n : Long} {w : BitVec 53} (h : n.toBitVec = w.setWidth 64) :
    decode n = .ofPayload w := by
  have hlt := w.isLt
  have hlow : n.low = BitVec.ofInt 54 w.toNat := by
    unfold low
    rw [h]
    apply BitVec.eq_of_toNat_eq
    rw [BitVec.toNat_setWidth, BitVec.toNat_setWidth, BitVec.toNat_ofInt]
    omega
  rw [decode_of_low hlow, residue_of_fits (by omega) (by omega)]
  rfl

/-- The magnitudes that are taken for zero have no payload. -/
theorem readInteger_emod (reading : Reading) (n : Int) :
    readInteger reading n % 2 ^ 53 = n % 2 ^ 53 := by
  cases reading with
  | signed =>
    simp only [readInteger]
    split <;> omega
  | unsigned =>
    simp only [readInteger]
    split
    · omega
    · split <;> omega

/-- Reading an operand keeps its payload. -/
theorem ofOperand_payload (reading : Reading) {x : Binary64} (h : Accepts x) :
    ∃ n, ofOperand reading x = .ok n ∧ n.payload = x.payload := by
  obtain ⟨n, hread, hvalue⟩ := ofOperand_of_accepts reading h
  have hclass := readInteger_emod reading x.whole
  refine ⟨n, hread, ?_⟩
  rw [payload_of_low n.low_eq_ofInt, hvalue]
  apply BitVec.eq_of_toNat_eq
  unfold Binary64.payload
  rw [BitVec.toNat_ofInt, BitVec.toNat_ofInt]
  omega

/-- A target is taken with its payload, whatever it is. -/
theorem payload_lowWord (x : Binary64) : (Bitwise.lowWord x).payload = x.payload :=
  payload_of_low (Bitwise.low_lowWord x)

end Long

namespace BitField

/-- The range of a field. -/
def span (field : BitField) (h : field.Inside) : Span :=
  ⟨field.start.toNat, field.length.toNat, h.fits⟩

theorem toBitVec_extract {field : BitField} (h : field.Inside) (n : Long) :
    (field.extract n).toBitVec = ((field.span h).read n.payload).setWidth 64 := by
  have hfits := h.fits
  apply BitVec.eq_of_getLsbD_eq
  intro i hi
  rw [getLsbD_extract h n hi, BitVec.getLsbD_setWidth, Span.getLsbD_read]
  unfold Long.payload
  rw [BitVec.getLsbD_setWidth]
  change _ = (decide (i < 64) && (decide (i < field.length.toNat) &&
    (decide (field.start.toNat + i < 53) && n.toBitVec.getLsbD (field.start.toNat + i))))
  by_cases hshort : i < field.length.toNat
  · have hplace : field.start.toNat + i < 53 := by omega
    simp [hi, hshort, hplace]
  · simp [hshort]

theorem toBitVec_insert {field : BitField} (h : field.Inside) (n value : Long) :
    (field.insert n value).toBitVec =
      ((field.span h).write n.payload value.payload).setWidth 64 := by
  have hfits := h.fits
  apply BitVec.eq_of_getLsbD_eq
  intro i hi
  rw [getLsbD_insert h n value i, BitVec.getLsbD_setWidth, Span.getLsbD_write]
  unfold Long.payload
  rw [BitVec.getLsbD_setWidth, BitVec.getLsbD_setWidth, decide_eq_true hi, Bool.true_and]
  change _ = if field.start.toNat ≤ i ∧ i < field.start.toNat + field.length.toNat then
    decide (i - field.start.toNat < 53) && value.toBitVec.getLsbD (i - field.start.toNat)
    else decide (i < 53) && n.toBitVec.getLsbD i
  split
  · rw [decide_eq_true (by omega), Bool.true_and]
  · rfl

end BitField

end LogicChip

import LogicChip.Proofs.Binary64.Whole
import LogicChip.Proofs.Long.Codec

namespace LogicChip.Long

/-- The operands that are read as longs: NaN, and the finite values with an integer part of at most
63 bits or of magnitude `2 ^ 63`. -/
def Accepts (x : Binary64) : Prop :=
  x = .nan ∨ x.isFinite = true ∧ x.whole.natAbs ≤ 2 ^ 63

/-- The operands that are read as 32-bit integers. -/
def AcceptsInt32 (x : Binary64) : Prop :=
  x = .nan ∨ x.isFinite = true ∧ -2 ^ 31 ≤ x.whole ∧ x.whole < 2 ^ 31

instance (x : Binary64) : Decidable (Accepts x) := inferInstanceAs (Decidable (_ ∨ _))

instance (x : Binary64) : Decidable (AcceptsInt32 x) := inferInstanceAs (Decidable (_ ∨ _))

theorem ofOperand_of_accepts (reading : Reading) {x : Binary64} (h : Accepts x) :
    ∃ n, ofOperand reading x = .ok n ∧ n.toInt = readInteger reading x.whole := by
  rcases h with rfl | ⟨hfinite, hfits⟩
  · exact ⟨encode reading (Int64.ofInt 0), rfl, toInt_encode reading (by decide)⟩
  have htruncated := Binary64.truncated?_of_isFinite hfinite
  by_cases hlimit : x.whole.natAbs = 2 ^ 63
  · refine ⟨0, ?_, ?_⟩
    · unfold ofOperand
      rw [integerPart_of_truncated? htruncated]
      change (if 2 ^ 63 < x.whole.natAbs then _ else if x.whole.natAbs = 2 ^ 63 then _ else _) = _
      rw [if_neg (by omega), if_pos hlimit]
      rfl
    · cases reading with
      | signed => exact (if_pos (.inr hlimit)).symm
      | unsigned => exact (if_pos (.inr hlimit)).symm
  · exact ⟨encode reading (Int64.ofInt x.whole),
      ofOperand_of_truncated? reading htruncated (by omega), toInt_encode reading (by omega)⟩

/-- Why an operand is refused as an integer of this many bits. -/
def refusal (bits : Nat) (x : Binary64) : Fault :=
  if x.isFinite then .outOfRange x bits else .notFinite x

theorem ofOperand_of_not_accepts (reading : Reading) {x : Binary64} (h : ¬Accepts x) :
    ofOperand reading x = .error (refusal 64 x) := by
  cases x with
  | nan => exact absurd (.inl rfl) h
  | infinity negative => rfl
  | finite negative magnitude hmagnitude =>
    have hlarge : 2 ^ 63 < (Binary64.finite negative magnitude hmagnitude).whole.natAbs :=
      Nat.lt_of_not_le fun hfits => h (.inr ⟨rfl, hfits⟩)
    unfold ofOperand
    rw [integerPart_of_truncated? (Binary64.truncated?_of_isFinite rfl)]
    exact if_pos hlarge

theorem int32OfOperand_of_accepts {x : Binary64} (h : AcceptsInt32 x) :
    ∃ n, int32OfOperand x = .ok n ∧ n.toInt = x.whole := by
  rcases h with rfl | ⟨hfinite, hlower, hupper⟩
  · exact ⟨0, rfl, by decide⟩
  · exact ⟨Int32.ofInt x.whole,
      int32OfOperand_of_truncated? (Binary64.truncated?_of_isFinite hfinite) hlower hupper,
      Int32.toInt_ofInt_of_le (by omega) (by omega)⟩

theorem int32OfOperand_of_not_accepts {x : Binary64} (h : ¬AcceptsInt32 x) :
    int32OfOperand x = .error (refusal 32 x) := by
  cases x with
  | nan => exact absurd (.inl rfl) h
  | infinity negative => rfl
  | finite negative magnitude hmagnitude =>
    have hout : (Binary64.finite negative magnitude hmagnitude).whole < -2 ^ 31 ∨
        2 ^ 31 ≤ (Binary64.finite negative magnitude hmagnitude).whole :=
      Decidable.byContradiction fun hin => h (.inr ⟨rfl, by omega, by omega⟩)
    unfold int32OfOperand
    rw [integerPart_of_truncated? (Binary64.truncated?_of_isFinite rfl)]
    exact if_pos hout

theorem accepts_ofInt {n : Int} (h : n.natAbs ≤ 2 ^ 53) : Accepts (.ofInt n) := by
  refine .inr ⟨?_, ?_⟩
  · rw [Binary64.ofInt_eq_finite h]
    rfl
  · rw [Binary64.whole_ofInt h]
    omega

theorem acceptsInt32_ofInt {n : Int} (hlower : -2 ^ 31 ≤ n) (hupper : n < 2 ^ 31) :
    AcceptsInt32 (.ofInt n) := by
  refine .inr ⟨?_, ?_⟩
  · rw [Binary64.ofInt_eq_finite (by omega)]
    rfl
  · rw [Binary64.whole_ofInt (by omega)]
    exact ⟨hlower, hupper⟩

end LogicChip.Long

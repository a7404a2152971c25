import LogicChip.Proofs.Long.Operand
import Mathlib.Data.Int.ModEq

namespace LogicChip.Long

/-- The residue of an integer modulo `2 ^ 54` that lies in `[-2 ^ 53, 2 ^ 53)`. -/
def residue (n : Int) : Int := n.bmod (2 ^ 54)

theorem residue_eq (n : Int) :
    residue n = if n % 2 ^ 54 < 2 ^ 53 then n % 2 ^ 54 else n % 2 ^ 54 - 2 ^ 54 := by
  unfold residue
  rw [Int.bmod_def]
  rfl

theorem residue_bounds (n : Int) : -2 ^ 53 ≤ residue n ∧ residue n < 2 ^ 53 := by
  rw [residue_eq]
  split <;> omega

theorem natAbs_residue_le (n : Int) : (residue n).natAbs ≤ 2 ^ 53 := by
  obtain ⟨hlower, hupper⟩ := residue_bounds n
  omega

theorem residue_emod (n : Int) : residue n % 2 ^ 54 = n % 2 ^ 54 := by
  rw [residue_eq]
  split <;> omega

theorem residue_modEq (n : Int) : residue n ≡ n [ZMOD 2 ^ 54] := residue_emod n

theorem residue_of_fits {n : Int} (hlower : -2 ^ 53 ≤ n) (hupper : n < 2 ^ 53) :
    residue n = n := by
  rw [residue_eq]
  split <;> omega

theorem residue_eq_iff {m n : Int} : residue m = residue n ↔ m % 2 ^ 54 = n % 2 ^ 54 := by
  rw [residue_eq, residue_eq]
  constructor
  · intro h
    split at h <;> split at h <;> omega
  · intro h
    rw [h]

/-- Of the long that is decoded the low 54 bits matter only. -/
theorem decode_of_low {n : Long} {z : Int} (h : n.low = BitVec.ofInt 54 z) :
    decode n = .ofInt (residue z) := by
  rw [decode_eq, h, BitVec.toInt_ofInt]
  rfl

/-- A register holds the residue of the long that it was decoded from. -/
theorem decode_eq_residue (n : Long) : decode n = .ofInt (residue n.toInt) :=
  decode_of_low n.low_eq_ofInt

/-- A decoded long is read as its residue, as far as the reading keeps that. -/
theorem ofOperand_decode (reading : Reading) (n : Long) :
    (ofOperand reading (decode n)).map Int64.toInt =
      .ok (readInteger reading (residue n.toInt)) := by
  have hfits := natAbs_residue_le n.toInt
  rw [decode_eq_residue]
  obtain ⟨m, hread, hvalue⟩ := ofOperand_of_accepts reading (accepts_ofInt hfits)
  rw [hread, ← Binary64.whole_ofInt hfits, ← hvalue]
  rfl

theorem lt_residue {n : Int} (h : n % 2 ^ 54 ≠ 2 ^ 53) : -2 ^ 53 < residue n := by
  obtain ⟨hlower, _⟩ := residue_bounds n
  have hclass := residue_emod n
  omega

theorem readInteger_signed_residue {n : Int} (h : n % 2 ^ 54 ≠ 2 ^ 53) :
    readInteger .signed (residue n) = residue n :=
  readInteger_signed_of_lt (lt_residue h) (residue_bounds n).2

theorem readInteger_unsigned_residue {n : Int} (h : n % 2 ^ 54 ≠ 2 ^ 53) :
    readInteger .unsigned (residue n) = n % 2 ^ 54 := by
  have hlower := lt_residue h
  have hupper := (residue_bounds n).2
  have hclass := residue_emod n
  rw [readInteger_unsigned_of_lt hlower hupper]
  split <;> omega

theorem readInteger_residue_of_boundary (reading : Reading) {n : Int} (h : n % 2 ^ 54 = 2 ^ 53) :
    readInteger reading (residue n) = 0 := by
  have hboundary : residue n = -2 ^ 53 := by
    rw [residue_eq]
    omega
  rw [hboundary]
  cases reading <;> rfl

/-- A reading changes nothing modulo `2 ^ 54`, unless it takes the integer part for zero. -/
theorem residue_readInteger (reading : Reading) (n : Int) :
    residue (readInteger reading n) =
      if n = -2 ^ 53 ∨ reading = .signed ∧ n = 2 ^ 53 then 0 else residue n := by
  by_cases hlost : n = -2 ^ 53 ∨ reading = .signed ∧ n = 2 ^ 53
  · rw [if_pos hlost]
    rcases hlost with rfl | ⟨rfl, rfl⟩
    · cases reading <;> rfl
    · rfl
  · rw [if_neg hlost, residue_eq_iff]
    cases reading with
    | signed =>
      simp only [true_and] at hlost
      simp only [readInteger]
      split <;> omega
    | unsigned =>
      have hkept : n ≠ -2 ^ 53 := fun hboundary => hlost (.inl hboundary)
      simp only [readInteger]
      split
      · omega
      · split <;> omega

/-- The codec between registers and longs, in both directions. A long leaves as its residue modulo
`2 ^ 54`, which is exact in a register; read again it is the long itself modulo `2 ^ 54` or that
residue, but zero where the residue is `-2 ^ 53`. An operand that is read and decoded leaves as the
residue of its integer part, up to the boundary that its reading takes for zero; all others are
refused. -/
theorem codec_inverts :
    (∀ n : Long,
      decode n = .ofInt (residue n.toInt) ∧ (decode n).integer? = some (residue n.toInt) ∧
      (-2 ^ 53 ≤ residue n.toInt ∧ residue n.toInt < 2 ^ 53) ∧
      residue n.toInt ≡ n.toInt [ZMOD 2 ^ 54] ∧
      (n.toInt % 2 ^ 54 ≠ 2 ^ 53 →
        (ofOperand .unsigned (decode n)).map Int64.toInt = .ok (n.toInt % 2 ^ 54) ∧
        (ofOperand .signed (decode n)).map Int64.toInt = .ok (residue n.toInt)) ∧
      (n.toInt % 2 ^ 54 = 2 ^ 53 →
        ∀ reading, (ofOperand reading (decode n)).map Int64.toInt = .ok 0)) ∧
    ∀ (reading : Reading) (v : Binary64),
      (Accepts v → (ofOperand reading v).map decode = .ok (.ofInt
        (if v.whole = -2 ^ 53 ∨ reading = .signed ∧ v.whole = 2 ^ 53 then 0
          else residue v.whole))) ∧
      (¬Accepts v → ofOperand reading v = .error (refusal 64 v)) := by
  refine ⟨?_, ?_⟩
  · intro n
    have hheld : (decode n).integer? = some (residue n.toInt) := by
      rw [decode_eq_residue, Binary64.integer?_ofInt (natAbs_residue_le n.toInt)]
    refine ⟨decode_eq_residue n, hheld, residue_bounds n.toInt, residue_modEq n.toInt, ?_, ?_⟩
    · intro hback
      rw [ofOperand_decode, ofOperand_decode, readInteger_unsigned_residue hback,
        readInteger_signed_residue hback]
      exact ⟨rfl, rfl⟩
    · intro hlost reading
      rw [ofOperand_decode, readInteger_residue_of_boundary reading hlost]
  · intro reading v
    refine ⟨?_, ofOperand_of_not_accepts reading⟩
    intro haccepts
    obtain ⟨n, hread, hvalue⟩ := ofOperand_of_accepts reading haccepts
    rw [hread, ← residue_readInteger reading v.whole, ← hvalue]
    exact congrArg Except.ok (decode_eq_residue n)

/-- A long on the boundary is lost, its neighbours are not, and an operand on the boundary depends
on its reading. -/
theorem codec_inverts_around_boundary :
    (Int64.toInt 0x20000000000001 % 2 ^ 54 ≠ 2 ^ 53 ∧
      (ofOperand .unsigned (decode 0x20000000000001)).map Int64.toInt = .ok (2 ^ 53 + 1) ∧
      (ofOperand .signed (decode 0x20000000000001)).map Int64.toInt = .ok (1 - 2 ^ 53)) ∧
    (Int64.toInt 0x20000000000000 % 2 ^ 54 = 2 ^ 53 ∧
      (ofOperand .unsigned (decode 0x20000000000000)).map Int64.toInt = .ok 0) ∧
    (Accepts (.ofInt (2 ^ 53)) ∧
      (ofOperand .signed (.ofInt (2 ^ 53))).map decode = .ok (.ofInt 0) ∧
      (ofOperand .unsigned (.ofInt (2 ^ 53))).map decode = .ok (.ofInt (-2 ^ 53))) ∧
    ¬Accepts (.infinity true) ∧
      ofOperand .signed (.infinity true) = .error (.notFinite (.infinity true)) := by
  have hback : Int64.toInt 0x20000000000001 % 2 ^ 54 ≠ 2 ^ 53 := by decide
  have hlost : Int64.toInt 0x20000000000000 % 2 ^ 54 = 2 ^ 53 := by decide
  have haccepts : Accepts (.ofInt (2 ^ 53)) := accepts_ofInt (by decide)
  have hrefused : ¬Accepts (.infinity true) := by decide
  obtain ⟨_, _, _, _, hneighbour, _⟩ := codec_inverts.1 0x20000000000001
  obtain ⟨_, _, _, _, _, hboundary⟩ := codec_inverts.1 0x20000000000000
  have hwhole : (Binary64.ofInt (2 ^ 53)).whole = 2 ^ 53 := Binary64.whole_ofInt (by decide)
  have hsigned := (codec_inverts.2 .signed (.ofInt (2 ^ 53))).1 haccepts
  have hunsigned := (codec_inverts.2 .unsigned (.ofInt (2 ^ 53))).1 haccepts
  rw [hwhole] at hsigned hunsigned
  exact ⟨⟨hback, hneighbour hback⟩, ⟨hlost, hboundary hlost .unsigned⟩,
    ⟨haccepts, hsigned, hunsigned⟩, hrefused, (codec_inverts.2 .signed _).2 hrefused⟩

end LogicChip.Long

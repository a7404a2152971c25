import LogicChip.Proofs.Long.Residue
import LogicChip.Proofs.Long.Shift

namespace LogicChip.Bitwise

open Long (Accepts AcceptsInt32 readInteger residue)

/-- The integer as which the shift and logic instructions read an operand. -/
def signedInteger (x : Binary64) : Int := readInteger .signed x.whole

/-- The integer as which `srl` reads its operand. -/
def unsignedInteger (x : Binary64) : Int := readInteger .unsigned x.whole

theorem low_and (m n : Long) : (m &&& n).low = m.low &&& n.low := by
  simp only [Long.low, Int64.toBitVec_and, BitVec.setWidth_and]

theorem low_or (m n : Long) : (m ||| n).low = m.low ||| n.low := by
  simp only [Long.low, Int64.toBitVec_or, BitVec.setWidth_or]

theorem low_xor (m n : Long) : (m ^^^ n).low = m.low ^^^ n.low := by
  simp only [Long.low, Int64.toBitVec_xor, BitVec.setWidth_xor]

theorem low_not (n : Long) : (~~~n).low = ~~~n.low := by
  unfold Long.low
  rw [Int64.toBitVec_not, BitVec.setWidth_not (by omega)]

theorem low_nor (m n : Long) : (~~~(m ||| n)).low = ~~~(m.low ||| n.low) := by
  rw [low_not, low_or]

/-- A shift of a long that has the low bits of a shift of integers. -/
theorem shiftOperand_eq_residue {reading : Reading} {move : Long → Int32 → Long}
    {f : Int → Int → Int}
    (hlow : ∀ (n : Long) {amount : Int32}, amount.toInt.natAbs < 64 →
      (move n amount).low = BitVec.ofInt 54 (f n.toInt amount.toInt))
    {a b : Binary64} (ha : Accepts a) (hb : AcceptsInt32 b) :
    shiftOperand reading move a b =
      .ok (.ofInt (residue (f (readInteger reading a.whole) (b.whole.tmod 64)))) := by
  obtain ⟨n, hoperand, hvalue⟩ := Long.ofOperand_of_accepts reading ha
  obtain ⟨amount, hamount, hplaces, hshort⟩ := shiftAmount_of_accepts hb
  have hdecoded := Long.decode_of_low (hlow n hshort)
  rw [hvalue, hplaces] at hdecoded
  unfold shiftOperand
  rw [hoperand, hamount]
  exact congrArg Except.ok hdecoded

/-- An operation on two longs that has the low bits of an operation on integers. -/
theorem combineBits_eq_residue {combine : Long → Long → Long} {f : Int → Int → Int}
    (hlow : ∀ m n : Long, (combine m n).low = BitVec.ofInt 54 (f m.toInt n.toInt))
    {a b : Binary64} (ha : Accepts a) (hb : Accepts b) :
    combineBits combine a b =
      .ok (.ofInt (residue (f (signedInteger a) (signedInteger b)))) := by
  obtain ⟨m, hleft, hleftValue⟩ := Long.ofOperand_of_accepts .signed ha
  obtain ⟨n, hright, hrightValue⟩ := Long.ofOperand_of_accepts .signed hb
  have hdecoded := Long.decode_of_low (hlow m n)
  rw [hleftValue, hrightValue] at hdecoded
  unfold combineBits
  rw [hleft, hright]
  exact congrArg Except.ok hdecoded

section Logic

variable {a b : Binary64} (ha : Accepts a) (hb : Accepts b)

include ha

theorem not_eq_residue : not a = .ok (.ofInt (residue (signedInteger a).lnot)) := by
  obtain ⟨n, hoperand, hvalue⟩ := Long.ofOperand_of_accepts .signed ha
  have hlow : (~~~n).low = BitVec.ofInt 54 n.toInt.lnot := by
    rw [low_not, n.low_eq_ofInt, Long.ofInt_lnot]
  have hdecoded := Long.decode_of_low hlow
  rw [hvalue] at hdecoded
  unfold not
  rw [hoperand]
  exact congrArg Except.ok hdecoded

include hb

theorem and_eq_residue :
    and a b = .ok (.ofInt (residue ((signedInteger a).land (signedInteger b)))) := by
  refine combineBits_eq_residue (fun m n => ?_) ha hb
  rw [low_and, m.low_eq_ofInt, n.low_eq_ofInt, Long.ofInt_land]

theorem or_eq_residue :
    or a b = .ok (.ofInt (residue ((signedInteger a).lor (signedInteger b)))) := by
  refine combineBits_eq_residue (fun m n => ?_) ha hb
  rw [low_or, m.low_eq_ofInt, n.low_eq_ofInt, Long.ofInt_lor]

theorem xor_eq_residue :
    xor a b = .ok (.ofInt (residue ((signedInteger a).xor (signedInteger b)))) := by
  refine combineBits_eq_residue (fun m n => ?_) ha hb
  rw [low_xor, m.low_eq_ofInt, n.low_eq_ofInt, Long.ofInt_xor]

theorem nor_eq_residue :
    nor a b = .ok (.ofInt (residue ((signedInteger a).lor (signedInteger b)).lnot)) := by
  refine combineBits_eq_residue (f := fun m n => (m.lor n).lnot) (fun m n => ?_) ha hb
  rw [low_nor, m.low_eq_ofInt, n.low_eq_ofInt, Long.ofInt_lnot, Long.ofInt_lor]

end Logic

section Shifts

variable {a b : Binary64} (ha : Accepts a) (hb : AcceptsInt32 b)

include ha hb

theorem sll_eq_residue :
    sll a b = .ok (.ofInt (residue (movedLeft (signedInteger a) (b.whole.tmod 64)))) :=
  shiftOperand_eq_residue low_shiftLeft_eq_ofInt ha hb

theorem sra_eq_residue :
    sra a b = .ok (.ofInt (residue (movedRight (signedInteger a) (b.whole.tmod 64)))) :=
  shiftOperand_eq_residue low_shiftRight_eq_ofInt ha hb

theorem srl_eq_residue :
    srl a b = .ok (.ofInt (residue (movedRight (unsignedInteger a) (b.whole.tmod 64)))) :=
  shiftOperand_eq_residue low_shiftRight_eq_ofInt ha hb

/-- A shift to the left by the negated amount is the arithmetic shift to the right. -/
theorem sll_neg (hneg : AcceptsInt32 b.neg) : sll a b.neg = sra a b := by
  rw [sll_eq_residue ha hneg, sra_eq_residue ha hb, Binary64.whole_neg, Int.neg_tmod,
    movedLeft_neg]

end Shifts

/-- The shift and logic instructions on any operands that they accept. The amount of a shift is its
operand's remainder by 64, with the sign of the operand; quotients are rounded down. -/
theorem shift_and_logic_on_integers :
    (∀ a b : Binary64, Accepts a → AcceptsInt32 b →
      sll a b = .ok (.ofInt (residue (movedLeft (signedInteger a) (b.whole.tmod 64)))) ∧
      sla a b = .ok (.ofInt (residue (movedLeft (signedInteger a) (b.whole.tmod 64)))) ∧
      sra a b = .ok (.ofInt (residue (movedRight (signedInteger a) (b.whole.tmod 64)))) ∧
      srl a b = .ok (.ofInt (residue (movedRight (unsignedInteger a) (b.whole.tmod 64)))) ∧
      (AcceptsInt32 b.neg → sll a b.neg = sra a b)) ∧
    (∀ a b : Binary64, Accepts a → Accepts b →
      and a b = .ok (.ofInt (residue ((signedInteger a).land (signedInteger b)))) ∧
      or a b = .ok (.ofInt (residue ((signedInteger a).lor (signedInteger b)))) ∧
      xor a b = .ok (.ofInt (residue ((signedInteger a).xor (signedInteger b)))) ∧
      nor a b = .ok (.ofInt (residue ((signedInteger a).lor (signedInteger b)).lnot))) ∧
    ∀ a : Binary64, Accepts a → not a = .ok (.ofInt (residue (signedInteger a).lnot)) := by
  refine ⟨?_, ?_, fun a ha => not_eq_residue ha⟩
  · intro a b ha hb
    exact ⟨sll_eq_residue ha hb, sll_eq_residue ha hb, sra_eq_residue ha hb, srl_eq_residue ha hb,
      sll_neg ha hb⟩
  · intro a b ha hb
    exact ⟨and_eq_residue ha hb, or_eq_residue ha hb, xor_eq_residue ha hb, nor_eq_residue ha hb⟩

/-- Minus five is shifted by 65 places either way, and combined with twelve. -/
theorem shift_and_logic_on_minus_five :
    (Accepts (.ofInt (-5)) ∧ AcceptsInt32 (.ofInt (-65)) ∧
      AcceptsInt32 (Binary64.ofInt (-65)).neg ∧ Accepts (.ofInt 12)) ∧
    sll (.ofInt (-5)) (.ofInt (-65)) = .ok (.ofInt (-3)) ∧
    srl (.ofInt (-5)) (.ofInt (-65)) = .ok (.ofInt (-10)) ∧
    sll (.ofInt (-5)) (Binary64.ofInt (-65)).neg = sra (.ofInt (-5)) (.ofInt (-65)) ∧
    nor (.ofInt (-5)) (.ofInt 12) = .ok (.ofInt 0) ∧ not (.ofInt (-5)) = .ok (.ofInt 4) := by
  have ha : Accepts (.ofInt (-5)) := Long.accepts_ofInt (by decide)
  have hb : AcceptsInt32 (.ofInt (-65)) := Long.acceptsInt32_ofInt (by decide) (by decide)
  have hneg : AcceptsInt32 (Binary64.ofInt (-65)).neg := by decide +kernel
  have hmask : Accepts (.ofInt 12) := Long.accepts_ofInt (by decide)
  obtain ⟨hleft, _, _, hright, hopposite⟩ := shift_and_logic_on_integers.1 _ _ ha hb
  obtain ⟨_, _, _, hnor⟩ := shift_and_logic_on_integers.2.1 _ _ ha hmask
  have hnot := shift_and_logic_on_integers.2.2 _ ha
  refine ⟨⟨ha, hb, hneg, hmask⟩, hleft.trans ?_, hright.trans ?_, hopposite hneg, hnor.trans ?_,
    hnot.trans ?_⟩ <;> exact congrArg (fun n => Except.ok (Binary64.ofInt n)) (by decide +kernel)

end LogicChip.Bitwise

import LogicChip.Proofs.Binary64.Quotient
import LogicChip.Proofs.Generator.Range
import LogicChip.Proofs.Generator.Stream

namespace LogicChip.Generator

/-- A draw of residues gives a residue and keeps residues in the slots. -/
theorem InRange.nextInt {g : Generator} (h : InRange g.slots) :
    IsResidue g.nextInt.1 ∧ InRange g.nextInt.2.slots := by
  have htarget : IsResidue g.slots[advance g.target] := h _ (advance g.target).isLt
  have hpartner : IsResidue g.slots[advance g.partner] := h _ (advance g.partner).isLt
  have hdraw : IsResidue g.nextInt.1 := by
    change IsResidue (residue (g.slots[advance g.target] - g.slots[advance g.partner]))
    rw [htarget.residue_sub hpartner]
    exact htarget.wrapUp_sub hpartner
  refine ⟨hdraw, ?_⟩
  intro k hk
  change IsResidue (g.slots.set (advance g.target) g.nextInt.1)[k]
  rw [Vector.getElem_set]
  split
  · exact hdraw
  · exact h k hk

theorem InRange.after {g : Generator} (h : InRange g.slots) (n : Nat) :
    InRange (g.after n).slots := by
  induction n generalizing g with
  | zero => exact h
  | succ n ih => exact ih h.nextInt.2

theorem isResidue_intAt {g : Generator} (h : InRange g.slots) (n : Nat) :
    IsResidue (intAt n g) :=
  (h.after n).nextInt.1

theorem inUnitInterval_fraction {draw : Int32} (h : IsResidue draw) :
    Binary64.InUnitInterval (fraction draw) := by
  have hmodulus : modulus.toInt = 2 ^ 31 - 1 := by decide
  obtain ⟨hlower, hupper⟩ := h
  unfold fraction
  rw [hmodulus]
  exact Binary64.inUnitInterval_div hlower hupper (by omega)

/-- Whatever the seed, as a word or as a register value, every integer drawn is a residue modulo
`2 ^ 31 - 1` and every fraction drawn lies in the unit interval. -/
theorem draws_in_range :
    (∀ seed n, IsResidue (intAt n (ofSeed seed)) ∧
      Binary64.InUnitInterval (fractionAt n (ofSeed seed))) ∧
    (∀ x n, IsResidue (intAt n (ofValue x)) ∧
      Binary64.InUnitInterval (fractionAt n (ofValue x))) := by
  have hseed : ∀ seed n, IsResidue (intAt n (ofSeed seed)) ∧
      Binary64.InUnitInterval (fractionAt n (ofSeed seed)) := by
    intro seed n
    have hresidue := isResidue_intAt (inRange_ofSeed seed) n
    rw [fractionAt_eq]
    exact ⟨hresidue, inUnitInterval_fraction hresidue⟩
  exact ⟨hseed, fun x n => hseed (seedOf x) n⟩

end LogicChip.Generator

import LogicChip.Generator.Basic

namespace LogicChip.Generator

/-- A word that is a residue modulo `2 ^ 31 - 1`. -/
def IsResidue (n : Int32) : Prop := 0 ≤ n.toInt ∧ n.toInt < 2 ^ 31 - 1

instance (n : Int32) : Decidable (IsResidue n) := inferInstanceAs (Decidable (_ ∧ _))

theorem toInt_bounds (n : Int32) : -2 ^ 31 ≤ n.toInt ∧ n.toInt < 2 ^ 31 :=
  ⟨BitVec.le_toInt n.toBitVec, BitVec.toInt_lt⟩

/-- The modulus is added to a negative difference, and that never overflows. -/
theorem toInt_wrapUp (difference : Int32) : (wrapUp difference).toInt =
    if difference.toInt < 0 then difference.toInt + (2 ^ 31 - 1) else difference.toInt := by
  obtain ⟨hlower, _⟩ := toInt_bounds difference
  have hzero : (0 : Int32).toInt = 0 := by decide
  have hmodulus : modulus.toInt = 2 ^ 31 - 1 := by decide
  unfold wrapUp
  simp only [Int32.lt_iff_toInt_lt, hzero]
  split
  · rw [Int32.toInt_add, hmodulus, Int.bmod_eq_of_le (by omega) (by omega)]
  · rfl

theorem toInt_sub_of_fits {a b : Int32} (hlower : -2 ^ 31 ≤ a.toInt - b.toInt)
    (hupper : a.toInt - b.toInt < 2 ^ 31) : (a - b).toInt = a.toInt - b.toInt := by
  rw [Int32.toInt_sub, Int.bmod_eq_of_le (by omega) (by omega)]

theorem toInt_wrapUp_sub {a b : Int32} (hlower : -(2 ^ 31 - 1) ≤ a.toInt - b.toInt)
    (hupper : a.toInt - b.toInt < 2 ^ 31 - 1) :
    (wrapUp (a - b)).toInt = (a.toInt - b.toInt) % (2 ^ 31 - 1) := by
  rw [toInt_wrapUp, toInt_sub_of_fits (by omega) (by omega)]
  split <;> omega

theorem isResidue_of_toInt_eq_emod {n : Int32} {difference : Int}
    (h : n.toInt = difference % (2 ^ 31 - 1)) : IsResidue n := by
  unfold IsResidue
  omega

theorem IsResidue.toInt_wrapUp_sub {a b : Int32} (ha : IsResidue a) (hb : IsResidue b) :
    (wrapUp (a - b)).toInt = (a.toInt - b.toInt) % (2 ^ 31 - 1) := by
  obtain ⟨haLower, haUpper⟩ := ha
  obtain ⟨hbLower, hbUpper⟩ := hb
  exact Generator.toInt_wrapUp_sub (by omega) (by omega)

theorem IsResidue.wrapUp_sub {a b : Int32} (ha : IsResidue a) (hb : IsResidue b) :
    IsResidue (wrapUp (a - b)) :=
  isResidue_of_toInt_eq_emod (ha.toInt_wrapUp_sub hb)

theorem IsResidue.sub_ne_modulus {a b : Int32} (ha : IsResidue a) (hb : IsResidue b) :
    a - b ≠ modulus := by
  obtain ⟨haLower, haUpper⟩ := ha
  obtain ⟨hbLower, hbUpper⟩ := hb
  have hmodulus : modulus.toInt = 2 ^ 31 - 1 := by decide
  rw [Ne, ← Int32.toInt_inj, toInt_sub_of_fits (by omega) (by omega), hmodulus]
  omega

/-- The difference of two residues is never the modulus, so the modulus never gives way. -/
theorem IsResidue.residue_sub {a b : Int32} (ha : IsResidue a) (hb : IsResidue b) :
    residue (a - b) = wrapUp (a - b) := by
  unfold residue
  rw [if_neg (ha.sub_ne_modulus hb)]

end LogicChip.Generator

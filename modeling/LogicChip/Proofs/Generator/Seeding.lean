import LogicChip.Proofs.Binary64.Saturation
import LogicChip.Proofs.Generator.Mixing
import LogicChip.Proofs.Generator.Residue
import Mathlib.Data.Int.ModEq
import Mathlib.Tactic.Ring

namespace LogicChip.Generator

/-- All slots hold residues. -/
def InRange (slots : Vector Int32 56) : Prop := ∀ k (h : k < 56), IsResidue slots[k]

instance (slots : Vector Int32 56) : Decidable (InRange slots) :=
  inferInstanceAs (Decidable (∀ k (h : k < 56), IsResidue slots[k]))

/-- A term of the running subtraction that starts with `a` and `b`. -/
def term : Nat → Int32 → Int32 → Int32
  | 0, a, _ => a
  | n + 1, a, b => term n b (wrapUp (a - b))

/-- The multiples of the first two terms that make up a term. -/
def coefficients : Nat → Int × Int
  | 0 => (1, 0)
  | n + 1 => ((coefficients n).2, (coefficients n).1 - (coefficients n).2)

/-- A slot that no term goes to is kept. -/
theorem getElem_scatter_of_ne {count : Nat} {place : Fin 55} {k : Nat} (hk : k < 56)
    (h : ∀ i < count, (place.val + 21 * (i + 1)) % 55 ≠ k) (a b : Int32)
    (slots : Vector Int32 56) : (scatter count place a b slots)[k] = slots[k] := by
  induction count generalizing place a b slots with
  | zero => rfl
  | succ count ih =>
    have hplace : (place + 21).val = (place.val + 21) % 55 := rfl
    have hnext : (place + 21).castSucc.val ≠ k := h 0 (Nat.succ_pos count)
    have hrest : ∀ i < count, ((place + 21).val + 21 * (i + 1)) % 55 ≠ k := by
      intro i hi
      have hlater := h (i + 1) (by omega)
      omega
    calc (scatter (count + 1) place a b slots)[k]
        = (slots.set (place + 21).castSucc b)[k] := ih hrest b (wrapUp (a - b)) _
      _ = slots[k] := Vector.getElem_set_ne _ hk hnext

/-- The slots that the terms go to are pairwise different, so that each keeps its term. -/
theorem getElem_scatter {count n : Nat} (hn : n < count) (hcount : count ≤ 55) (place : Fin 55)
    (a b : Int32) (slots : Vector Int32 56) {k : Nat} (hk : k < 56)
    (hplace : (place.val + 21 * (n + 1)) % 55 = k) :
    (scatter count place a b slots)[k] = term (n + 1) a b := by
  have hnext : (place + 21).val = (place.val + 21) % 55 := rfl
  induction n generalizing count place a b slots with
  | zero =>
    obtain ⟨count, rfl⟩ := Nat.exists_eq_succ_of_ne_zero (Nat.ne_of_gt hn)
    have hself : (place + 21).castSucc.val = k := hplace
    have hrest : ∀ i < count, ((place + 21).val + 21 * (i + 1)) % 55 ≠ k := by
      intro i hi
      omega
    calc (scatter (count + 1) place a b slots)[k]
        = (slots.set (place + 21).castSucc b)[k] := getElem_scatter_of_ne hk hrest _ _ _
      _ = b := by
        subst hself
        exact Vector.getElem_set_self _
  | succ n ih =>
    obtain ⟨count, rfl⟩ := Nat.exists_eq_succ_of_ne_zero (Nat.ne_of_gt (Nat.zero_lt_of_lt hn))
    exact ih (by omega) (by omega) (place + 21) b (wrapUp (a - b)) _ (by omega) rfl

/-- Every term after the first is a residue, and every term the fixed combination of the first two
modulo the modulus. -/
theorem term_spec (n : Nat) {a b : Int32} (hlower : -(2 ^ 31 - 1) ≤ a.toInt - b.toInt)
    (hupper : a.toInt - b.toInt < 2 ^ 31 - 1) (hb : IsResidue b) :
    (0 < n → IsResidue (term n a b)) ∧ (term n a b).toInt ≡
      (coefficients n).1 * a.toInt + (coefficients n).2 * b.toInt [ZMOD 2 ^ 31 - 1] := by
  -- The second term of one subtraction is the first of the next, and only the very first need not
  -- be a residue.
  induction n generalizing a b with
  | zero =>
    refine ⟨fun h => absurd h (Nat.lt_irrefl 0), ?_⟩
    simp only [term, coefficients, Int.one_mul, Int.zero_mul, Int.add_zero]
    exact Int.ModEq.refl _
  | succ n ih =>
    have hdifference : (wrapUp (a - b)).toInt = (a.toInt - b.toInt) % (2 ^ 31 - 1) :=
      toInt_wrapUp_sub hlower hupper
    have hresidue : IsResidue (wrapUp (a - b)) := isResidue_of_toInt_eq_emod hdifference
    obtain ⟨hbLower, hbUpper⟩ := hb
    obtain ⟨hdLower, hdUpper⟩ := hresidue
    obtain ⟨hterm, hcongruent⟩ :=
      ih (a := b) (b := wrapUp (a - b)) (by omega) (by omega) ⟨hdLower, hdUpper⟩
    constructor
    · intro _
      cases n with
      | zero => exact ⟨hbLower, hbUpper⟩
      | succ n => exact hterm (Nat.succ_pos n)
    · have hmod : (wrapUp (a - b)).toInt ≡ a.toInt - b.toInt [ZMOD 2 ^ 31 - 1] := by
        rw [hdifference]
        exact Int.mod_modEq _ _
      calc (term (n + 1) a b).toInt
          ≡ (coefficients n).1 * b.toInt + (coefficients n).2 * (wrapUp (a - b)).toInt
            [ZMOD 2 ^ 31 - 1] := hcongruent
        _ ≡ (coefficients n).1 * b.toInt + (coefficients n).2 * (a.toInt - b.toInt)
            [ZMOD 2 ^ 31 - 1] := (Int.ModEq.refl _).add (hmod.mul_left _)
        _ = (coefficients (n + 1)).1 * a.toInt + (coefficients (n + 1)).2 * b.toInt := by
          simp only [coefficients]
          ring

/-- A value's seed is the integer that it is cut to, brought into the range of a 32-bit word. -/
theorem saturates_seedOf_iff {x : Binary64} {n : Int} :
    Binary64.Saturates (-2 ^ 31) (2 ^ 31 - 1) x n ↔ n = (seedOf x).toInt := by
  obtain ⟨hlower, hupper⟩ : -2 ^ 31 ≤ x.clamped (-2 ^ 31) (2 ^ 31 - 1) ∧
      x.clamped (-2 ^ 31) (2 ^ 31 - 1) ≤ 2 ^ 31 - 1 :=
    Binary64.clamped_mem_range (by decide) (by decide) x
  rw [Binary64.saturates_iff (by decide), seedOf, Int32.toInt_ofInt_of_le (by omega) (by omega)]

/-- The least seed counts as the greatest; any other has its absolute value as magnitude. -/
theorem toInt_magnitude (seed : Int32) :
    (magnitude seed).toInt = min (seed.toInt.natAbs : Int) (2 ^ 31 - 1) := by
  obtain ⟨hlower, hupper⟩ := toInt_bounds seed
  have hzero : (0 : Int32).toInt = 0 := by decide
  have hleast : Int32.minValue.toInt = -2 ^ 31 := by decide
  have hmodulus : modulus.toInt = 2 ^ 31 - 1 := by decide
  unfold magnitude
  simp only [← Int32.toInt_inj, Int32.lt_iff_toInt_lt, hzero, hleast]
  split
  · omega
  · split
    · rw [Int32.toInt_neg, Int.bmod_eq_of_le (by omega) (by omega)]
      omega
    · omega

/-- The start of the running subtraction. -/
def first (seed : Int32) : Int32 := origin - magnitude seed

theorem toInt_first (seed : Int32) : (first seed).toInt = 161803398 - (magnitude seed).toInt := by
  have hmagnitude := toInt_magnitude seed
  have horigin : origin.toInt = 161803398 := by decide
  unfold first
  rw [toInt_sub_of_fits (by omega) (by omega), horigin]

theorem get_filled_zero (seed : Int32) : (filled seed).get 0 = 0 := by
  have hkept : ∀ i < 54, ((0 : Fin 55).val + 21 * (i + 1)) % 55 ≠ 0 := by
    intro i hi
    simp only [Fin.val_zero]
    omega
  exact (getElem_scatter_of_ne (by decide) hkept _ _ _).trans rfl

theorem getElem_filled_last (seed : Int32) : (filled seed)[55] = first seed := by
  have hkept : ∀ i < 54, ((0 : Fin 55).val + 21 * (i + 1)) % 55 ≠ 55 := by
    intro i hi
    omega
  exact (getElem_scatter_of_ne (by decide) hkept _ _ _).trans (Vector.getElem_set_self _)

/-- A slot holds the term of its place in the order in which the slots are filled. -/
theorem getElem_filled (seed : Int32) {k : Nat} (hpos : 0 < k) (hk : k < 55) :
    (filled seed)[k] = term (21 * k % 55) (first seed) 1 := by
  -- Twenty-one is its own inverse modulo 55.
  obtain ⟨n, hn⟩ := Nat.exists_eq_succ_of_ne_zero (n := 21 * k % 55) (by omega)
  have hplace : ((0 : Fin 55).val + 21 * (n + 1)) % 55 = k := by
    simp only [Fin.val_zero]
    omega
  rw [hn]
  exact getElem_scatter (by omega) (by decide) 0 _ _ _ (by omega) hplace

theorem getElem_filled_spec (seed : Int32) {k : Nat} (hpos : 0 < k) (hk : k < 55) :
    IsResidue (filled seed)[k] ∧ (filled seed)[k].toInt ≡
      (coefficients (21 * k % 55)).1 * (first seed).toInt + (coefficients (21 * k % 55)).2
        [ZMOD 2 ^ 31 - 1] := by
  have hmagnitude := toInt_magnitude seed
  have hfirst := toInt_first seed
  have hone : (1 : Int32).toInt = 1 := by decide
  obtain ⟨hresidue, hcongruent⟩ := term_spec (21 * k % 55) (a := first seed) (b := 1)
    (by omega) (by omega) (by decide)
  rw [getElem_filled seed hpos hk]
  refine ⟨hresidue (by omega), ?_⟩
  rw [hone, Int.mul_one] at hcongruent
  exact hcongruent

theorem isResidue_filled (seed : Int32) {k : Nat} (hk : k < 56) (hne : k ≠ 55) :
    IsResidue (filled seed)[k] := by
  rcases Nat.eq_zero_or_pos k with rfl | hpos
  · have hzero : (filled seed)[0] = 0 := get_filled_zero seed
    rw [hzero]
    decide
  · exact (getElem_filled_spec seed hpos (by omega)).1

end LogicChip.Generator

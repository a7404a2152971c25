import LogicChip.Proofs.Generator.Checked
import Mathlib.Data.ZMod.Basic

namespace LogicChip.Generator

/-- The integers modulo `2 ^ 31 - 1`. -/
abbrev Residue : Type := ZMod (2 ^ 31 - 1)

instance instNeZeroResidues : NeZero (2 ^ 31 - 1) := ⟨by decide⟩

/-- A generator over residues. -/
structure Subtractive where
  target : Fin 56
  partner : Fin 56
  slots : Fin 56 → Residue

namespace Subtractive

/-- The running subtraction that fills the slots, from its second term on. -/
def term (magnitude : Int) : Nat → Residue
  | 0 => 1
  | 1 => (161803397 - magnitude : Int)
  | n + 2 => term magnitude n - term magnitude (n + 1)

/-- The slot that a term goes to: every twenty-first in turn, around the 55. -/
def place (i : Nat) : Fin 56 := ⟨21 * (i + 1) % 55, by omega⟩

def fillSlot (magnitude : Int) (slots : Fin 56 → Residue) (i : Nat) : Fin 56 → Residue :=
  Function.update slots (place i) (term magnitude i)

/-- The first term of the running subtraction goes to the last slot, the other terms to the slots
before it. -/
def filled (magnitude : Int) : Fin 56 → Residue :=
  (List.range 54).foldl (fillSlot magnitude)
    (Function.update 0 55 (161803398 - magnitude : Int))

/-- Subtracts from slot `k + 1` the slot 31 places on, around the 55. -/
def mixSlot (slots : Fin 56 → Residue) (k : Fin 55) : Fin 56 → Residue :=
  Function.update slots k.succ (slots k.succ - slots ⟨1 + (k.val + 1 + 30) % 55, by omega⟩)

/-- A pass over slots 1 to 55, in place. -/
def mix (slots : Fin 56 → Residue) : Fin 56 → Residue := (List.finRange 55).foldl mixSlot slots

/-- The generator that is seeded with a magnitude. -/
def ofMagnitude (magnitude : Int) : Subtractive where
  target := 0
  partner := 21
  slots := mix (mix (mix (mix (filled magnitude))))

/-- The slot after a slot, around the 55. -/
def advance (cursor : Fin 56) : Fin 56 := ⟨1 + cursor.val % 55, by omega⟩

/-- Draws the difference of the slots that the cursors come to, and stores it in the first. -/
def next (s : Subtractive) : Residue × Subtractive :=
  let target := advance s.target
  let partner := advance s.partner
  let value := s.slots target - s.slots partner
  (value, ⟨target, partner, Function.update s.slots target value⟩)

/-- The generator after a number of draws. -/
def after : Nat → Subtractive → Subtractive
  | 0, s => s
  | n + 1, s => after n s.next.2

end Subtractive

/-- A word is the representative of a residue. -/
def Represents (n : Int32) (r : Residue) : Prop := n.toInt = r.val

theorem val_residue (n : Int) : ((n : Residue).val : Int) = n % (2 ^ 31 - 1) := ZMod.val_intCast n

theorem represents_of_isResidue {n : Int32} (h : IsResidue n) : Represents n n.toInt := by
  obtain ⟨hlower, hupper⟩ := h
  unfold Represents
  rw [val_residue, Int.emod_eq_of_lt hlower hupper]

namespace Represents

variable {a b : Int32} {r s : Residue}

theorem isResidue (h : Represents a r) : IsResidue a := by
  have hlt : r.val < 2 ^ 31 - 1 := ZMod.val_lt r
  unfold Represents at h
  unfold IsResidue
  omega

theorem intCast_toInt (h : Represents a r) : (a.toInt : Residue) = r := by
  rw [h, Int.cast_natCast, ZMod.natCast_zmod_val]

theorem wrapUp_sub (ha : Represents a r) (hb : Represents b s) :
    Represents (wrapUp (a - b)) (r - s) := by
  unfold Represents
  rw [← ha.intCast_toInt, ← hb.intCast_toInt, ← Int.cast_sub, val_residue]
  exact ha.isResidue.toInt_wrapUp_sub hb.isResidue

end Represents

theorem term_add_two (n : Nat) (a b : Int32) :
    Generator.term (n + 2) a b =
      wrapUp (Generator.term n a b - Generator.term (n + 1) a b) := by
  induction n generalizing a b with
  | zero => rfl
  | succ n ih => exact ih b (wrapUp (a - b))

theorem represents_first {seed : Int32} (h : seed.toInt.natAbs ≤ 161803398) :
    Represents (first seed) (161803398 - seed.toInt.natAbs : Int) := by
  have hmagnitude := toInt_magnitude seed
  have hfirst := represents_of_isResidue (isResidue_first h)
  have hvalue : (first seed).toInt = 161803398 - seed.toInt.natAbs := by
    rw [toInt_first]
    omega
  rwa [hvalue] at hfirst

/-- Terms of the running subtraction represent the terms over residues. -/
theorem represents_term {seed : Int32} (h : seed.toInt.natAbs ≤ 161803398) (n : Nat) :
    Represents (term (n + 1) (first seed) 1) (Subtractive.term seed.toInt.natAbs n) := by
  have hone : Represents 1 1 := by
    have hresidue := represents_of_isResidue (n := 1) (by decide)
    have hvalue : (1 : Int32).toInt = 1 := by decide
    rwa [hvalue, Int.cast_one] at hresidue
  induction n using Nat.twoStepInduction with
  | zero => exact hone
  | one =>
    have hsecond := (represents_first h).wrapUp_sub hone
    have hstart : ((161803398 - seed.toInt.natAbs : Int) : Residue) - 1 =
        (161803397 - seed.toInt.natAbs : Int) := by
      push_cast
      ring
    rw [hstart] at hsecond
    exact hsecond
  | more n ihFirst ihSecond =>
    rw [term_add_two]
    exact ihFirst.wrapUp_sub ihSecond

namespace Subtractive

theorem val_place (i : Nat) : (place i).val = 21 * (i + 1) % 55 := rfl

theorem place_ne {i j : Nat} (hi : i < 54) (hj : j < 54) (h : i ≠ j) : place i ≠ place j := by
  rw [Ne, Fin.ext_iff, val_place, val_place]
  omega

theorem eq_place {k : Fin 56} (hpos : 0 < k.val) (hk : k.val < 55) :
    k = place (21 * k.val % 55 - 1) := by
  rw [Fin.ext_iff, val_place]
  omega

theorem foldl_fillSlot_succ (magnitude : Int) (slots : Fin 56 → Residue) (count : Nat) :
    (List.range (count + 1)).foldl (fillSlot magnitude) slots =
      Function.update ((List.range count).foldl (fillSlot magnitude) slots) (place count)
        (term magnitude count) := by
  rw [List.range_succ, List.foldl_append]
  rfl

/-- Once filled, a slot keeps its term. -/
theorem foldl_fillSlot_place (magnitude : Int) (slots : Fin 56 → Residue) {count i : Nat}
    (hcount : count ≤ 54) (hi : i < count) :
    (List.range count).foldl (fillSlot magnitude) slots (place i) = term magnitude i := by
  induction count with
  | zero => omega
  | succ count ih =>
    rw [foldl_fillSlot_succ]
    by_cases hlast : i = count
    · subst hlast
      rw [Function.update_self]
    · rw [Function.update_of_ne (place_ne (by omega) (by omega) hlast)]
      exact ih (by omega) (by omega)

/-- No term goes to slot 0 or to the last slot. -/
theorem foldl_fillSlot_of_unfilled (magnitude : Int) (slots : Fin 56 → Residue) {count : Nat}
    (hcount : count ≤ 54) {k : Fin 56} (hk : k.val = 0 ∨ k.val = 55) :
    (List.range count).foldl (fillSlot magnitude) slots k = slots k := by
  induction count with
  | zero => rfl
  | succ count ih =>
    have hslot : k ≠ place count := by
      rw [Ne, Fin.ext_iff, val_place]
      omega
    rw [foldl_fillSlot_succ, Function.update_of_ne hslot]
    exact ih (by omega)

end Subtractive

/-- Every slot holds the representative of the residue in its place. -/
def SlotsRepresent (slots : Vector Int32 56) (residues : Fin 56 → Residue) : Prop :=
  ∀ k : Fin 56, Represents (slots.get k) (residues k)

theorem SlotsRepresent.inRange {slots : Vector Int32 56} {residues : Fin 56 → Residue}
    (h : SlotsRepresent slots residues) : InRange slots := fun k hk => (h ⟨k, hk⟩).isResidue

theorem slotsRepresent_filled {seed : Int32} (h : seed.toInt.natAbs ≤ 161803398) :
    SlotsRepresent (filled seed) (Subtractive.filled seed.toInt.natAbs) := by
  intro k
  rcases Nat.eq_zero_or_pos k.val with hzero | hpos
  · obtain rfl : k = 0 := Fin.ext hzero
    have hslot : (filled seed).get 0 = 0 := get_filled_zero seed
    have hresidue : Subtractive.filled seed.toInt.natAbs 0 = 0 :=
      Subtractive.foldl_fillSlot_of_unfilled _ _ (by omega) (.inl rfl)
    rw [hslot, hresidue]
    rfl
  · by_cases hlast : k.val = 55
    · obtain rfl : k = 55 := Fin.ext hlast
      have hslot : (filled seed).get 55 = first seed := getElem_filled_last seed
      have hresidue : Subtractive.filled seed.toInt.natAbs 55 =
          (161803398 - seed.toInt.natAbs : Int) :=
        (Subtractive.foldl_fillSlot_of_unfilled _ _ (by omega) (.inr rfl)).trans
          (Function.update_self _ _ _)
      rw [hslot, hresidue]
      exact represents_first h
    · have hresidue : Subtractive.filled seed.toInt.natAbs k =
          Subtractive.term seed.toInt.natAbs (21 * k.val % 55 - 1) :=
        (congrArg _ (Subtractive.eq_place hpos (by omega))).trans
          (Subtractive.foldl_fillSlot_place _ _ (by omega) (by omega))
      have hslot : (filled seed).get k = term (21 * k.val % 55 - 1 + 1) (first seed) 1 := by
        rw [Nat.sub_add_cancel (by omega)]
        exact getElem_filled seed hpos (by omega)
      rw [hslot, hresidue]
      exact represents_term h _

theorem SlotsRepresent.set {slots : Vector Int32 56} {residues : Fin 56 → Residue} {n : Int32}
    {r : Residue} (h : SlotsRepresent slots residues) {target : Nat} (htarget : target < 56)
    (hn : Represents n r) :
    SlotsRepresent (slots.set target n htarget) (Function.update residues ⟨target, htarget⟩ r) := by
  intro k
  by_cases heq : k = ⟨target, htarget⟩
  · have hslot : (slots.set target n htarget).get k = n := by
      rw [heq]
      exact Vector.getElem_set_self htarget
    rw [hslot, heq, Function.update_self]
    exact hn
  · have hslot : (slots.set target n htarget).get k = slots.get k :=
      Vector.getElem_set_ne htarget k.isLt fun hval => heq (Fin.ext hval.symm)
    rw [hslot, Function.update_of_ne heq]
    exact h k

theorem SlotsRepresent.mixSlot {slots : Vector Int32 56} {residues : Fin 56 → Residue}
    (h : SlotsRepresent slots residues) (k : Fin 55) :
    SlotsRepresent (Generator.mixSlot slots k) (Subtractive.mixSlot residues k) :=
  h.set k.succ.isLt ((h k.succ).wrapUp_sub (h ⟨1 + (k.val + 31) % 55, by omega⟩))

theorem SlotsRepresent.mix {slots : Vector Int32 56} {residues : Fin 56 → Residue}
    (h : SlotsRepresent slots residues) :
    SlotsRepresent (Generator.mix slots) (Subtractive.mix residues) := by
  unfold Generator.mix Subtractive.mix
  generalize List.finRange 55 = steps
  induction steps generalizing slots residues with
  | nil => exact h
  | cons k steps ih => exact ih (h.mixSlot k)

/-- A generator is where a generator over residues is. -/
structure Follows (g : Generator) (s : Subtractive) : Prop where
  target : g.target = s.target
  partner : g.partner = s.partner
  slots : SlotsRepresent g.slots s.slots

theorem follows_ofSeed {seed : Int32} (h : seed.toInt.natAbs ≤ 161803398) :
    Follows (ofSeed seed) (Subtractive.ofMagnitude seed.toInt.natAbs) :=
  ⟨rfl, rfl, (slotsRepresent_filled h).mix.mix.mix.mix⟩

theorem advance_eq (cursor : Fin 56) : advance cursor = Subtractive.advance cursor := by
  rw [Fin.ext_iff, val_advance]
  change _ = 1 + cursor.val % 55
  split <;> omega

/-- A draw represents the draw over residues and keeps to its generator. -/
theorem Follows.next {g : Generator} {s : Subtractive} (h : Follows g s) :
    Represents g.nextInt.1 s.next.1 ∧ Follows g.nextInt.2 s.next.2 := by
  have htarget : advance g.target = Subtractive.advance s.target := by rw [advance_eq, h.target]
  have hpartner : advance g.partner = Subtractive.advance s.partner := by
    rw [advance_eq, h.partner]
  have hdraw : Represents g.nextInt.1 s.next.1 := by
    have hword : g.nextInt.1 = wrapUp (g.slots[advance g.target] - g.slots[advance g.partner]) :=
      (h.slots _).isResidue.residue_sub (h.slots _).isResidue
    have hresidue : s.next.1 = s.slots (advance g.target) - s.slots (advance g.partner) := by
      rw [htarget, hpartner]
      rfl
    rw [hword, hresidue]
    exact (h.slots _).wrapUp_sub (h.slots _)
  have hupdate : s.next.2.slots = Function.update s.slots (advance g.target) s.next.1 := by
    rw [htarget]
    rfl
  refine ⟨hdraw, htarget, hpartner, ?_⟩
  rw [hupdate]
  exact h.slots.set (advance g.target).isLt hdraw

theorem Follows.after {g : Generator} {s : Subtractive} (h : Follows g s) (n : Nat) :
    Follows (after n g) (s.after n) := by
  induction n generalizing g s with
  | zero => exact h
  | succ n ih => exact ih h.next.2

/-- A seed whose magnitude is at most the origin makes a generator that never overflows and that
follows the generator over residues. Seeding is exact. After any number of draws the cursors are in
the same places, every slot holds the representative of the residue in its place, the next draw
represents the next draw over residues and is exact, and its difference is not the modulus. -/
theorem ofSeed_follows_subtractive {seed : Int32} (h : seed.toInt.natAbs ≤ 161803398) :
    Checked.ofSeed? seed = some (ofSeed seed) ∧ ∀ n,
      let g := after n (ofSeed seed)
      let s := Subtractive.after n (.ofMagnitude seed.toInt.natAbs)
      Follows g s ∧ Checked.nextInt? g = some g.nextInt ∧ Represents g.nextInt.1 s.next.1 ∧
        g.slots[advance g.target] - g.slots[advance g.partner] ≠ modulus := by
  refine ⟨Checked.ofSeed?_eq_some h, ?_⟩
  intro n g s
  have hfollows : Follows g s := (follows_ofSeed h).after n
  have hrange := hfollows.slots.inRange
  refine ⟨hfollows, Checked.nextInt?_eq_some hrange, hfollows.next.1, ?_⟩
  exact (hfollows.slots (advance g.target)).isResidue.sub_ne_modulus (hfollows.slots _).isResidue

/-- The greatest magnitude with exact arithmetic. -/
theorem ofSeed_follows_subtractive_at_origin :
    let seed : Int32 := -161803398
    seed.toInt.natAbs ≤ 161803398 ∧ Checked.ofSeed? seed = some (ofSeed seed) ∧ ∀ n,
      let g := after n (ofSeed seed)
      let s := Subtractive.after n (.ofMagnitude seed.toInt.natAbs)
      Follows g s ∧ Checked.nextInt? g = some g.nextInt ∧ Represents g.nextInt.1 s.next.1 ∧
        g.slots[advance g.target] - g.slots[advance g.partner] ≠ modulus := by
  intro seed
  have hmagnitude : seed.toInt.natAbs ≤ 161803398 := by decide
  exact ⟨hmagnitude, ofSeed_follows_subtractive hmagnitude⟩

end LogicChip.Generator

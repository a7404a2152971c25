import LogicChip.Proofs.Generator.Draws

namespace LogicChip.Generator

/-- A generator as seeding leaves it: the cursors are where they start, and the slots hold residues.
-/
structure Fresh (g : Generator) : Prop where
  target : g.target = 0
  partner : g.partner = 21
  inRange : InRange g.slots

theorem fresh_ofSeed (seed : Int32) : Fresh (ofSeed seed) := ⟨rfl, rfl, inRange_ofSeed seed⟩

theorem after_succ (n : Nat) (g : Generator) : after (n + 1) g = (after n g).nextInt.2 :=
  after_add n 1 g

theorem val_advance (cursor : Fin 56) :
    (advance cursor).val = if cursor.val + 1 < 56 then cursor.val + 1 else 1 := by
  unfold advance
  split
  · rfl
  · rfl

theorem getElem_nextInt (g : Generator) {k : Nat} (hk : k < 56) :
    g.nextInt.2.slots[k] = if (advance g.target).val = k then g.nextInt.1 else g.slots[k] :=
  Vector.getElem_set (advance g.target).isLt hk

theorem seed_after (n : Nat) (g : Generator) : (after n g).seed = g.seed := by
  induction n with
  | zero => rfl
  | succ n ih =>
    rw [after_succ]
    exact ih

theorem toNat_drawn_after (n : Nat) (g : Generator) :
    (after n g).drawn.toNat = (g.drawn.toNat + n) % 2 ^ 64 := by
  induction n with
  | zero => exact (Nat.mod_eq_of_lt g.drawn.toNat_lt).symm
  | succ n ih =>
    have hdrawn : (after (n + 1) g).drawn = (after n g).drawn + 1 := by
      rw [after_succ]
      rfl
    rw [hdrawn, UInt64.toNat_add, ih]
    exact (Nat.add_mod _ _ _).symm

namespace Fresh

variable {g : Generator}

theorem val_target (h : Fresh g) (n : Nat) : (after (n + 1) g).target.val = 1 + n % 55 := by
  induction n with
  | zero =>
    have htarget : (after 1 g).target = advance g.target := rfl
    rw [htarget, h.target]
    rfl
  | succ n ih =>
    have htarget : (after (n + 2) g).target = advance (after (n + 1) g).target := by
      rw [after_succ]
      rfl
    rw [htarget, val_advance, ih]
    split <;> omega

theorem val_partner (h : Fresh g) (n : Nat) : (after n g).partner.val = 1 + (n + 20) % 55 := by
  induction n with
  | zero =>
    rw [after, h.partner]
    rfl
  | succ n ih =>
    have hpartner : (after (n + 1) g).partner = advance (after n g).partner := by
      rw [after_succ]
      rfl
    rw [hpartner, val_advance, ih]
    split <;> omega

/-- A draw is the difference of the slots that the cursors come to. -/
theorem intAt_eq (h : Fresh g) {n k l : Nat} (hk : k < 56) (hl : l < 56) (htarget : k = 1 + n % 55)
    (hpartner : l = 1 + (n + 21) % 55) :
    intAt n g = wrapUp ((after n g).slots[k] - (after n g).slots[l]) := by
  have hk' : (advance (after n g).target).val = k := by
    rw [htarget, ← h.val_target n, after_succ]
    rfl
  have hl' : (advance (after n g).partner).val = l := by
    rw [hpartner, ← h.val_partner (n + 1), after_succ]
    rfl
  have hrange := h.inRange.after n
  subst hk' hl'
  exact (hrange _ hk).residue_sub (hrange _ hl)

/-- A draw replaces the slot that the first cursor comes to. -/
theorem getElem_after_succ (h : Fresh g) (n : Nat) {k : Nat} (hk : k < 56) :
    (after (n + 1) g).slots[k] = if 1 + n % 55 = k then intAt n g else (after n g).slots[k] := by
  have htarget : (advance (after n g).target).val = 1 + n % 55 := by
    rw [← h.val_target n, after_succ]
    rfl
  have hslot := getElem_nextInt (after n g) hk
  rw [htarget, ← after_succ] at hslot
  exact hslot

/-- A slot that the first cursor has not come to is as seeding left it. -/
theorem getElem_of_unvisited (h : Fresh g) {n k : Nat} (hk : k < 56)
    (hunvisited : ∀ i, i < n → 1 + i % 55 ≠ k) : (after n g).slots[k] = g.slots[k] := by
  induction n with
  | zero => rfl
  | succ n ih =>
    rw [h.getElem_after_succ n hk, if_neg (hunvisited n (Nat.lt_succ_self n))]
    exact ih fun i hi => hunvisited i (by omega)

/-- A slot keeps a draw until the first cursor has gone around. -/
theorem getElem_of_visited (h : Fresh g) {n i k : Nat} (hk : k < 56) (hslot : k = 1 + i % 55)
    (hvisited : i < n) (hkept : n ≤ i + 55) : (after n g).slots[k] = intAt i g := by
  induction n with
  | zero => omega
  | succ n ih =>
    rw [h.getElem_after_succ n hk]
    by_cases hlast : i = n
    · subst hlast
      rw [if_pos hslot.symm]
    · rw [if_neg (by omega)]
      exact ih (by omega) (by omega)

/-- Past the first round, a draw is the difference of the draws 55 and 34 before it. -/
theorem toInt_intAt_add (h : Fresh g) (n : Nat) : (intAt (n + 55) g).toInt =
    ((intAt n g).toInt - (intAt (n + 21) g).toInt) % (2 ^ 31 - 1) := by
  have htarget : (after (n + 55) g).slots[1 + n % 55] = intAt n g :=
    h.getElem_of_visited (by omega) rfl (by omega) (by omega)
  have hpartner : (after (n + 55) g).slots[1 + (n + 21) % 55] = intAt (n + 21) g :=
    h.getElem_of_visited (by omega) rfl (by omega) (by omega)
  have hdraw : intAt (n + 55) g = wrapUp (intAt n g - intAt (n + 21) g) := by
    rw [← htarget, ← hpartner]
    exact h.intAt_eq (by omega) (by omega) (by omega) (by omega)
  rw [hdraw]
  exact (isResidue_intAt h.inRange n).toInt_wrapUp_sub (isResidue_intAt h.inRange (n + 21))

end Fresh

/-- What `n + 1` draws from a generator leave behind. -/
structure Rotated (start : Generator) (n : Nat) : Prop where
  target : (after (n + 1) start).target.val = 1 + n % 55
  partner : (after (n + 1) start).partner.val = 1 + (n + 21) % 55
  /-- The cursors do not meet. -/
  apart : (after (n + 1) start).target ≠ (after (n + 1) start).partner
  /-- Neither cursor is at slot 0. -/
  within : (after (n + 1) start).target ≠ 0 ∧ (after (n + 1) start).partner ≠ 0
  spare : (after (n + 1) start).slots[(0 : Fin 56)] = 0
  /-- A slot where the first cursor has not been is as it was. -/
  unvisited : ∀ k : Fin 56, (∀ i, i ≤ n → (after (i + 1) start).target ≠ k) →
    (after (n + 1) start).slots[k] = start.slots[k]
  seed : (after (n + 1) start).seed = start.seed
  drawn : n + 1 < 2 ^ 64 → (after (n + 1) start).drawn.toNat = n + 1

theorem getElem_ofSeed_zero (seed : Int32) : (ofSeed seed).slots[(0 : Fin 56)] = 0 := by
  change (mix (mix (mix (mix (filled seed)))))[0] = 0
  simp only [getElem_mix_zero]
  exact get_filled_zero seed

theorem rotated_ofSeed (seed : Int32) (n : Nat) : Rotated (ofSeed seed) n := by
  have hfresh := fresh_ofSeed seed
  have htarget := hfresh.val_target n
  have hpartner : (after (n + 1) (ofSeed seed)).partner.val = 1 + (n + 21) % 55 :=
    hfresh.val_partner (n + 1)
  have hunvisited : ∀ k : Fin 56, (∀ i, i ≤ n → (after (i + 1) (ofSeed seed)).target ≠ k) →
      (after (n + 1) (ofSeed seed)).slots[k] = (ofSeed seed).slots[k] := by
    intro k hk
    apply hfresh.getElem_of_unvisited k.isLt
    intro i hi heq
    exact hk i (by omega) (Fin.ext ((hfresh.val_target i).trans heq))
  refine ⟨htarget, hpartner, ?_, ⟨?_, ?_⟩, ?_, hunvisited, seed_after _ _, ?_⟩
  · intro heq
    rw [heq] at htarget
    omega
  · intro heq
    rw [heq, Fin.val_zero] at htarget
    omega
  · intro heq
    rw [heq, Fin.val_zero] at hpartner
    omega
  · rw [hunvisited 0 ?_, getElem_ofSeed_zero]
    intro i _ heq
    have hvisited := hfresh.val_target i
    rw [heq, Fin.val_zero] at hvisited
    omega
  · intro hbound
    rw [toNat_drawn_after]
    exact (congrArg (· % 2 ^ 64) (Nat.zero_add (n + 1))).trans (Nat.mod_eq_of_lt hbound)

/-- Whatever the seed, a draw past the fifty-fifth is the representative of the difference of the
draws 55 and 34 before it, and the cursors and the slots are where the number of draws puts them. -/
theorem draws_follow_lag_recurrence (seed : Int32) :
    (∀ n, (intAt (n + 55) (ofSeed seed)).toInt =
      ((intAt n (ofSeed seed)).toInt - (intAt (n + 21) (ofSeed seed)).toInt) % (2 ^ 31 - 1)) ∧
    ∀ n, Rotated (ofSeed seed) n :=
  ⟨(fresh_ofSeed seed).toInt_intAt_add, rotated_ofSeed seed⟩

end LogicChip.Generator

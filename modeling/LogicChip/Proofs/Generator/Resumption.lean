import LogicChip.Proofs.Generator.Cursors
import LogicChip.Proofs.Generator.Snapshot

namespace LogicChip.Generator

namespace Snapshot

/-- The next position of a cursor, which is not known to be within the slots. -/
def nextPosition (position : UInt64) : UInt64 := if 56 ≤ position + 1 then 1 else position + 1

/-- A draw from a snapshot that fails if the count overflows or a cursor is outside the slots. -/
def draw? (s : Snapshot) : Option (Int32 × Snapshot) := do
  let drawn ← if s.drawn.toNat + 1 < 2 ^ 64 then some (s.drawn + 1) else none
  let target := nextPosition s.target
  let partner := nextPosition s.partner
  let minuend ← s.slots[target.toNat]?
  let subtrahend ← s.slots[partner.toNat]?
  let value := residue (minuend - subtrahend)
  pure (value, { s with target, partner, slots := s.slots.set target.toNat value, drawn })

/-- A number of such draws. -/
def draws? : Nat → Snapshot → Option (List Int32 × Snapshot)
  | 0, s => some ([], s)
  | n + 1, s => do
    let (draw, s) ← s.draw?
    let (rest, s) ← draws? n s
    pure (draw :: rest, s)

/-- A number of draws succeed, are counted one by one, and give residues and fractions of the unit
interval. -/
def Sound (n : Nat) (s : Snapshot) : Prop :=
  ∃ draws finish, s.draws? n = some (draws, finish) ∧
    finish.drawn.toNat = s.drawn.toNat + n ∧
    ∀ draw ∈ draws, IsResidue draw ∧ Binary64.InUnitInterval (fraction draw)

end Snapshot

theorem nextPosition_cursor (cursor : Fin 56) :
    Snapshot.nextPosition (UInt64.ofNat cursor) = UInt64.ofNat (advance cursor) := by
  have hcursor := toNat_ofNat_cursor cursor
  have hone : (1 : UInt64).toNat = 1 := rfl
  have hsum : (UInt64.ofNat cursor + 1).toNat = cursor.val + 1 := by
    rw [UInt64.toNat_add, hcursor, hone]
    omega
  have hlimit : (56 : UInt64) ≤ UInt64.ofNat cursor + 1 ↔ 56 ≤ cursor.val + 1 := by
    rw [UInt64.le_iff_toNat_le, hsum]
    rfl
  rw [← UInt64.toNat_inj, toNat_ofNat_cursor, val_advance, Snapshot.nextPosition]
  simp only [hlimit]
  split
  · rw [if_neg (by omega), hone]
  · rw [if_pos (by omega), hsum]

theorem getElem?_slots_toSnapshot (g : Generator) (cursor : Fin 56) :
    g.toSnapshot.slots[cursor.val]? = some (g.slots.get cursor) := by
  simp [toSnapshot, Vector.get]

/-- A draw from the snapshot of a generator is a draw from the generator, if the count has room. -/
theorem draw?_toSnapshot {g : Generator} (h : g.drawn.toNat + 1 < 2 ^ 64) :
    g.toSnapshot.draw? = some (g.nextInt.1, g.nextInt.2.toSnapshot) := by
  have hdrawn : g.toSnapshot.drawn = g.drawn := rfl
  have htarget : Snapshot.nextPosition g.toSnapshot.target = UInt64.ofNat (advance g.target) :=
    nextPosition_cursor g.target
  have hpartner : Snapshot.nextPosition g.toSnapshot.partner = UInt64.ofNat (advance g.partner) :=
    nextPosition_cursor g.partner
  unfold Snapshot.draw?
  simp only [hdrawn, if_pos h, htarget, hpartner, toNat_ofNat_cursor, getElem?_slots_toSnapshot,
    Option.bind_eq_bind, Option.bind_some, Option.pure_def]
  simp [nextInt, toSnapshot, Vector.toList_set, Vector.get]

theorem draw?_toSnapshot_of_full {g : Generator} (h : 2 ^ 64 ≤ g.drawn.toNat + 1) :
    g.toSnapshot.draw? = none := by
  have hdrawn : g.toSnapshot.drawn = g.drawn := rfl
  unfold Snapshot.draw?
  rw [hdrawn, if_neg (by omega)]
  rfl

/-- Draws from the snapshot of a generator fail only where the count overflows. -/
theorem draws?_toSnapshot (n : Nat) (g : Generator) : g.toSnapshot.draws? n =
    if g.drawn.toNat + n < 2 ^ 64 then some ((ints n g).1, (after n g).toSnapshot) else none := by
  induction n generalizing g with
  | zero => exact (if_pos g.drawn.toNat_lt).symm
  | succ n ih =>
    rw [Snapshot.draws?]
    by_cases hroom : g.drawn.toNat + 1 < 2 ^ 64
    · have hdrawn : g.nextInt.2.drawn.toNat = g.drawn.toNat + 1 := by
        have hcount := toNat_drawn_after 1 g
        rwa [Nat.mod_eq_of_lt hroom] at hcount
      have hrest := ih g.nextInt.2
      rw [hdrawn, Nat.add_assoc, Nat.add_comm 1 n] at hrest
      rw [draw?_toSnapshot hroom]
      simp only [Option.bind_eq_bind, Option.bind_some, hrest]
      split
      · rfl
      · rfl
    · rw [draw?_toSnapshot_of_full (by omega), if_neg (by omega)]
      rfl

/-- The difference that the next draw starts from. -/
def difference (g : Generator) : Int32 :=
  g.slots.get (advance g.target) - g.slots.get (advance g.partner)

theorem toInt_residue (difference : Int32) : (residue difference).toInt =
    if difference.toInt = 2 ^ 31 - 1 then 2 ^ 31 - 2
    else if difference.toInt < 0 then difference.toInt + (2 ^ 31 - 1) else difference.toInt := by
  have hmodulus : modulus.toInt = 2 ^ 31 - 1 := by decide
  unfold residue
  rw [toInt_wrapUp]
  simp only [← Int32.toInt_inj, hmodulus]
  split
  · rename_i heq
    have hone : (1 : Int32).toInt = 1 := by decide
    have hpredecessor : (difference - 1).toInt = 2 ^ 31 - 2 := by
      rw [toInt_sub_of_fits (by omega) (by omega), hone, heq]
      rfl
    rw [hpredecessor]
    rfl
  · rfl

/-- Only the least word, as a difference, makes a draw that is no residue. -/
theorem isResidue_residue_iff {difference : Int32} :
    IsResidue (residue difference) ↔ difference ≠ Int32.minValue := by
  obtain ⟨hlower, hupper⟩ := toInt_bounds difference
  have hleast : Int32.minValue.toInt = -2 ^ 31 := by decide
  rw [IsResidue, toInt_residue, Ne, ← Int32.toInt_inj, hleast]
  split
  · omega
  · split <;> omega

/-- Draws from a generator are sound exactly if the count has room for them and the differences
avoid the least word. -/
theorem sound_toSnapshot_iff {n : Nat} {g : Generator} :
    g.toSnapshot.Sound n ↔
      g.drawn.toNat + n < 2 ^ 64 ∧ ∀ k, k < n → difference (after k g) ≠ Int32.minValue := by
  have hints : (ints n g).1 = (List.range n).map fun k => intAt k g := by rw [ints_eq]
  have hcount : g.drawn.toNat + n < 2 ^ 64 →
      (after n g).toSnapshot.drawn.toNat = g.drawn.toNat + n := fun hroom =>
    (toNat_drawn_after n g).trans (Nat.mod_eq_of_lt hroom)
  unfold Snapshot.Sound
  rw [draws?_toSnapshot]
  constructor
  · rintro ⟨draws, finish, hdraws, _, hsound⟩
    split at hdraws
    · rename_i hroom
      cases hdraws
      refine ⟨hroom, ?_⟩
      intro k hk
      have hmem : intAt k g ∈ (ints n g).1 := by
        rw [hints]
        exact List.mem_map_of_mem (List.mem_range.2 hk)
      exact isResidue_residue_iff.1 (hsound _ hmem).1
    · cases hdraws
  · rintro ⟨hroom, hdifferences⟩
    refine ⟨_, _, if_pos hroom, hcount hroom, ?_⟩
    intro draw hmem
    rw [hints] at hmem
    obtain ⟨k, hk, rfl⟩ := List.mem_map.1 hmem
    have hresidue : IsResidue (intAt k g) :=
      isResidue_residue_iff.2 (hdifferences k (List.mem_range.1 hk))
    exact ⟨hresidue, inUnitInterval_fraction hresidue⟩

/-- From a snapshot that is taken as a generator, draws never reach outside the slots. They are
sound exactly as long as the count has room and no difference of slots is the least word, which
slots that hold residues rule out. -/
theorem sound_draws_iff {snapshot : Snapshot} {g : Generator} (h : ofSnapshot snapshot = .ok g)
    (n : Nat) :
    snapshot.draws? n = (if snapshot.drawn.toNat + n < 2 ^ 64 then
        some ((ints n g).1, (after n g).toSnapshot) else none) ∧
      (snapshot.Sound n ↔ snapshot.drawn.toNat + n < 2 ^ 64 ∧
        ∀ k, k < n → difference (after k g) ≠ Int32.minValue) ∧
      (snapshot.drawn.toNat + n < 2 ^ 64 → (∀ word ∈ snapshot.slots, IsResidue word) →
        snapshot.Sound n) := by
  obtain rfl := ofSnapshot_eq_ok.1 h
  refine ⟨draws?_toSnapshot n g, sound_toSnapshot_iff, ?_⟩
  intro hroom hwords
  have hslots : InRange g.slots := by
    intro k hk
    exact hwords _ (Vector.mem_toList_iff.2 (Vector.getElem_mem hk))
  refine sound_toSnapshot_iff.2 ⟨hroom, ?_⟩
  intro k _
  exact isResidue_residue_iff.1 (isResidue_intAt hslots k)

/-- Slots that hold zero. -/
theorem sound_draws_zero_slots :
    let snapshot : Snapshot := ⟨0, 0, 21, List.replicate 56 0, 0⟩
    let g : Generator := ⟨0, 0, 21, Vector.replicate 56 0, 0⟩
    ofSnapshot snapshot = .ok g ∧ snapshot.drawn.toNat + 1000 < 2 ^ 64 ∧
      (∀ word ∈ snapshot.slots, IsResidue word) ∧ snapshot.Sound 1000 := by
  intro snapshot g
  have hmade : ofSnapshot snapshot = .ok g := ofSnapshot_eq_ok.2 rfl
  have hroom : snapshot.drawn.toNat + 1000 < 2 ^ 64 := by decide
  have hwords : ∀ word ∈ snapshot.slots, IsResidue word := by
    intro word hword
    obtain rfl := List.eq_of_mem_replicate hword
    decide
  exact ⟨hmade, hroom, hwords, (sound_draws_iff hmade 1000).2.2 hroom hwords⟩

/-- Of two snapshots that are taken as generators, one has the least word in the slot that is drawn
first, and the draw is minus one; the other has counted as many draws as it can, and the next one
takes the count back to zero. -/
theorem exists_accepted_not_sound :
    let least : Snapshot := ⟨0, 0, 21, (List.replicate 56 0).set 1 Int32.minValue, 0⟩
    let full : Snapshot := ⟨0, 0, 21, List.replicate 56 0, 18446744073709551615⟩
    (∃ g, ofSnapshot least = .ok g ∧ intAt 0 g = -1) ∧ ¬ least.Sound 1 ∧
      (∃ g, ofSnapshot full = .ok g ∧ (after 1 g).drawn = 0) ∧ ¬ full.Sound 1 := by
  intro least full
  let leastGenerator : Generator := ⟨0, 0, 21, (Vector.replicate 56 0).set 1 Int32.minValue, 0⟩
  let fullGenerator : Generator := ⟨0, 0, 21, Vector.replicate 56 0, 18446744073709551615⟩
  have hleast : ofSnapshot least = .ok leastGenerator := ofSnapshot_eq_ok.2 rfl
  have hfull : ofSnapshot full = .ok fullGenerator := ofSnapshot_eq_ok.2 rfl
  have hdifference : difference leastGenerator = Int32.minValue := by decide
  refine ⟨⟨leastGenerator, hleast, by decide⟩, ?_, ⟨fullGenerator, hfull, by decide⟩, ?_⟩
  · intro hsound
    rw [ofSnapshot_eq_ok.1 hleast, sound_toSnapshot_iff] at hsound
    exact hsound.2 0 Nat.one_pos hdifference
  · intro hsound
    rw [ofSnapshot_eq_ok.1 hfull, sound_toSnapshot_iff] at hsound
    exact absurd hsound.1 (by decide)

end LogicChip.Generator

import LogicChip.Proofs.Generator.Cursors

namespace LogicChip.Generator

namespace Checked

/-- The sum of two words, if it is a word. -/
def add? (a b : Int32) : Option Int32 :=
  if (a + b).toInt = a.toInt + b.toInt then some (a + b) else none

/-- The difference of two words, if it is a word. -/
def sub? (a b : Int32) : Option Int32 :=
  if (a - b).toInt = a.toInt - b.toInt then some (a - b) else none

def wrapUp? (difference : Int32) : Option Int32 :=
  if difference < 0 then add? difference modulus else some difference

def residue? (difference : Int32) : Option Int32 :=
  if difference = modulus then (sub? difference 1).bind wrapUp? else wrapUp? difference

def magnitude? (seed : Int32) : Option Int32 :=
  if seed = Int32.minValue then some modulus else if seed < 0 then sub? 0 seed else some seed

def scatter? : Nat → Fin 55 → Int32 → Int32 → Vector Int32 56 → Option (Vector Int32 56)
  | 0, _, _, _, slots => some slots
  | n + 1, place, a, b, slots => do
    let place := place + 21
    let difference ← sub? a b
    let next ← wrapUp? difference
    scatter? n place b next (slots.set place.castSucc b)

def filled? (seed : Int32) : Option (Vector Int32 56) := do
  let magnitude ← magnitude? seed
  let start ← sub? origin magnitude
  scatter? 54 0 start 1 (unfilled start)

/-- Replaces a slot by what is made of its difference with another. -/
def subtract? (make? : Int32 → Option Int32) (slots : Vector Int32 56) (target other : Fin 56) :
    Option (Int32 × Vector Int32 56) := do
  let difference ← sub? slots[target] slots[other]
  let value ← make? difference
  pure (value, slots.set target value)

def mixSlot? (slots : Vector Int32 56) (k : Fin 55) : Option (Vector Int32 56) :=
  let other : Fin 55 := ⟨(k.val + 31) % 55, Nat.mod_lt _ (Nat.succ_pos 54)⟩
  (subtract? wrapUp? slots k.succ other.succ).map Prod.snd

def mix? (slots : Vector Int32 56) : Option (Vector Int32 56) :=
  (List.finRange 55).foldlM mixSlot? slots

/-- Seeding that gives up at an overflow. -/
def ofSeed? (seed : Int32) : Option Generator := do
  let slots ← filled? seed
  let slots ← mix? slots
  let slots ← mix? slots
  let slots ← mix? slots
  let slots ← mix? slots
  pure { seed, target := 0, partner := 21, slots, drawn := 0 }

/-- A draw that gives up at an overflow. -/
def nextInt? (g : Generator) : Option (Int32 × Generator) := do
  let target := advance g.target
  let partner := advance g.partner
  let (value, slots) ← subtract? residue? g.slots target partner
  pure (value, { g with target, partner, slots, drawn := g.drawn + 1 })

theorem sub?_eq_some {a b : Int32} (hlower : -2 ^ 31 ≤ a.toInt - b.toInt)
    (hupper : a.toInt - b.toInt < 2 ^ 31) : sub? a b = some (a - b) :=
  if_pos (toInt_sub_of_fits hlower hupper)

theorem sub?_of_isResidue {a b : Int32} (ha : IsResidue a) (hb : IsResidue b) :
    sub? a b = some (a - b) := by
  obtain ⟨haLower, haUpper⟩ := ha
  obtain ⟨hbLower, hbUpper⟩ := hb
  exact sub?_eq_some (by omega) (by omega)

/-- Adding the modulus to a negative word never overflows. -/
theorem wrapUp?_eq_some (difference : Int32) : wrapUp? difference = some (wrapUp difference) := by
  have hvalue := toInt_wrapUp difference
  have hzero : (0 : Int32).toInt = 0 := by decide
  have hmodulus : modulus.toInt = 2 ^ 31 - 1 := by decide
  unfold wrapUp at hvalue ⊢
  unfold wrapUp?
  simp only [Int32.lt_iff_toInt_lt, hzero] at hvalue ⊢
  split
  · rename_i hnegative
    rw [if_pos hnegative, if_pos hnegative, ← hmodulus] at hvalue
    exact if_pos hvalue
  · rfl

theorem residue?_of_ne {difference : Int32} (h : difference ≠ modulus) :
    residue? difference = some (residue difference) := by
  unfold residue? residue
  rw [if_neg h, if_neg h, wrapUp?_eq_some]

theorem scatter?_eq_some (n : Nat) (place : Fin 55) {a b : Int32} (ha : IsResidue a)
    (hb : IsResidue b) (slots : Vector Int32 56) :
    scatter? n place a b slots = some (scatter n place a b slots) := by
  induction n generalizing place a b slots with
  | zero => rfl
  | succ n ih =>
    refine Option.bind_eq_some_iff.2 ⟨_, sub?_of_isResidue ha hb, ?_⟩
    refine Option.bind_eq_some_iff.2 ⟨_, wrapUp?_eq_some _, ?_⟩
    exact ih (place + 21) hb (ha.wrapUp_sub hb) _

end Checked

theorem InRange.mixSlot {slots : Vector Int32 56} (h : InRange slots) (k : Fin 55) :
    InRange (Generator.mixSlot slots k) := by
  intro j hj
  rw [getElem_mixSlot slots k.isLt hj]
  split
  · exact (h _ (by omega)).wrapUp_sub (h _ (by omega))
  · exact h j hj

namespace Checked

theorem subtract?_eq_some {make? : Int32 → Option Int32} {slots : Vector Int32 56}
    {target other : Fin 56} {value : Int32} (h : InRange slots)
    (hmake : make? (slots[target] - slots[other]) = some value) :
    subtract? make? slots target other = some (value, slots.set target value) := by
  have hsub := sub?_of_isResidue (h target target.isLt) (h other other.isLt)
  refine Option.bind_eq_some_iff.2 ⟨_, hsub, ?_⟩
  exact Option.bind_eq_some_iff.2 ⟨_, hmake, rfl⟩

theorem mixSlot?_eq_some {slots : Vector Int32 56} (h : InRange slots) (k : Fin 55) :
    mixSlot? slots k = some (mixSlot slots k) := by
  have hother : ∀ hk, Fin.succ ⟨(k.val + 31) % 55, hk⟩ =
      (⟨1 + (k.val + 31) % 55, by omega⟩ : Fin 56) := fun hk => Fin.ext (Nat.add_comm _ _)
  unfold mixSlot? mixSlot
  simp only [hother, subtract?_eq_some h (wrapUp?_eq_some _), Option.map_some]

theorem mix?_eq_some {slots : Vector Int32 56} (h : InRange slots) :
    mix? slots = some (mix slots) := by
  unfold mix? mix
  generalize List.finRange 55 = steps
  induction steps generalizing slots with
  | nil => rfl
  | cons k steps ih =>
    rw [List.foldlM_cons, mixSlot?_eq_some h, List.foldl_cons]
    exact ih (h.mixSlot k)

theorem magnitude?_eq_some (seed : Int32) : magnitude? seed = some (magnitude seed) := by
  obtain ⟨hlower, hupper⟩ := toInt_bounds seed
  have hzero : (0 : Int32).toInt = 0 := by decide
  have hleast : Int32.minValue.toInt = -2 ^ 31 := by decide
  have hnegative : seed ≠ Int32.minValue → sub? 0 seed = some (-seed) := by
    intro hne
    rw [Ne, ← Int32.toInt_inj, hleast] at hne
    rw [sub?_eq_some (by omega) (by omega), Int32.zero_sub]
  unfold magnitude? magnitude
  split
  · rfl
  · rename_i hne
    rw [hnegative hne]
    split
    · rfl
    · rfl

theorem nextInt?_eq_some {g : Generator} (h : InRange g.slots) : nextInt? g = some g.nextInt := by
  have htarget := h _ (advance g.target).isLt
  have hpartner := h _ (advance g.partner).isLt
  have hresidue := residue?_of_ne (htarget.sub_ne_modulus hpartner)
  exact Option.bind_eq_some_iff.2 ⟨_, subtract?_eq_some h hresidue, rfl⟩

end Checked

theorem isResidue_first {seed : Int32} (h : seed.toInt.natAbs ≤ 161803398) :
    IsResidue (first seed) := by
  have hmagnitude := toInt_magnitude seed
  have hfirst := toInt_first seed
  unfold IsResidue
  omega

theorem inRange_filled {seed : Int32} (h : seed.toInt.natAbs ≤ 161803398) :
    InRange (filled seed) := by
  intro k hk
  by_cases hlast : k = 55
  · subst hlast
    rw [getElem_filled_last]
    exact isResidue_first h
  · exact isResidue_filled seed hk hlast

namespace Checked

theorem filled?_eq_some {seed : Int32} (h : seed.toInt.natAbs ≤ 161803398) :
    filled? seed = some (filled seed) := by
  have hmagnitude := toInt_magnitude seed
  have horigin : origin.toInt = 161803398 := by decide
  have hstart : sub? origin (magnitude seed) = some (origin - magnitude seed) :=
    sub?_eq_some (by omega) (by omega)
  refine Option.bind_eq_some_iff.2 ⟨_, magnitude?_eq_some seed, ?_⟩
  refine Option.bind_eq_some_iff.2 ⟨_, hstart, ?_⟩
  exact scatter?_eq_some 54 0 (isResidue_first h) (by decide) _

/-- Seeding does not overflow if the seed's magnitude is at most the origin. -/
theorem ofSeed?_eq_some {seed : Int32} (h : seed.toInt.natAbs ≤ 161803398) :
    ofSeed? seed = some (ofSeed seed) := by
  have hfilled := inRange_filled h
  unfold ofSeed? ofSeed
  refine Option.bind_eq_some_iff.2 ⟨_, filled?_eq_some h, ?_⟩
  refine Option.bind_eq_some_iff.2 ⟨_, mix?_eq_some hfilled, ?_⟩
  refine Option.bind_eq_some_iff.2 ⟨_, mix?_eq_some hfilled.mix, ?_⟩
  refine Option.bind_eq_some_iff.2 ⟨_, mix?_eq_some hfilled.mix.mix, ?_⟩
  exact Option.bind_eq_some_iff.2 ⟨_, mix?_eq_some hfilled.mix.mix.mix, rfl⟩

end Checked

end LogicChip.Generator

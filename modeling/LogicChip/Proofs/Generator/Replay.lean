import LogicChip.Proofs.Generator.Cursors

namespace LogicChip.Generator

theorem IsResidue.eq_of_wrapUp_sub_eq {a b c : Int32} (ha : IsResidue a) (hb : IsResidue b)
    (hc : IsResidue c) (h : wrapUp (a - c) = wrapUp (b - c)) : a = b := by
  have htoInt := congrArg Int32.toInt h
  rw [ha.toInt_wrapUp_sub hc, hb.toInt_wrapUp_sub hc] at htoInt
  obtain ⟨haLower, haUpper⟩ := ha
  obtain ⟨hbLower, hbUpper⟩ := hb
  rw [← Int32.toInt_inj]
  omega

/-- Equal passes over residues started from equal slots. -/
theorem InRange.eq_of_mix_eq {slots other : Vector Int32 56} (hslots : InRange slots)
    (hother : InRange other) (h : Generator.mix slots = Generator.mix other) : slots = other := by
  -- A slot past the 24th was mixed with a slot that the pass leaves.
  have hhigh : ∀ k (hk : k < 56), 24 < k → slots[k] = other[k] := by
    intro k hk hlow
    have hmixed : (Generator.mix slots)[k] = (Generator.mix other)[k] := by rw [h]
    rw [getElem_mix_high slots hlow hk, getElem_mix_high other hlow hk, h] at hmixed
    exact (hslots k hk).eq_of_wrapUp_sub_eq (hother k hk) (hother.mix _ (by omega)) hmixed
  apply Vector.ext
  intro k hk
  rcases Nat.lt_or_ge 24 k with hlow | hle
  · exact hhigh k hk hlow
  · have hmixed : (Generator.mix slots)[k] = (Generator.mix other)[k] := by rw [h]
    rcases Nat.eq_zero_or_pos k with rfl | hpos
    · rwa [getElem_mix_zero, getElem_mix_zero] at hmixed
    · rw [getElem_mix_low slots hpos hle, getElem_mix_low other hpos hle,
        hhigh (k + 31) (by omega) (by omega)] at hmixed
      exact (hslots k hk).eq_of_wrapUp_sub_eq (hother k hk) (hother _ (by omega)) hmixed

namespace Fresh

variable {g h : Generator}

/-- Up to draw 34 both slots are as seeding left them. -/
theorem intAt_of_lt (hg : Fresh g) {k : Nat} (hpos : 0 < k) (hk : k ≤ 34) :
    intAt (k - 1) g = wrapUp (g.slots[k] - g.slots[k + 21]) := by
  have htarget := hg.getElem_of_unvisited (n := k - 1) (k := k) (by omega) (by omega)
  have hpartner := hg.getElem_of_unvisited (n := k - 1) (k := k + 21) (by omega) (by omega)
  rw [← htarget, ← hpartner]
  exact hg.intAt_eq (by omega) (by omega) (by omega) (by omega)

/-- After draw 34 and up to draw 55 the subtracted slot holds a draw. -/
theorem intAt_of_gt (hg : Fresh g) {k : Nat} (hlow : 34 < k) (hk : k < 56) :
    intAt (k - 1) g = wrapUp (g.slots[k] - intAt (k - 35) g) := by
  have htarget := hg.getElem_of_unvisited (n := k - 1) (k := k) (by omega) (by omega)
  have hpartner := hg.getElem_of_visited (n := k - 1) (i := k - 35) (k := k - 34) (by omega)
    (by omega) (by omega) (by omega)
  rw [← htarget, ← hpartner]
  exact hg.intAt_eq (by omega) (by omega) (by omega) (by omega)

/-- Slots are determined by the stream. -/
theorem getElem_eq_of_intAt_eq (hg : Fresh g) (hh : Fresh h)
    (hstream : ∀ n, intAt n g = intAt n h) {k : Nat} (hpos : 0 < k) (hk : k < 56) :
    g.slots[k] = h.slots[k] := by
  -- From the last slot down: what was subtracted from a slot is a draw or a slot above it.
  induction hdistance : 55 - k using Nat.strongRecOn generalizing k with
  | ind distance ih =>
    have hdraw := hstream (k - 1)
    rcases Nat.lt_or_ge 34 k with hlow | hle
    · rw [hg.intAt_of_gt hlow hk, hh.intAt_of_gt hlow hk, hstream] at hdraw
      exact (hg.inRange k hk).eq_of_wrapUp_sub_eq (hh.inRange k hk)
        (isResidue_intAt hh.inRange _) hdraw
    · have habove : g.slots[k + 21] = h.slots[k + 21] :=
        ih (55 - (k + 21)) (by omega) (by omega) (by omega) rfl
      rw [hg.intAt_of_lt hpos hle, hh.intAt_of_lt hpos hle, habove] at hdraw
      exact (hg.inRange k hk).eq_of_wrapUp_sub_eq (hh.inRange k hk) (hh.inRange _ (by omega)) hdraw

end Fresh

/-- Seeds that share a stream share the slots before the last two passes. -/
theorem mix_mix_filled_eq_of_intAt_eq {seed other : Int32}
    (h : ∀ n, intAt n (ofSeed seed) = intAt n (ofSeed other)) :
    mix (mix (filled seed)) = mix (mix (filled other)) := by
  have hslots : (ofSeed seed).slots = (ofSeed other).slots := by
    apply Vector.ext
    intro k hk
    rcases Nat.eq_zero_or_pos k with rfl | hpos
    · exact (getElem_ofSeed_zero seed).trans (getElem_ofSeed_zero other).symm
    · exact (fresh_ofSeed seed).getElem_eq_of_intAt_eq (fresh_ofSeed other) h hpos hk
  have hseed := inRange_mix_mix_filled seed
  have hother := inRange_mix_mix_filled other
  exact hseed.eq_of_mix_eq hother (hseed.mix.eq_of_mix_eq hother.mix hslots)

/-- Between slots 24 and 48 one pass makes residues, whatever the overflow in slot 55. -/
theorem isResidue_mix_filled (seed : Int32) {k : Nat} (hafter : 24 < k) (hbefore : k < 48) :
    IsResidue (mix (filled seed))[k] := by
  have hearlier : IsResidue (mix (filled seed))[k - 24] := by
    rw [getElem_mix_low _ (by omega) (by omega)]
    exact (isResidue_filled seed (by omega) (by omega)).wrapUp_sub
      (isResidue_filled seed (by omega) (by omega))
  rw [getElem_mix_high _ hafter (by omega)]
  exact (isResidue_filled seed (by omega) (by omega)).wrapUp_sub hearlier

/-- Slot 31 after one pass can be told from the slots after two, and it fixes the start of the
running subtraction modulo `2 ^ 31 - 1`. -/
theorem first_modEq_of_mix_mix_eq {seed other : Int32}
    (h : mix (mix (filled seed)) = mix (mix (filled other))) :
    (first seed).toInt ≡ (first other).toInt [ZMOD 2 ^ 31 - 1] := by
  have hslot : (mix (filled seed))[31] = (mix (filled other))[31] := by
    have hmixed : (mix (mix (filled seed)))[31] = (mix (mix (filled other)))[31] := by rw [h]
    rw [getElem_mix_high _ (by omega) (by omega), getElem_mix_high (mix (filled other)) (by omega)
      (by omega), h] at hmixed
    exact (isResidue_mix_filled seed (by omega) (by omega)).eq_of_wrapUp_sub_eq
      (isResidue_mix_filled other (by omega) (by omega))
      (inRange_mix_mix_filled other _ (by omega)) hmixed
  have hinverse : (875761174 : Int) * 1150029940 ≡ 1 [ZMOD 2 ^ 31 - 1] := by decide
  have hform : ∀ seed, 1150029940 * (first seed).toInt ≡
      (mix (filled seed))[31].toInt + 1860787531 [ZMOD 2 ^ 31 - 1] := by
    intro seed
    calc 1150029940 * (first seed).toInt
        = 1150029940 * (first seed).toInt - 1860787531 + 1860787531 := by ring
      _ ≡ (mix (filled seed))[31].toInt + 1860787531 [ZMOD 2 ^ 31 - 1] :=
          (getElem_mix_filled_partner seed).symm.add_right _
  have hseed := modEq_of_mul_modEq hinverse (hform seed)
  rw [hslot] at hseed
  exact hseed.trans (modEq_of_mul_modEq hinverse (hform other)).symm

/-- The magnitudes zero and `2 ^ 31 - 1` start the same running subtraction modulo `2 ^ 31 - 1`. An
overflow tells them apart. -/
theorem mix_mix_filled_ne {seed other : Int32} (hleast : (magnitude seed).toInt = 0)
    (hgreatest : (magnitude other).toInt = 2 ^ 31 - 1) :
    mix (mix (filled seed)) ≠ mix (mix (filled other)) := by
  have hzero : (magnitude 0).toInt = 0 := by decide
  have hmodulus : (magnitude modulus).toInt = 2 ^ 31 - 1 := by decide
  rw [← hzero, Int32.toInt_inj] at hleast
  rw [← hmodulus, Int32.toInt_inj] at hgreatest
  rw [filled_congr hleast, filled_congr hgreatest]
  decide +kernel

theorem magnitude_eq_of_mix_mix_eq {seed other : Int32}
    (h : mix (mix (filled seed)) = mix (mix (filled other))) :
    magnitude seed = magnitude other := by
  have hfirst := first_modEq_of_mix_mix_eq h
  rw [toInt_first, toInt_first] at hfirst
  have hseed := toInt_magnitude seed
  have hother := toInt_magnitude other
  have hcases : (magnitude seed).toInt = (magnitude other).toInt ∨
      (magnitude seed).toInt = 0 ∧ (magnitude other).toInt = 2 ^ 31 - 1 ∨
      (magnitude seed).toInt = 2 ^ 31 - 1 ∧ (magnitude other).toInt = 0 := by
    unfold Int.ModEq at hfirst
    omega
  rcases hcases with heq | ⟨hleast, hgreatest⟩ | ⟨hgreatest, hleast⟩
  · exact Int32.toInt_inj.1 heq
  · exact absurd h (mix_mix_filled_ne hleast hgreatest)
  · exact absurd h.symm (mix_mix_filled_ne hleast hgreatest)

/-- The absolute value of a seed, except that the least seed counts as the greatest. -/
def strength (seed : Int32) : Nat :=
  if seed.toInt = -2 ^ 31 then 2 ^ 31 - 1 else seed.toInt.natAbs

theorem magnitude_eq_iff_strength_eq (seed other : Int32) :
    magnitude seed = magnitude other ↔ strength seed = strength other := by
  have hstrength : ∀ seed, (magnitude seed).toInt = strength seed := by
    intro seed
    obtain ⟨hlower, hupper⟩ := toInt_bounds seed
    rw [toInt_magnitude]
    unfold strength
    split <;> omega
  rw [← Int32.toInt_inj, hstrength, hstrength, Int.natCast_inj]

theorem after_reseed (n : Nat) (g : Generator) (seed : Int32) :
    after n { g with seed } = { after n g with seed } := by
  induction n generalizing g with
  | zero => rfl
  | succ n ih => exact ih g.nextInt.2

/-- Drawing does not look at the seed, only at what seeding has made of it. -/
theorem intAt_reseed (n : Nat) (g : Generator) (seed : Int32) :
    intAt n { g with seed } = intAt n g := by
  unfold intAt
  rw [after_reseed]
  rfl

theorem intAt_eq_of_magnitude_eq {seed other : Int32} (h : magnitude seed = magnitude other)
    (n : Nat) : intAt n (ofSeed seed) = intAt n (ofSeed other) := by
  have hseeded : ofSeed seed = { ofSeed other with seed } := by
    unfold ofSeed
    rw [filled_congr h]
  rw [hseeded, intAt_reseed]

theorem strength_neg (seed : Int32) : strength (-seed) = strength seed := by
  obtain ⟨hlower, hupper⟩ := toInt_bounds seed
  unfold strength
  rw [Int32.toInt_neg]
  by_cases hleast : seed.toInt = -2 ^ 31
  · rw [hleast]
    decide
  · rw [Int.bmod_eq_of_le (by omega) (by omega), Int.natAbs_neg, if_neg (by omega), if_neg hleast]

/-- Two seeds share their stream exactly if they are of one strength. So a seed and its negative
share it, and the least seed shares that of the greatest. -/
theorem streams_eq_iff_strength_eq :
    (∀ seed other, (∀ n, intAt n (ofSeed seed) = intAt n (ofSeed other)) ↔
      strength seed = strength other) ∧
    (∀ seed n, intAt n (ofSeed (-seed)) = intAt n (ofSeed seed)) ∧
    ∀ n, intAt n (ofSeed Int32.minValue) = intAt n (ofSeed Int32.maxValue) := by
  have hiff : ∀ seed other, (∀ n, intAt n (ofSeed seed) = intAt n (ofSeed other)) ↔
      strength seed = strength other := by
    intro seed other
    rw [← magnitude_eq_iff_strength_eq]
    constructor
    · intro hstream
      exact magnitude_eq_of_mix_mix_eq (mix_mix_filled_eq_of_intAt_eq hstream)
    · exact intAt_eq_of_magnitude_eq
  refine ⟨hiff, ?_, ?_⟩
  · intro seed
    exact (hiff (-seed) seed).2 (strength_neg seed)
  · exact (hiff Int32.minValue Int32.maxValue).2 (by decide)

end LogicChip.Generator

import LogicChip.Proofs.Generator.Seeding

namespace LogicChip.Generator

theorem filled_congr {seed other : Int32} (h : magnitude seed = magnitude other) :
    filled seed = filled other := by
  unfold filled
  rw [h]

/-- A pass over residues takes residues to slots 1 to 54, if it does so for slot 24, whose partner
is the last slot. -/
theorem isResidue_mix_of_ne_last {slots : Vector Int32 56}
    (hslots : ∀ k (h : k < 56), k ≠ 55 → IsResidue slots[k]) (hlow : IsResidue (mix slots)[24])
    {k : Nat} (hk : k < 56) (hne : k ≠ 55) : IsResidue (mix slots)[k] := by
  -- A slot depends on slots before the pass, or on the slot 24 places below after it.
  induction k using Nat.strongRecOn with
  | ind k ih =>
    rcases Nat.eq_zero_or_pos k with rfl | hpos
    · rw [getElem_mix_zero]
      exact hslots 0 hk hne
    · rcases Nat.lt_trichotomy k 24 with hbefore | rfl | hafter
      · rw [getElem_mix_low slots hpos (by omega)]
        exact (hslots k hk hne).wrapUp_sub (hslots (k + 31) (by omega) (by omega))
      · exact hlow
      · rw [getElem_mix_high slots hafter (by omega)]
        exact (hslots k hk hne).wrapUp_sub (ih (k - 24) (by omega) (by omega) (by omega))

theorem InRange.mix {slots : Vector Int32 56} (h : InRange slots) : InRange (mix slots) := by
  have hlow : IsResidue (Generator.mix slots)[24] := by
    rw [getElem_mix_low slots (by omega) (by omega)]
    exact (h 24 (by omega)).wrapUp_sub (h 55 (by omega))
  intro k hk
  by_cases hlast : k = 55
  · subst hlast
    have hpartner : IsResidue (Generator.mix slots)[31] :=
      isResidue_mix_of_ne_last (fun k hk _ => h k hk) hlow (by omega) (by omega)
    rw [getElem_mix_high slots (by omega) (by omega)]
    exact (h 55 (by omega)).wrapUp_sub hpartner
  · exact isResidue_mix_of_ne_last (fun k hk _ => h k hk) hlow hk hlast

/-- A residue less the start of the running subtraction overflows to a word out of range only where
the difference is `2 ^ 31 - 1` or `2 ^ 31`. -/
theorem isResidue_wrapUp_sub_first {n start : Int32} (hn : IsResidue n)
    (hlower : 161803398 - (2 ^ 31 - 1) ≤ start.toInt) (hupper : start.toInt ≤ 161803398)
    (h : n.toInt - start.toInt ≠ 2 ^ 31 - 1 ∧ n.toInt - start.toInt ≠ 2 ^ 31) :
    IsResidue (wrapUp (n - start)) := by
  obtain ⟨hnLower, hnUpper⟩ := hn
  unfold IsResidue
  rw [toInt_wrapUp]
  by_cases hfits : n.toInt - start.toInt < 2 ^ 31
  · rw [toInt_sub_of_fits (by omega) hfits]
    split <;> omega
  · have hwrapped : (n - start).toInt = n.toInt - start.toInt - 2 ^ 32 := by
      rw [Int32.toInt_sub, ← Int.sub_bmod_right, Int.bmod_eq_of_le (by omega) (by omega)]
      rfl
    rw [hwrapped]
    split <;> omega

/-- The start of the running subtraction less a residue overflows to a word out of range only where
the difference is `-2 ^ 31` or the word below it. -/
theorem isResidue_wrapUp_first_sub {start n : Int32} (hn : IsResidue n)
    (hlower : 161803398 - (2 ^ 31 - 1) ≤ start.toInt) (hupper : start.toInt ≤ 161803398)
    (h : start.toInt - n.toInt ≠ -2 ^ 31 ∧ start.toInt - n.toInt ≠ -2 ^ 31 - 1) :
    IsResidue (wrapUp (start - n)) := by
  obtain ⟨hnLower, hnUpper⟩ := hn
  unfold IsResidue
  rw [toInt_wrapUp]
  by_cases hfits : -2 ^ 31 ≤ start.toInt - n.toInt
  · rw [toInt_sub_of_fits hfits (by omega)]
    split <;> omega
  · have hwrapped : (start - n).toInt = start.toInt - n.toInt + 2 ^ 32 := by
      rw [Int32.toInt_sub, ← Int.add_bmod_right, Int.bmod_eq_of_le (by omega) (by omega)]
      rfl
    rw [hwrapped]
    split <;> omega

/-- The magnitudes of seeds for which the first pass leaves a word out of range. -/
def exceptional : List Int32 := [1333158113, 1235545220, 1235228408, 614279151]

theorem mem_exceptional {m : Int32} (h : m.toInt ∈ exceptional.map Int32.toInt) :
    m ∈ exceptional := by
  obtain ⟨other, hother, heq⟩ := List.mem_map.1 h
  rwa [← Int32.toInt_inj.1 heq]

theorem modEq_of_mul_modEq {inverse coefficient a value m : Int}
    (hinverse : inverse * coefficient ≡ 1 [ZMOD m]) (h : coefficient * a ≡ value [ZMOD m]) :
    a ≡ inverse * value [ZMOD m] := by
  have hscaled := h.mul_left inverse
  rw [← Int.mul_assoc] at hscaled
  have hunit := hinverse.mul_right a
  rw [Int.one_mul] at hunit
  exact hunit.symm.trans hscaled

theorem first_of_difference_low {seed : Int32} {amount : Int}
    (h : (filled seed)[24].toInt - (first seed).toInt = amount) :
    (first seed).toInt ≡ 2049870754 * (34 - amount) [ZMOD 2 ^ 31 - 1] := by
  obtain ⟨_, hcongruent⟩ := getElem_filled_spec seed (k := 24) (by omega) (by omega)
  have hcoefficients : coefficients (21 * 24 % 55) = (-21, 34) := by decide +kernel
  have hinverse : (2049870754 : Int) * 22 ≡ 1 [ZMOD 2 ^ 31 - 1] := by decide
  rw [hcoefficients] at hcongruent
  apply modEq_of_mul_modEq hinverse
  -- The slot is `-21` times the start plus 34, so the difference fixes 22 times the start.
  calc 22 * (first seed).toInt
      = (first seed).toInt + 34 - (-21 * (first seed).toInt + 34) := by ring
    _ ≡ (first seed).toInt + 34 - (filled seed)[24].toInt [ZMOD 2 ^ 31 - 1] :=
        (Int.ModEq.refl _).sub hcongruent.symm
    _ = 34 - amount := by omega

theorem magnitude_of_overflow_low {seed : Int32}
    (h : (filled seed)[24].toInt - (first seed).toInt = 2 ^ 31 - 1 ∨
      (filled seed)[24].toInt - (first seed).toInt = 2 ^ 31) :
    magnitude seed ∈ exceptional := by
  have hmagnitude := toInt_magnitude seed
  have hfirst := toInt_first seed
  have hvalue : (magnitude seed).toInt = 1333158113 ∨ (magnitude seed).toInt = 1235545220 := by
    rcases h with h | h
    · have hstart := first_of_difference_low h
      unfold Int.ModEq at hstart
      omega
    · have hstart := first_of_difference_low h
      unfold Int.ModEq at hstart
      omega
  apply mem_exceptional
  rcases hvalue with hvalue | hvalue
  · rw [hvalue]
    decide
  · rw [hvalue]
    decide

/-- The partner of slot 55, which has been mixed with two other slots before. -/
theorem getElem_mix_filled_partner (seed : Int32) :
    (mix (filled seed))[31].toInt ≡
      1150029940 * (first seed).toInt - 1860787531 [ZMOD 2 ^ 31 - 1] := by
  obtain ⟨hresidue7, hcongruent7⟩ := getElem_filled_spec seed (k := 7) (by omega) (by omega)
  obtain ⟨hresidue31, hcongruent31⟩ := getElem_filled_spec seed (k := 31) (by omega) (by omega)
  obtain ⟨hresidue38, hcongruent38⟩ := getElem_filled_spec seed (k := 38) (by omega) (by omega)
  have hcoefficients7 : coefficients (21 * 7 % 55) = (-14930352, 24157817) := by decide +kernel
  have hcoefficients31 : coefficients (21 * 31 % 55) = (1134903170, -1836311903) := by
    decide +kernel
  have hcoefficients38 : coefficients (21 * 38 % 55) = (196418, -317811) := by decide +kernel
  rw [hcoefficients7] at hcongruent7
  rw [hcoefficients31] at hcongruent31
  rw [hcoefficients38] at hcongruent38
  have hmixed7 : (mix (filled seed))[7].toInt =
      ((filled seed)[7].toInt - (filled seed)[38].toInt) % (2 ^ 31 - 1) := by
    rw [getElem_mix_low _ (by omega) (by omega)]
    exact hresidue7.toInt_wrapUp_sub hresidue38
  have hmixed31 : (mix (filled seed))[31].toInt =
      ((filled seed)[31].toInt - (mix (filled seed))[7].toInt) % (2 ^ 31 - 1) := by
    rw [getElem_mix_high _ (by omega) (by omega)]
    exact hresidue31.toInt_wrapUp_sub (isResidue_of_toInt_eq_emod hmixed7)
  rw [hmixed31, hmixed7]
  calc ((filled seed)[31].toInt - ((filled seed)[7].toInt - (filled seed)[38].toInt) %
        (2 ^ 31 - 1)) % (2 ^ 31 - 1)
      ≡ (filled seed)[31].toInt - ((filled seed)[7].toInt - (filled seed)[38].toInt) %
        (2 ^ 31 - 1) [ZMOD 2 ^ 31 - 1] := Int.mod_modEq _ _
    _ ≡ (filled seed)[31].toInt - ((filled seed)[7].toInt - (filled seed)[38].toInt)
        [ZMOD 2 ^ 31 - 1] := (Int.ModEq.refl _).sub (Int.mod_modEq _ _)
    _ ≡ 1134903170 * (first seed).toInt + -1836311903 -
        (-14930352 * (first seed).toInt + 24157817 - (196418 * (first seed).toInt + -317811))
        [ZMOD 2 ^ 31 - 1] := hcongruent31.sub (hcongruent7.sub hcongruent38)
    _ = 1150029940 * (first seed).toInt - 1860787531 := by ring

theorem first_of_difference_high {seed : Int32} {amount : Int}
    (h : (first seed).toInt - (mix (filled seed))[31].toInt = -amount) :
    (first seed).toInt ≡ 1526534390 * (amount + 1860787531) [ZMOD 2 ^ 31 - 1] := by
  have hpartner := getElem_mix_filled_partner seed
  have hinverse : (1526534390 : Int) * 1150029939 ≡ 1 [ZMOD 2 ^ 31 - 1] := by decide
  apply modEq_of_mul_modEq hinverse
  calc 1150029939 * (first seed).toInt
      = 1150029940 * (first seed).toInt - 1860787531 - (first seed).toInt + 1860787531 := by ring
    _ ≡ (mix (filled seed))[31].toInt - (first seed).toInt + 1860787531 [ZMOD 2 ^ 31 - 1] :=
        (hpartner.symm.sub (Int.ModEq.refl _)).add (Int.ModEq.refl _)
    _ = amount + 1860787531 := by omega

theorem magnitude_of_overflow_high {seed : Int32}
    (h : (first seed).toInt - (mix (filled seed))[31].toInt = -2 ^ 31 ∨
      (first seed).toInt - (mix (filled seed))[31].toInt = -2 ^ 31 - 1) :
    magnitude seed ∈ exceptional := by
  have hmagnitude := toInt_magnitude seed
  have hfirst := toInt_first seed
  have hvalue : (magnitude seed).toInt = 614279151 ∨ (magnitude seed).toInt = 1235228408 := by
    rcases h with h | h
    · have hstart := first_of_difference_high h
      unfold Int.ModEq at hstart
      omega
    · have hamount : (first seed).toInt - (mix (filled seed))[31].toInt = -(2 ^ 31 + 1) := by omega
      have hstart := first_of_difference_high hamount
      unfold Int.ModEq at hstart
      omega
  apply mem_exceptional
  rcases hvalue with hvalue | hvalue
  · rw [hvalue]
    decide
  · rw [hvalue]
    decide

/-- The first pass leaves residues, but for exceptional magnitudes. -/
theorem inRange_mix_filled {seed : Int32} (h : magnitude seed ∉ exceptional) :
    InRange (mix (filled seed)) := by
  have hmagnitude := toInt_magnitude seed
  have hfirst := toInt_first seed
  have hlast : (filled seed)[24 + 31] = first seed := getElem_filled_last seed
  have hlow : IsResidue (mix (filled seed))[24] := by
    rw [getElem_mix_low _ (by omega) (by omega), hlast]
    have hslot := isResidue_filled seed (k := 24) (by omega) (by omega)
    apply isResidue_wrapUp_sub_first hslot (by omega) (by omega)
    constructor
    · exact fun hoverflow => h (magnitude_of_overflow_low (.inl hoverflow))
    · exact fun hoverflow => h (magnitude_of_overflow_low (.inr hoverflow))
  have hbefore : ∀ k (hk : k < 56), k ≠ 55 → IsResidue (mix (filled seed))[k] := fun k hk hne =>
    isResidue_mix_of_ne_last (fun k hk hne => isResidue_filled seed hk hne) hlow hk hne
  intro k hk
  by_cases hlast : k = 55
  · subst hlast
    rw [getElem_mix_high _ (by omega) (by omega), getElem_filled_last]
    apply isResidue_wrapUp_first_sub (hbefore 31 (by omega) (by omega)) (by omega) (by omega)
    constructor
    · exact fun hoverflow => h (magnitude_of_overflow_high (.inl hoverflow))
    · exact fun hoverflow => h (magnitude_of_overflow_high (.inr hoverflow))
  · exact hbefore k hk hlast

theorem inRange_mix_mix_filled_of_exceptional {seed : Int32} (h : magnitude seed ∈ exceptional) :
    InRange (mix (mix (filled seed))) := by
  -- A magnitude is its own magnitude, so it is enough to run the passes for the four of them.
  have hself : exceptional.all (fun m => magnitude m = m) = true := by decide
  have hpasses : exceptional.all (fun m => InRange (mix (mix (filled m)))) = true := by
    decide +kernel
  rw [filled_congr (of_decide_eq_true (List.all_eq_true.1 hself _ h)).symm]
  exact of_decide_eq_true (List.all_eq_true.1 hpasses _ h)

theorem inRange_mix_mix_filled (seed : Int32) : InRange (mix (mix (filled seed))) := by
  by_cases h : magnitude seed ∈ exceptional
  · exact inRange_mix_mix_filled_of_exceptional h
  · exact (inRange_mix_filled h).mix

/-- Every seed leaves residues in all slots. -/
theorem inRange_ofSeed (seed : Int32) : InRange (ofSeed seed).slots :=
  (inRange_mix_mix_filled seed).mix.mix

end LogicChip.Generator

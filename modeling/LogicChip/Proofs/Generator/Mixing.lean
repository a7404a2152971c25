import LogicChip.Generator.Seeding

namespace LogicChip.Generator

/-- The slots after the first steps of a pass. -/
def mixFirst (count : Nat) (slots : Vector Int32 56) : Vector Int32 56 :=
  ((List.finRange 55).take count).foldl mixSlot slots

theorem mixFirst_succ {count : Nat} (h : count < 55) (slots : Vector Int32 56) :
    mixFirst (count + 1) slots = mixSlot (mixFirst count slots) ⟨count, h⟩ := by
  unfold mixFirst
  rw [List.take_succ_eq_append_getElem (by simpa using h), List.foldl_append]
  simp

theorem mix_eq_mixFirst (slots : Vector Int32 56) : mix slots = mixFirst 55 slots := by
  unfold mix mixFirst
  rw [List.take_of_length_le (by simp)]

theorem getElem_mixSlot (slots : Vector Int32 56) {i k : Nat} (hi : i < 55) (hk : k < 56) :
    (mixSlot slots ⟨i, hi⟩)[k] =
      if k = i + 1 then wrapUp (slots[i + 1] - slots[1 + (i + 31) % 55]) else slots[k] := by
  unfold mixSlot
  rw [Vector.getElem_set]
  by_cases h : k = i + 1
  · rw [if_pos h, if_pos (by simp [h])]
    rfl
  · rw [if_neg h, if_neg (by simp; omega)]

/-- Steps leave the slots that they have not reached. -/
theorem getElem_mixFirst_of_unreached {count : Nat} (hcount : count ≤ 55)
    (slots : Vector Int32 56) {k : Nat} (hk : k < 56) (h : k = 0 ∨ count < k) :
    (mixFirst count slots)[k] = slots[k] := by
  induction count with
  | zero => rfl
  | succ count ih =>
    rw [mixFirst_succ (by omega), getElem_mixSlot _ (by omega) hk, if_neg (by omega)]
    exact ih (by omega) (by omega)

/-- Once reached, a slot stays as it is for the rest of the pass. -/
theorem getElem_mixFirst_of_reached {count : Nat} (hcount : count ≤ 55)
    (slots : Vector Int32 56) {k : Nat} (hk : k < 56) (h : k ≤ count) :
    (mixFirst count slots)[k] = (mixFirst k slots)[k] := by
  induction count with
  | zero =>
    obtain rfl : k = 0 := by omega
    rfl
  | succ count ih =>
    by_cases hlast : k = count + 1
    · subst hlast
      rfl
    · rw [mixFirst_succ (by omega), getElem_mixSlot _ (by omega) hk, if_neg hlast]
      exact ih (by omega) (by omega)

theorem getElem_mix_zero (slots : Vector Int32 56) : (mix slots)[0] = slots[0] := by
  rw [mix_eq_mixFirst, getElem_mixFirst_of_unreached (by omega) slots (by omega) (.inl rfl)]

private theorem getElem_mix_step (slots : Vector Int32 56) {i : Nat} (hi : i < 55) :
    (mix slots)[i + 1] =
      wrapUp (slots[i + 1] - (mixFirst i slots)[1 + (i + 31) % 55]) := by
  rw [mix_eq_mixFirst, getElem_mixFirst_of_reached (by omega) slots (by omega) (by omega),
    mixFirst_succ hi, getElem_mixSlot _ hi (by omega), if_pos rfl]
  have htarget : (mixFirst i slots)[i + 1] = slots[i + 1] :=
    getElem_mixFirst_of_unreached (by omega) slots (by omega) (by omega)
  rw [htarget]

/-- The first slots are mixed with slots as they were before the pass. -/
theorem getElem_mix_low (slots : Vector Int32 56) {k : Nat} (hpos : 0 < k) (hk : k ≤ 24) :
    (mix slots)[k] = wrapUp (slots[k] - slots[k + 31]) := by
  obtain ⟨i, rfl⟩ : ∃ i, k = i + 1 := ⟨k - 1, by omega⟩
  have hother : 1 + (i + 31) % 55 = i + 1 + 31 := by omega
  have hpartner : (mixFirst i slots)[i + 1 + 31] = slots[i + 1 + 31] :=
    getElem_mixFirst_of_unreached (by omega) slots (by omega) (by omega)
  rw [getElem_mix_step slots (by omega)]
  simp only [hother, hpartner]

/-- The other slots are mixed with slots as the pass leaves them. -/
theorem getElem_mix_high (slots : Vector Int32 56) {k : Nat} (hlow : 24 < k) (hk : k < 56) :
    (mix slots)[k] = wrapUp (slots[k] - (mix slots)[k - 24]) := by
  obtain ⟨i, rfl⟩ : ∃ i, k = i + 1 := ⟨k - 1, by omega⟩
  have hother : 1 + (i + 31) % 55 = i + 1 - 24 := by omega
  have hreached : (mix slots)[i + 1 - 24] = (mixFirst i slots)[i + 1 - 24] := by
    rw [mix_eq_mixFirst, getElem_mixFirst_of_reached (by omega) slots (by omega) (by omega)]
    exact (getElem_mixFirst_of_reached (by omega) slots (by omega) (by omega)).symm
  rw [getElem_mix_step slots (by omega), hreached]
  simp only [hother]

end LogicChip.Generator

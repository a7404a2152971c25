import LogicChip.Text.Digits
import Mathlib.Data.List.Induction

namespace LogicChip.Text

/-- The digits of a radix up to sixteen, letters in either case. -/
def IsDigitIn (radix : Nat) (c : Char) : Prop := ∃ d < radix, c.toLower = Nat.digitChar d

instance (radix : Nat) (c : Char) : Decidable (IsDigitIn radix c) :=
  inferInstanceAs (Decidable (∃ d < radix, c.toLower = Nat.digitChar d))

/-- The digits of a number after any number of zeros, letters in either case. -/
def Numeral (radix : Nat) (digits : List Char) (n : Nat) : Prop :=
  ∃ zeros, digits.map Char.toLower = List.replicate zeros '0' ++ Nat.toDigits radix n

theorem toNat_toLower (c : Char) :
    c.toLower.toNat = if 65 ≤ c.toNat ∧ c.toNat ≤ 90 then c.toNat + 32 else c.toNat := by
  have hupper : (c.val ≥ 'A'.val ∧ c.val ≤ 'Z'.val) ↔ 65 ≤ c.toNat ∧ c.toNat ≤ 90 := Iff.rfl
  unfold Char.toLower
  split
  · rename_i h
    rw [if_pos (hupper.1 h)]
    change (c.val + ('a'.val - 'A'.val)).toNat = _
    have hmoved : ('a'.val - 'A'.val).toNat = 32 := by decide
    have hle : c.val.toNat ≤ 90 := (hupper.1 h).2
    rw [UInt32.toNat_add, hmoved, Nat.mod_eq_of_lt (by omega)]
    rfl
  · rename_i h
    rw [if_neg (mt hupper.2 h)]

theorem toNat_digitChar : ∀ {d : Nat}, d < 16 →
    (Nat.digitChar d).toNat = if d < 10 then 48 + d else 87 + d := by
  decide

/-- The codes of a digit: one if it is decimal, and one for either case of a letter. -/
theorem toLower_eq_digitChar_iff {c : Char} {d : Nat} (hd : d < 16) :
    c.toLower = Nat.digitChar d ↔
      d < 10 ∧ c.toNat = 48 + d ∨ 10 ≤ d ∧ (c.toNat = 87 + d ∨ c.toNat = 55 + d) := by
  rw [← Char.toNat_inj, toNat_toLower, toNat_digitChar hd]
  by_cases hupper : 65 ≤ c.toNat ∧ c.toNat ≤ 90
  · rw [if_pos hupper]
    split <;> omega
  · rw [if_neg hupper]
    split <;> omega

theorem isDigit_iff_toNat {c : Char} : isDigit c = true ↔ 48 ≤ c.toNat ∧ c.toNat ≤ 57 := by
  rw [isDigit, Bool.and_eq_true, decide_eq_true_eq, decide_eq_true_eq]
  rfl

theorem isHexDigit_iff_toNat {c : Char} : isHexDigit c = true ↔
    (48 ≤ c.toNat ∧ c.toNat ≤ 57) ∨ (97 ≤ c.toNat ∧ c.toNat ≤ 102) ∨
      (65 ≤ c.toNat ∧ c.toNat ≤ 70) := by
  simp only [isHexDigit, Bool.or_eq_true, isDigit_iff_toNat, Bool.and_eq_true, decide_eq_true_eq,
    or_assoc]
  rfl

/-- A digit stands for its place in the table. -/
theorem digitValue_eq {c : Char} {d : Nat} (hd : d < 16) (h : c.toLower = Nat.digitChar d) :
    digitValue c = d := by
  rw [toLower_eq_digitChar_iff hd] at h
  unfold digitValue
  split
  · rename_i hdigit
    rw [isDigit_iff_toNat] at hdigit
    change c.toNat - 48 = d
    omega
  · rename_i hletter
    rw [isDigit_iff_toNat] at hletter
    split
    · rename_i hlower
      change 97 ≤ c.toNat at hlower
      change c.toNat - 97 + 10 = d
      omega
    · rename_i hupper
      change ¬97 ≤ c.toNat at hupper
      change c.toNat - 65 + 10 = d
      omega

theorem isHexDigit_iff {c : Char} : isHexDigit c = true ↔ IsDigitIn 16 c := by
  rw [isHexDigit_iff_toNat]
  constructor
  · rintro (h | h | h)
    · exact ⟨c.toNat - 48, by omega, (toLower_eq_digitChar_iff (by omega)).2 (by omega)⟩
    · exact ⟨c.toNat - 87, by omega, (toLower_eq_digitChar_iff (by omega)).2 (by omega)⟩
    · exact ⟨c.toNat - 55, by omega, (toLower_eq_digitChar_iff (by omega)).2 (by omega)⟩
  · rintro ⟨d, hd, h⟩
    rw [toLower_eq_digitChar_iff hd] at h
    omega

theorem isDigit_iff {c : Char} : isDigit c = true ↔ IsDigitIn 10 c := by
  rw [isDigit_iff_toNat]
  constructor
  · intro h
    exact ⟨c.toNat - 48, by omega, (toLower_eq_digitChar_iff (by omega)).2 (by omega)⟩
  · rintro ⟨d, hd, h⟩
    rw [toLower_eq_digitChar_iff (by omega)] at h
    omega

theorem toLower_digitChar {d : Nat} (hd : d < 16) :
    (Nat.digitChar d).toLower = Nat.digitChar d := by
  rw [toLower_eq_digitChar_iff hd, toNat_digitChar hd]
  split <;> omega

theorem ofDigits_replicate_zero_append (radix zeros : Nat) (digits : List Char) :
    ofDigits radix (List.replicate zeros '0' ++ digits) = ofDigits radix digits := by
  induction zeros with
  | zero => rfl
  | succ zeros ih =>
    have hzero : 0 * radix + digitValue '0' = 0 := by
      rw [Nat.zero_mul]
      rfl
    rw [List.replicate_succ, List.cons_append, ofDigits, List.foldl_cons, hzero]
    exact ih

section Numerals

variable {radix n : Nat} {digits : List Char}

/-- Reading does not see the case of letters. -/
theorem ofDigits_map_toLower (hradix : radix ≤ 16) (h : ∀ c ∈ digits, IsDigitIn radix c) :
    ofDigits radix (digits.map Char.toLower) = ofDigits radix digits := by
  induction digits using List.reverseRecOn with
  | nil => rfl
  | append_singleton digits c ih =>
    obtain ⟨hinit, hlast⟩ := List.forall_mem_append.1 h
    obtain ⟨d, hd, hc⟩ := hlast c List.mem_cons_self
    rw [List.map_append, List.map_singleton, ofDigits_append_singleton, ofDigits_append_singleton,
      ih hinit, digitValue_eq (by omega) hc, hc,
      digitValue_eq (by omega) (toLower_digitChar (by omega))]

theorem ofDigits_toDigits (hone : 1 < radix) (hradix : radix ≤ 16) (n : Nat) :
    ofDigits radix (Nat.toDigits radix n) = n := by
  induction n using Nat.strongRecOn with
  | ind n ih =>
    by_cases hlt : n < radix
    · rw [Nat.toDigits_of_lt_base hlt, ← List.nil_append [_], ofDigits_append_singleton,
        digitValue_eq (by omega) (toLower_digitChar (by omega))]
      exact (Nat.zero_mul radix).symm ▸ Nat.zero_add n
    · have hrest : n % radix < radix := Nat.mod_lt n (by omega)
      rw [Nat.toDigits_of_base_le hone (Nat.le_of_not_lt hlt), ofDigits_append_singleton,
        ih _ (Nat.div_lt_self (by omega) hone),
        digitValue_eq (by omega) (toLower_digitChar (by omega))]
      exact Nat.div_add_mod' n radix

theorem exists_digitChar_of_mem_toDigits (hone : 1 < radix) {c : Char}
    (hc : c ∈ Nat.toDigits radix n) : ∃ d < radix, c = Nat.digitChar d := by
  induction n using Nat.strongRecOn with
  | ind n ih =>
    by_cases hlt : n < radix
    · rw [Nat.toDigits_of_lt_base hlt] at hc
      exact ⟨n, hlt, List.mem_singleton.1 hc⟩
    · rw [Nat.toDigits_of_base_le hone (Nat.le_of_not_lt hlt)] at hc
      rcases List.mem_append.1 hc with hc | hc
      · exact ih _ (Nat.div_lt_self (by omega) hone) hc
      · exact ⟨n % radix, Nat.mod_lt n (by omega), List.mem_singleton.1 hc⟩

theorem Numeral.isDigitIn (h : Numeral radix digits n) (hone : 1 < radix) :
    ∀ c ∈ digits, IsDigitIn radix c := by
  intro c hc
  obtain ⟨zeros, h⟩ := h
  have hmem := List.mem_map_of_mem (f := Char.toLower) hc
  rw [h] at hmem
  rcases List.mem_append.1 hmem with hzero | hdigit
  · exact ⟨0, by omega, List.eq_of_mem_replicate hzero⟩
  · exact exists_digitChar_of_mem_toDigits hone hdigit

/-- A run of digits is read as the number that it writes, and is always the numeral of one. -/
theorem numeral_iff (hone : 1 < radix) (hradix : radix ≤ 16) : Numeral radix digits n ↔
    digits ≠ [] ∧ (∀ c ∈ digits, IsDigitIn radix c) ∧ ofDigits radix digits = n := by
  constructor
  · intro h
    have hdigits := h.isDigitIn hone
    obtain ⟨zeros, h⟩ := h
    refine ⟨?_, hdigits, ?_⟩
    · rintro rfl
      exact Nat.toDigits_ne_nil (List.append_eq_nil_iff.1 h.symm).2
    · rw [← ofDigits_map_toLower hradix hdigits, h, ofDigits_replicate_zero_append,
        ofDigits_toDigits hone hradix]
  · rintro ⟨hne, hdigits, rfl⟩
    induction digits using List.reverseRecOn with
    | nil => exact absurd rfl hne
    | append_singleton digits c ih =>
      obtain ⟨hinit, hlast⟩ := List.forall_mem_append.1 hdigits
      obtain ⟨d, hd, hc⟩ := hlast c List.mem_cons_self
      rw [ofDigits_append_singleton, digitValue_eq (by omega) hc]
      by_cases hempty : digits = []
      · subst hempty
        have hvalue : ofDigits radix [] * radix + d = d := by
          rw [ofDigits, List.foldl_nil, Nat.zero_mul, Nat.zero_add]
        rw [hvalue]
        refine ⟨0, ?_⟩
        rw [Nat.toDigits_of_lt_base hd]
        exact congrArg (· :: []) hc
      · obtain ⟨zeros, hwritten⟩ := ih hempty hinit
        generalize ofDigits radix digits = m at hwritten
        have hnext : (digits ++ [c]).map Char.toLower =
            List.replicate zeros '0' ++ Nat.toDigits radix m ++ Nat.toDigits radix d := by
          rw [List.map_append, hwritten, List.map_singleton, hc, Nat.toDigits_of_lt_base hd]
        rcases Nat.eq_zero_or_pos m with rfl | hpos
        · -- What stands before the last digit are zeros alone.
          refine ⟨zeros + 1, ?_⟩
          rw [hnext, Nat.toDigits_zero, Nat.zero_mul, Nat.zero_add, List.replicate_succ']
        · refine ⟨zeros, ?_⟩
          rw [hnext, List.append_assoc, Nat.toDigits_append_toDigits hone hpos hd, Nat.mul_comm]

theorem numeral_ten_iff : Numeral 10 digits n ↔
    digits ≠ [] ∧ (∀ c ∈ digits, isDigit c = true) ∧ ofDigits 10 digits = n := by
  rw [numeral_iff (by decide) (by decide)]
  simp only [isDigit_iff]

end Numerals

end LogicChip.Text

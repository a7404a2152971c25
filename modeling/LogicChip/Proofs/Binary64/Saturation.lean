import LogicChip.Binary64.Integral

namespace LogicChip.Binary64

/-- The integer that a finite value is cut to: of the value's sign, and of the greatest magnitude
that is not above the value's. -/
inductive Truncates : Binary64 → Int → Prop where
  | finite (negative : Bool) {magnitude count : Nat} (h : Representable magnitude)
    (hlower : count * scale ≤ magnitude) (hupper : magnitude < (count + 1) * scale) :
    Truncates (.finite negative magnitude h) (if negative then -count else count)

/-- The integer that a value is cut to, brought into a range. NaN counts as zero. -/
inductive Saturates (least greatest : Int) : Binary64 → Int → Prop where
  | nan : Saturates least greatest .nan 0
  | infinity (negative : Bool) :
    Saturates least greatest (.infinity negative) (if negative then least else greatest)
  | within {x : Binary64} {n : Int} (h : Truncates x n) (hlower : least ≤ n)
    (hupper : n ≤ greatest) : Saturates least greatest x n
  | below {x : Binary64} {n : Int} (h : Truncates x n) (hlower : n < least) :
    Saturates least greatest x least
  | above {x : Binary64} {n : Int} (h : Truncates x n) (hupper : greatest < n) :
    Saturates least greatest x greatest

theorem truncates_iff {x : Binary64} {n : Int} : Truncates x n ↔ x.truncated? = some n := by
  constructor
  · intro h
    cases h with
    | finite negative hmagnitude hlower hupper =>
      rw [truncated?, Nat.div_eq_of_lt_le hlower hupper]
      cases negative <;> rfl
  · intro h
    cases x with
    | nan => cases h
    | infinity negative => cases h
    | finite negative magnitude hmagnitude =>
      obtain rfl := Option.some.inj h
      have hcut := Truncates.finite negative hmagnitude (Nat.div_mul_le_self magnitude scale)
        (Nat.lt_mul_of_div_lt (Nat.lt_succ_self _) scale_pos)
      cases negative <;> exact hcut

variable {x : Binary64} {least greatest : Int}

theorem clamped_of_truncates {n : Int} (h : Truncates x n) (least greatest : Int) :
    x.clamped least greatest = max least (min greatest n) := by
  rw [truncates_iff] at h
  cases x with
  | nan => cases h
  | infinity negative => cases h
  | finite negative magnitude hmagnitude =>
    rw [← Option.some.inj h]
    rfl

theorem saturates_clamped (hrange : least ≤ greatest) (x : Binary64) :
    Saturates least greatest x (x.clamped least greatest) := by
  cases hpart : x.truncated? with
  | none =>
    cases x with
    | nan => exact .nan
    | infinity negative => exact .infinity negative
    | finite negative magnitude hmagnitude => cases hpart
  | some n =>
    have hcut := truncates_iff.2 hpart
    rw [clamped_of_truncates hcut]
    rcases Int.lt_or_le n least with hbelow | hlower
    · have hleast : max least (min greatest n) = least := by omega
      rw [hleast]
      exact .below hcut hbelow
    rcases Int.lt_or_le greatest n with habove | hupper
    · have hgreatest : max least (min greatest n) = greatest := by omega
      rw [hgreatest]
      exact .above hcut habove
    · have hsame : max least (min greatest n) = n := by omega
      rw [hsame]
      exact .within hcut hlower hupper

/-- There is one integer of a range that a value is brought to. -/
theorem saturates_iff (hrange : least ≤ greatest) {n : Int} :
    Saturates least greatest x n ↔ n = x.clamped least greatest := by
  constructor
  · intro h
    cases h with
    | nan => rfl
    | infinity negative => rfl
    | within h hlower hupper =>
      rw [clamped_of_truncates h]
      omega
    | below h hlower =>
      rw [clamped_of_truncates h]
      omega
    | above h hupper =>
      rw [clamped_of_truncates h]
      omega
  · rintro rfl
    exact saturates_clamped hrange x

theorem clamped_mem_range (hlower : least ≤ 0) (hupper : 0 ≤ greatest) (x : Binary64) :
    least ≤ x.clamped least greatest ∧ x.clamped least greatest ≤ greatest := by
  cases x with
  | nan => exact ⟨hlower, hupper⟩
  | infinity negative =>
    change least ≤ (if negative then least else greatest) ∧
      (if negative then least else greatest) ≤ greatest
    split <;> omega
  | finite negative magnitude h =>
    rw [clamped]
    omega

end LogicChip.Binary64

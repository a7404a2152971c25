import LogicChip.Proofs.Binary64.Magnitude
import LogicChip.Proofs.Operation.Expression

namespace LogicChip.Condition

open Binary64 (Incomparable maxNumber)
open Bitwise (perform)

theorem flag_eq_one_iff (holds : Bool) : flag holds = 1 ↔ holds = true := by
  cases holds with
  | false => exact ⟨fun h => absurd h.symm Binary64.one_ne_zero, fun h => by cases h⟩
  | true => exact ⟨fun _ => rfl, fun _ => rfl⟩

section Tolerance

variable (a b : Binary64)

/-- The least tolerance is a number and not below zero. -/
theorem least_tolerance : (epsilon * 8).isNaN = false ∧ 0 ≤ (epsilon * 8).place := by
  decide +kernel

theorem tolerance_comm (c : Binary64) : tolerance a b c = tolerance b a c := by
  rw [tolerance, Binary64.maxNumber_abs_comm, tolerance]

theorem place_tolerance (c : Binary64) : (tolerance a b c).isNaN = false ∧
    (tolerance a b c).place = max (c * maxNumber a.abs b.abs).place (epsilon * 8).place :=
  Binary64.place_maxNumber _ least_tolerance.1 least_tolerance.2

theorem tolerance_nonneg (c : Binary64) : 0 ≤ (tolerance a b c).place := by
  rw [(place_tolerance a b c).2]
  exact Int.le_trans least_tolerance.2 (Int.le_max_right _ _)

/-- A greater factor does not lower the tolerance, even where a product is not a number. -/
theorem tolerance_mono {c d : Binary64} (h : Binary64.le c d = true) :
    (tolerance a b c).place ≤ (tolerance a b d).place := by
  obtain ⟨x, hgreater⟩ := Binary64.exists_maxNumber_abs a b
  have hproduct := Binary64.place_mul_abs_le h x
  rw [(place_tolerance a b c).2, (place_tolerance a b d).2, hgreater]
  omega

end Tolerance

section Conditions

variable {a b : Binary64}

theorem sap_comm (a b c : Binary64) : sap a b c = sap b a c := by
  rw [sap, Binary64.abs_sub_comm, tolerance_comm, sap]

theorem sna_comm (a b c : Binary64) : sna a b c = sna b a c := by
  rw [sna, Binary64.abs_sub_comm, tolerance_comm, sna]

theorem isNaN_difference (h : ¬Incomparable a b) : (a - b).abs.isNaN = false := by
  rw [Binary64.isNaN_abs, ← Bool.not_eq_true, Binary64.isNaN_sub_iff]
  exact h

theorem sap_of_comparable (h : ¬Incomparable a b) (c : Binary64) :
    sap a b c = flag (decide ((a - b).abs.place ≤ (tolerance a b c).place)) := by
  rw [sap, Binary64.le_eq_decide_place (isNaN_difference h) (place_tolerance a b c).1]

theorem sna_of_comparable (h : ¬Incomparable a b) (c : Binary64) :
    sna a b c = flag (decide ((tolerance a b c).place < (a - b).abs.place)) := by
  rw [sna, Binary64.lt_eq_decide_place (place_tolerance a b c).1 (isNaN_difference h)]

/-- Where there is no difference neither condition holds. -/
theorem sap_sna_of_incomparable (h : Incomparable a b) (c : Binary64) :
    sap a b c = 0 ∧ sna a b c = 0 := by
  have hnone : (a - b).abs = .nan := by
    apply Binary64.eq_nan_of_isNaN
    rw [Binary64.isNaN_abs]
    exact (Binary64.isNaN_sub_iff a b).2 h
  rw [sap, sna, hnone, Binary64.nan_le, Binary64.lt_nan]
  exact ⟨rfl, rfl⟩

theorem comparable_of_sap_eq_one {c : Binary64} (h : sap a b c = 1) : ¬Incomparable a b := by
  intro hnone
  rw [(sap_sna_of_incomparable hnone c).1] at h
  exact Binary64.one_ne_zero h.symm

theorem sap_mono {c d : Binary64} (h : Binary64.le c d = true) (hnear : sap a b c = 1) :
    sap a b d = 1 := by
  have hcomparable := comparable_of_sap_eq_one hnear
  have htolerance := tolerance_mono a b h
  rw [sap_of_comparable hcomparable, flag_eq_one_iff, decide_eq_true_eq] at hnear ⊢
  exact Int.le_trans hnear htolerance

/-- Finite values at one place differ by zero, and no tolerance is less. -/
theorem sap_of_place_eq (ha : a.isFinite = true) (hb : b.isFinite = true)
    (h : a.place = b.place) (c : Binary64) : sap a b c = 1 := by
  have hcomparable : ¬Incomparable a b := by
    rintro (rfl | rfl | ⟨negative, rfl, _⟩)
    · cases ha
    · cases hb
    · cases ha
  rw [sap_of_comparable hcomparable, Binary64.place_abs_sub_of_place_eq ha hb h,
    flag_eq_one_iff, decide_eq_true_eq]
  exact tolerance_nonneg a b c

end Conditions

/-- The laws of two opposite conditions on how near two values are, by the factor of the
tolerance. -/
structure ApproximationLaws (a b : Binary64) (near far : Binary64 → Except Fault Binary64) :
    Prop where
  neither : Incomparable a b → ∀ c, near c = .ok 0 ∧ far c = .ok 0
  either : ¬Incomparable a b → ∀ c, near c = .ok 1 ∧ far c = .ok 0 ∨ near c = .ok 0 ∧ far c = .ok 1
  mono : ∀ c d, Binary64.le c d = true → near c = .ok 1 → near d = .ok 1

theorem approximationLaws (a b : Binary64) :
    ApproximationLaws a b (fun c => .ok (sap a b c)) (fun c => .ok (sna a b c)) where
  neither h c := by
    obtain ⟨hnear, hfar⟩ := sap_sna_of_incomparable h c
    exact ⟨congrArg _ hnear, congrArg _ hfar⟩
  either h c := by
    rw [sap_of_comparable h, sna_of_comparable h]
    by_cases hle : (a - b).abs.place ≤ (tolerance a b c).place
    · left
      rw [decide_eq_true hle, decide_eq_false (Int.not_lt.2 hle)]
      exact ⟨rfl, rfl⟩
    · right
      rw [decide_eq_false hle, decide_eq_true (Int.not_le.1 hle)]
      exact ⟨rfl, rfl⟩
  mono c d h hnear := congrArg _ (sap_mono h (Except.ok.inj hnear))

section Instructions

variable (g : Generator) (a b c : Binary64)

theorem perform_sap : perform g .sap [a, b, c] = .ok (sap a b c) := rfl

theorem perform_sna : perform g .sna [a, b, c] = .ok (sna a b c) := rfl

theorem perform_sapz : perform g .sapz [a, c] = .ok (sap a 0 c) := rfl

theorem perform_snaz : perform g .snaz [a, c] = .ok (sna a 0 c) := rfl

end Instructions

/-- The approximate comparisons of any two values, and of any value with zero. The order of the two
values does not matter. Neither condition holds if the values have no difference, and otherwise
exactly one does. A finite value is near itself by any factor, and what is near by one factor is
near by any greater one. -/
theorem approximate_comparisons (g : Generator) (a b : Binary64) :
    (∀ c, perform g .sap [a, b, c] = perform g .sap [b, a, c] ∧
      perform g .sna [a, b, c] = perform g .sna [b, a, c]) ∧
    ApproximationLaws a b (fun c => perform g .sap [a, b, c]) (fun c => perform g .sna [a, b, c]) ∧
    (a.isFinite = true → ∀ c, perform g .sap [a, a, c] = .ok 1) ∧
    (∀ c, perform g .sapz [a, c] = perform g .sap [0, a, c] ∧
      perform g .snaz [a, c] = perform g .sna [0, a, c]) ∧
    ApproximationLaws a 0 (fun c => perform g .sapz [a, c]) (fun c => perform g .snaz [a, c]) ∧
    ∀ negative c, perform g .sapz [.zero negative, c] = .ok 1 := by
  simp only [perform_sap, perform_sna, perform_sapz, perform_snaz]
  refine ⟨fun c => ?_, approximationLaws a b, fun h c => ?_, fun c => ?_, approximationLaws a 0,
    fun negative c => ?_⟩
  · rw [sap_comm, sna_comm]
    exact ⟨rfl, rfl⟩
  · rw [sap_of_place_eq h h rfl]
  · rw [sap_comm, sna_comm]
    exact ⟨rfl, rfl⟩
  · rw [Binary64.ofNat_zero_eq, sap_of_place_eq rfl rfl (by cases negative <;> rfl)]

/-- By the factor `1 / 64` infinity is near one, as the tolerance is infinite as well, and so by an
infinite factor too. It is neither near nor apart from itself, and a zero is near itself even by a
factor that is not a number. -/
theorem approximate_comparisons_of_infinity :
    let c : Binary64 := .ofBits 0x3f90000000000000
    (¬Incomparable (.infinity false) 1 ∧ Binary64.le c (.infinity false) = true ∧
      perform (.ofSeed 0) .sap [.infinity false, 1, c] = .ok 1) ∧
    perform (.ofSeed 0) .sna [.infinity false, 1, c] = .ok 0 ∧
    perform (.ofSeed 0) .sap [.infinity false, 1, .infinity false] = .ok 1 ∧
    (Incomparable (.infinity false) (.infinity false) ∧
      perform (.ofSeed 0) .sap [.infinity false, .infinity false, c] = .ok 0) ∧
    (Binary64.zero true).isFinite = true ∧
      perform (.ofSeed 0) .sap [.zero true, .zero true, .nan] = .ok 1 := by
  intro c
  have hcomparable : ¬Incomparable (.infinity false) 1 := by
    rw [← Binary64.isNaN_sub_iff]
    decide +kernel
  have hfactor : Binary64.le c (.infinity false) = true := by decide +kernel
  have hvalue : sap (.infinity false) 1 c = 1 := by decide +kernel
  have hnear : perform (.ofSeed 0) .sap [.infinity false, 1, c] = .ok 1 := by
    rw [perform_sap, hvalue]
  have hsame : Incomparable (.infinity false) (.infinity false) := .inr (.inr ⟨false, rfl, rfl⟩)
  obtain ⟨_, hlaws, _⟩ := approximate_comparisons (.ofSeed 0) (.infinity false) 1
  obtain ⟨_, hnone, _⟩ := approximate_comparisons (.ofSeed 0) (.infinity false) (.infinity false)
  obtain ⟨_, _, hself, _⟩ := approximate_comparisons (.ofSeed 0) (.zero true) 1
  have hapart : perform (.ofSeed 0) .sna [.infinity false, 1, c] = .ok 0 := by
    rcases hlaws.either hcomparable c with ⟨_, hfar⟩ | ⟨hfar, _⟩
    · exact hfar
    · exact absurd (Except.ok.inj (hnear.symm.trans hfar)) Binary64.one_ne_zero
  exact ⟨⟨hcomparable, hfactor, hnear⟩, hapart, hlaws.mono _ _ hfactor hnear,
    ⟨hsame, (hnone.neither hsame c).1⟩, rfl, hself rfl .nan⟩

end LogicChip.Condition

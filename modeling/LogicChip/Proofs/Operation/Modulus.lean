import LogicChip.Proofs.Binary64.Place
import LogicChip.Proofs.Operation.Expression

namespace LogicChip

namespace Binary64

/-- A remainder has no lower bits than its operands, and is not greater than they are. -/
theorem representable_mod {m n : Nat} (hm : Representable m) (hn : Representable n) (hpos : 0 < n) :
    Representable (m % n) := by
  have hlt : m % n < n := Nat.mod_lt m hpos
  have hdivisor : 2 ^ roundingExponent (m % n) ∣ n :=
    Nat.dvd_trans (Nat.pow_dvd_pow 2 (roundingExponent_le (Nat.le_of_lt hlt))) hn.2
  have hdividend : 2 ^ roundingExponent (m % n) ∣ m :=
    Nat.dvd_trans (Nat.pow_dvd_pow 2 (roundingExponent_le (Nat.mod_le m n))) hm.2
  exact ⟨Nat.lt_trans hlt hn.1, (Nat.dvd_mod_iff hdivisor).2 hdividend⟩

/-- The remainder of finite values is exact. -/
theorem finite_mod_finite {s t : Bool} {m n : Nat} (hm : Representable m) (hn : Representable n)
    (hpos : 0 < n) :
    finite s m hm % finite t n hn = finite s (m % n) (representable_mod hm hn hpos) := by
  calc finite s m hm % finite t n hn = ofUnits s (m % n) := if_neg (Nat.ne_of_gt hpos)
    _ = finite s (m % n) _ := ofUnits_of_representable s _

theorem exists_eq_finite_of_pos {x : Binary64} (hfinite : x.isFinite = true)
    (hpos : lt 0 x = true) : ∃ n h, x = finite false n h ∧ 0 < n := by
  cases x with
  | nan => cases hfinite
  | infinity negative => cases hfinite
  | finite negative n h =>
    rw [lt_eq_decide_place isNaN_zero rfl, place_zero, place_finite, decide_eq_true_eq] at hpos
    cases negative with
    | false => exact ⟨n, h, rfl, Int.natCast_pos.1 hpos⟩
    | true =>
      have hnegative : (0 : Int) < -n := hpos
      omega

/-- A negative value and a positive one of greater magnitude add to their difference, rounded. -/
theorem negative_add_positive {r n : Nat} (hr : Representable r) (hn : Representable n)
    (hpos : 0 < r) (h : r < n) :
    ∃ hdifference, finite true r hr + finite false n hn =
      finite false (nearest (n - r) 1) hdifference := by
  have hbelow : nearest (n - r) 1 < bound :=
    Nat.lt_of_le_of_lt (nearest_le_of_le_mul Nat.one_pos hn.2 (by omega)) hn.1
  have hsum : signed true r + signed false n = ((n - r : Nat) : Int) := by
    change -(r : Int) + n = _
    omega
  refine ⟨representable_nearest hbelow, ?_⟩
  change ofSum _ (signed true r + signed false n) = _
  rw [hsum, ofSum, if_neg (by omega), decide_eq_false (by omega), Int.natAbs_natCast, ofUnits,
    ofRatio, dif_pos hbelow]

end Binary64

namespace Arithmetic

open Binary64 (Representable nearest RoundsUpTo signed)
open Bitwise (perform)

/-- The remainder of the exact quotient rounded down, in units. -/
def residue (a b : Binary64) : Nat := (a.place % b.place).toNat

section Finite

variable {m n : Nat} (hm : Representable m) (hn : Representable n)

theorem residue_of_nonneg : residue (.finite false m hm) (.finite false n hn) = m % n := rfl

theorem residue_of_neg (hpos : 0 < n) : residue (.finite true m hm) (.finite false n hn) =
    if m % n = 0 then 0 else n - m % n := by
  have hrest : m % n < n := Nat.mod_lt m hpos
  have hsplit : -(m : Int) = -(m % n : Nat) + n * -(m / n : Nat) := by
    have h := Nat.mod_add_div m n
    rw [Int.mul_neg, ← Int.neg_add, ← Int.natCast_mul, ← Int.natCast_add, h]
  change (-(m : Int) % n).toNat = _
  rw [hsplit, Int.add_mul_emod_self_left]
  split
  · rename_i hzero
    rw [hzero]
    simp
  · rw [← Int.add_emod_right, Int.emod_eq_of_lt (by omega) (by omega)]
    omega

theorem mod_finite (s t : Bool) (hpos : 0 < n) : mod (.finite s m hm) (.finite t n hn) =
    if signed s (m % n : Nat) < 0 then
      .finite s (m % n) (Binary64.representable_mod hm hn hpos) + .finite t n hn
    else .finite s (m % n) (Binary64.representable_mod hm hn hpos) := by
  rw [mod, Binary64.finite_mod_finite hm hn hpos,
    Binary64.lt_eq_decide_place rfl Binary64.isNaN_zero]
  simp

end Finite

/-- By a positive divisor the result is the residue, rounded. -/
theorem mod_eq_nearest {a b : Binary64} (ha : a.isFinite = true) (hb : b.isFinite = true)
    (hpos : Binary64.lt 0 b = true) : ∃ negative h,
      mod a b = .finite negative (nearest (residue a b) 1) h ∧
        (mod a b).place = nearest (residue a b) 1 := by
  obtain ⟨n, hn, rfl, hn0⟩ := Binary64.exists_eq_finite_of_pos hb hpos
  cases a with
  | nan => cases ha
  | infinity negative => cases ha
  | finite negative m hm =>
    have hremainder := Binary64.representable_mod hm hn hn0
    rw [mod_finite hm hn _ _ hn0]
    cases negative with
    | false =>
      have hsign : ¬signed false (m % n) < 0 := Int.not_lt.2 (Int.natCast_nonneg _)
      simp only [residue_of_nonneg, Binary64.nearest_of_representable hremainder, if_neg hsign]
      exact ⟨false, hremainder, rfl, rfl⟩
    | true =>
      rw [residue_of_neg hm hn hn0]
      by_cases hzero : m % n = 0
      · simp only [hzero, Binary64.signed_zero, Int.lt_irrefl, if_false, if_true,
          Binary64.nearest_zero Nat.one_pos]
        exact ⟨true, Binary64.representable_zero, rfl, rfl⟩
      · have hsign : signed true (m % n) < 0 := by
          change -((m % n : Nat) : Int) < 0
          omega
        obtain ⟨hdifference, hsum⟩ := Binary64.negative_add_positive hremainder hn
          (Nat.pos_of_ne_zero hzero) (Nat.mod_lt m hn0)
        rw [if_pos hsign, if_neg hzero, hsum]
        exact ⟨false, hdifference, rfl, rfl⟩

theorem perform_mod (g : Generator) (a b : Binary64) : perform g .mod [a, b] = .ok (mod a b) := rfl

theorem residue_lt {a b : Binary64} (h : 0 < b.place) : residue a b < b.place.toNat := by
  have hlower := Int.emod_nonneg a.place (Int.ne_of_gt h)
  have hupper := Int.emod_lt_of_pos a.place h
  unfold residue
  omega

/-- By a positive divisor the result is finite, not negative and not above the divisor. It is the
divisor exactly where the residue is rounded up to it, and below it otherwise. -/
theorem mod_below_divisor_iff (g : Generator) {a b : Binary64} (ha : a.isFinite = true)
    (hb : b.isFinite = true) (hpos : Binary64.lt 0 b = true) :
    ∃ y, perform g .mod [a, b] = .ok y ∧ y.isFinite = true ∧
      y.place = nearest (residue a b) 1 ∧ Binary64.le 0 y = true ∧ Binary64.le y b = true ∧
      (Binary64.lt y b = true ↔ ¬RoundsUpTo b.place.toNat (residue a b)) := by
  obtain ⟨negative, h, hvalue, hplace⟩ := mod_eq_nearest ha hb hpos
  obtain ⟨n, hn, rfl, hn0⟩ := Binary64.exists_eq_finite_of_pos hb hpos
  have hnan : (mod a (.finite false n hn)).isNaN = false := by rw [hvalue]; rfl
  have hresidue : residue a (.finite false n hn) < n := residue_lt (Int.natCast_pos.2 hn0)
  have hle : nearest (residue a (.finite false n hn)) 1 ≤ n :=
    Binary64.nearest_le_of_le_mul Nat.one_pos hn.2 (by omega)
  refine ⟨_, perform_mod g a _, by rw [hvalue]; rfl, hplace, ?_, ?_, ?_⟩
  · rw [Binary64.le_eq_decide_place Binary64.isNaN_zero hnan, hplace]
    simp
  · rw [Binary64.le_eq_decide_place hnan rfl, hplace, decide_eq_true_eq]
    exact Int.ofNat_le.2 hle
  · rw [Binary64.lt_eq_decide_place hnan rfl, hplace, decide_eq_true_eq, Binary64.place_finite,
      Binary64.signed_false, Int.toNat_natCast, ← Binary64.nearest_eq_iff_of_lt hn hresidue]
    omega

/-- By one, a remainder a little beyond the middle of the last step before one. -/
theorem mod_below_divisor_iff_beyond_middle :
    let a : Binary64 := .ofBits 0xbc90000000000001
    a.isFinite = true ∧ (1 : Binary64).isFinite = true ∧ Binary64.lt 0 1 = true ∧
      ∃ y, perform (.ofSeed 0) .mod [a, 1] = .ok y ∧ Binary64.lt y 1 = true := by
  intro a
  have ha : a.isFinite = true := by decide +kernel
  have hb : (1 : Binary64).isFinite = true := by decide +kernel
  have hpos : Binary64.lt 0 1 = true := by decide +kernel
  obtain ⟨y, hresult, _, _, _, _, hbelow⟩ := mod_below_divisor_iff (.ofSeed 0) ha hb hpos
  exact ⟨ha, hb, hpos, y, hresult, hbelow.2 (by decide +kernel)⟩

/-- By one, the remainder `-2 ^ (-54)` in the middle of that step, which is moved up to one. -/
theorem mod_reaches_divisor :
    let a : Binary64 := .ofBits 0xbc90000000000000
    a.isFinite = true ∧ (1 : Binary64).isFinite = true ∧ Binary64.lt 0 1 = true ∧
      perform (.ofSeed 0) .mod [a, 1] = .ok 1 ∧ Binary64.lt 1 1 = false := by
  intro a
  have hvalue : mod a 1 = 1 := by decide +kernel
  exact ⟨by decide +kernel, by decide +kernel, by decide +kernel,
    (perform_mod _ a 1).trans (congrArg Except.ok hvalue), by decide +kernel⟩

end Arithmetic

end LogicChip

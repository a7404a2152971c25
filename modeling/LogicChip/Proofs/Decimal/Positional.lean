import LogicChip.Decimal.Layout
import LogicChip.Decimal.Scan
import LogicChip.Proofs.Decimal.Value

namespace LogicChip

namespace Text

/-- What follows an operand: nothing, or the space before another. -/
def Separated : List Char → Prop
  | [] => True
  | c :: _ => c = ' '

theorem takeWhile_run {p : Char → Bool} {run rest : List Char} (hrun : ∀ c ∈ run, p c = true)
    (hrest : rest.takeWhile p = []) : (run ++ rest).takeWhile p = run := by
  rw [List.takeWhile_append_of_pos hrun, hrest, List.append_nil]

theorem Separated.takeWhile_eq_nil {p : Char → Bool} {rest : List Char} (h : Separated rest)
    (hspace : p ' ' = false) : rest.takeWhile p = [] := by
  cases rest with
  | nil => rfl
  | cons c rest =>
    cases h
    rw [List.takeWhile_cons, if_neg (by simp [hspace])]

theorem foldl_digits (radix n : Nat) (ds : List Char) :
    ds.foldl (fun n c => n * radix + digitValue c) n = n * radix ^ ds.length + ofDigits radix ds := by
  induction ds generalizing n with
  | nil => simp [ofDigits]
  | cons c ds ih =>
    have hdigit : ofDigits radix (c :: ds) =
        ds.foldl (fun n c => n * radix + digitValue c) (0 * radix + digitValue c) := rfl
    rw [hdigit, List.foldl_cons, ih, ih, Nat.zero_mul, Nat.zero_add, List.length_cons, Nat.pow_succ,
      Nat.add_mul, Nat.mul_assoc, Nat.mul_comm radix, Nat.add_assoc]

theorem ofDigits_append (radix : Nat) (xs ys : List Char) :
    ofDigits radix (xs ++ ys) = ofDigits radix xs * radix ^ ys.length + ofDigits radix ys := by
  rw [ofDigits, List.foldl_append, ← ofDigits, foldl_digits]

theorem ofDigits_zeros (radix count : Nat) : ofDigits radix (List.replicate count '0') = 0 := by
  induction count with
  | zero => rfl
  | succ count ih =>
    have hzero : digitValue '0' = 0 := by decide
    rw [List.replicate_succ', ofDigits_append_singleton, ih, hzero, Nat.zero_mul]

theorem isDigit_of_mem_zeros {count : Nat} {c : Char} (h : c ∈ List.replicate count '0') :
    isDigit c = true := by
  rw [List.eq_of_mem_replicate h]
  decide

theorem isDigit_of_mem_digits {n : Nat} {c : Char} (h : c ∈ digits n) : isDigit c = true :=
  List.all_eq_true.1 (digits_all_isDigit n) c h

end Text

namespace Decimal

open Text (isDigit ofDigits digits Separated)

/-- The digits of a fraction with the point before them, if there are any. -/
def pointed : List Char → List Char
  | [] => []
  | fraction => '.' :: fraction

theorem pointed_of_length_pos {fraction : List Char} (h : 0 < fraction.length) :
    pointed fraction = '.' :: fraction := by
  cases fraction with
  | nil => cases h
  | cons c fraction => rfl

theorem takeWhile_pointed {fraction rest : List Char} (hrest : Separated rest) :
    (pointed fraction ++ rest).takeWhile isDigit = [] := by
  cases fraction with
  | nil => exact hrest.takeWhile_eq_nil (by decide)
  | cons c fraction => rfl

theorem fractionDigits_pointed {fraction rest : List Char}
    (hfraction : ∀ c ∈ fraction, isDigit c = true) (hrest : Separated rest) :
    fractionDigits (pointed fraction ++ rest) = fraction := by
  cases fraction with
  | nil =>
    cases rest with
    | nil => rfl
    | cons c rest =>
      cases hrest
      rfl
  | cons c fraction => exact Text.takeWhile_run hfraction (hrest.takeWhile_eq_nil (by decide))

theorem fractionLength_eq (fraction : List Char) :
    fractionLength fraction = (pointed fraction).length := by
  cases fraction <;> rfl

theorem scanExponent_of_separated {rest : List Char} (h : Separated rest) :
    scanExponent rest = (0, 0) := by
  cases rest with
  | nil => rfl
  | cons c rest =>
    cases h
    rfl

/-- A text is an unsigned literal without an exponent: its digits make up the coefficient, and so
many of them stand after the point. -/
def Spells (text : List Char) (coefficient places : Nat) : Prop :=
  ∃ whole fraction, text = whole ++ pointed fraction ∧ whole ≠ [] ∧
    (∀ c ∈ whole ++ fraction, isDigit c = true) ∧ ofDigits 10 (whole ++ fraction) = coefficient ∧
    fraction.length = places

theorem Spells.scanMagnitude? {text : List Char} {coefficient places : Nat}
    (h : Spells text coefficient places) (negative : Bool) {rest : List Char}
    (hrest : Separated rest) : Decimal.scanMagnitude? negative (text ++ rest) =
      some (⟨negative, coefficient, -places⟩, text.length) := by
  obtain ⟨whole, fraction, rfl, hne, hdigits, rfl, rfl⟩ := h
  have hwhole : ∀ c ∈ whole, isDigit c = true := fun c hc =>
    hdigits c (List.mem_append_left _ hc)
  have hfraction : ∀ c ∈ fraction, isDigit c = true := fun c hc =>
    hdigits c (List.mem_append_right _ hc)
  have hrun : (whole ++ (pointed fraction ++ rest)).takeWhile isDigit = whole :=
    Text.takeWhile_run hwhole (takeWhile_pointed hrest)
  have hnonempty : whole.isEmpty = false := List.isEmpty_eq_false_iff.2 hne
  unfold Decimal.scanMagnitude?
  rw [List.append_assoc, hrun]
  simp only [hnonempty, List.drop_left, fractionDigits_pointed hfraction hrest, fractionLength_eq,
    scanExponent_of_separated hrest, Bool.false_eq_true, if_false, List.length_append, Nat.add_zero,
    Int.zero_sub]

theorem Spells.exists_eq_cons {text : List Char} {coefficient places : Nat}
    (h : Spells text coefficient places) : ∃ c tail, text = c :: tail ∧ isDigit c = true := by
  obtain ⟨whole, fraction, rfl, hne, hdigits, _⟩ := h
  cases whole with
  | nil => exact absurd rfl hne
  | cons c whole => exact ⟨c, _, rfl, hdigits c List.mem_cons_self⟩

theorem Spells.mem {text : List Char} {coefficient places : Nat}
    (h : Spells text coefficient places) {c : Char} (hc : c ∈ text) : isDigit c = true ∨ c = '.' := by
  obtain ⟨whole, fraction, rfl, _, hdigits, _⟩ := h
  rcases List.mem_append.1 hc with hc | hc
  · exact .inl (hdigits c (List.mem_append_left _ hc))
  · cases fraction with
    | nil => cases hc
    | cons d fraction =>
      rcases List.mem_cons.1 hc with hc | hc
      · exact .inr hc
      · exact .inl (hdigits c (List.mem_append_right _ hc))

/-- Putting the point into digits keeps the number that they spell. -/
theorem spells_withPoint {ds : List Char} (hdigits : ∀ c ∈ ds, isDigit c = true) {places : Nat}
    (hplaces : 0 < places) : Spells (withPoint ds places) (ofDigits 10 ds) places := by
  unfold withPoint
  by_cases hinside : places < ds.length
  · rw [if_pos hinside]
    have hlength : (ds.drop (ds.length - places)).length = places := by
      rw [List.length_drop]
      omega
    refine ⟨ds.take (ds.length - places), ds.drop (ds.length - places), ?_, ?_, ?_, ?_, hlength⟩
    · rw [pointed_of_length_pos (by omega)]
    · intro hempty
      have hcount := congrArg List.length hempty
      rw [List.length_take, List.length_nil] at hcount
      omega
    · rw [List.take_append_drop]
      exact hdigits
    · rw [List.take_append_drop]
  · rw [if_neg hinside]
    have hlength : (List.replicate (places - ds.length) '0' ++ ds).length = places := by
      rw [List.length_append, List.length_replicate]
      omega
    have hwhole : ['0'] ++ (List.replicate (places - ds.length) '0' ++ ds) =
        List.replicate (places - ds.length + 1) '0' ++ ds := rfl
    refine ⟨['0'], List.replicate (places - ds.length) '0' ++ ds, ?_, ?_, ?_, ?_, hlength⟩
    · rw [pointed_of_length_pos (by omega)]
      rfl
    · exact List.cons_ne_nil _ _
    · intro c hc
      rw [hwhole] at hc
      rcases List.mem_append.1 hc with hc | hc
      · exact Text.isDigit_of_mem_zeros hc
      · exact hdigits c hc
    · rw [hwhole, Text.ofDigits_append, Text.ofDigits_zeros, Nat.zero_mul, Nat.zero_add]

/-- A positional text spells its decimal, with a negative exponent as places and any other written
out. -/
theorem spells_positional (coefficient : Nat) (exponent : Int) :
    Spells (positional false coefficient exponent) (coefficient * 10 ^ exponent.toNat)
      (-exponent).toNat := by
  have hdigits : ∀ c ∈ digits coefficient, isDigit c = true := fun c h =>
    Text.isDigit_of_mem_digits h
  unfold positional
  by_cases hexponent : 0 ≤ exponent
  · rw [if_pos hexponent]
    refine ⟨digits coefficient ++ List.replicate exponent.toNat '0', [], ?_, ?_, ?_, ?_, ?_⟩
    · rfl
    · intro hempty
      exact Text.digits_ne_nil coefficient (List.append_eq_nil_iff.1 hempty).1
    · intro c hc
      rw [List.append_nil] at hc
      rcases List.mem_append.1 hc with hc | hc
      · exact hdigits c hc
      · exact Text.isDigit_of_mem_zeros hc
    · rw [List.append_nil, Text.ofDigits_append, Text.ofDigits_digits, Text.ofDigits_zeros,
        List.length_replicate, Nat.add_zero]
    · rw [List.length_nil]
      omega
  · rw [if_neg hexponent]
    have hplaces : 0 < (-exponent).toNat := by omega
    have hspells := spells_withPoint hdigits hplaces
    have hnone : exponent.toNat = 0 := by omega
    rw [Text.ofDigits_digits] at hspells
    rw [hnone, Nat.pow_zero, Nat.mul_one]
    exact hspells

/-- The decimal that the positional text of another spells. Zeros that are written out have become
part of its coefficient. -/
def written (d : Decimal) : Decimal :=
  ⟨d.negative, d.coefficient * 10 ^ d.exponent.toNat, -(-d.exponent).toNat⟩

theorem value_written (d : Decimal) : d.written.value = d.value := by
  have hnone : (-((-d.exponent).toNat : Int)).toNat = 0 := by omega
  have hplaces : (- -((-d.exponent).toNat : Int)).toNat = (-d.exponent).toNat := by omega
  have hnumerator : d.written.numerator = d.numerator := by
    simp only [numerator, written, hnone, Nat.pow_zero, Nat.mul_one]
  have hdenominator : d.written.denominator = d.denominator := by
    simp only [denominator, written, hplaces]
  rw [value_eq_ofRatio, value_eq_ofRatio, hnumerator, hdenominator]
  rfl

theorem decimal_plain (d : Decimal) : Layout.plain.decimal d =
    if d.negative then '-' :: positional false d.coefficient d.exponent
    else positional false d.coefficient d.exponent := rfl

theorem scan?_of_isDigit {c : Char} (h : isDigit c = true) (rest : List Char) :
    scan? (c :: rest) = scanMagnitude? false (c :: rest) := by
  unfold scan?
  split
  · rename_i heq
    cases heq
    exact absurd h (by decide)
  · rfl

theorem scan?_minus (rest : List Char) :
    scan? ('-' :: rest) = (scanMagnitude? true rest).map fun found => (found.1, found.2 + 1) := rfl

/-- A decimal as an operand is written is scanned up to its end. -/
theorem scan?_decimal (d : Decimal) {rest : List Char} (hrest : Separated rest) :
    scan? (Layout.plain.decimal d ++ rest) = some (d.written, (Layout.plain.decimal d).length) := by
  have hspells := spells_positional d.coefficient d.exponent
  obtain ⟨negative, coefficient, exponent⟩ := d
  rw [decimal_plain]
  cases negative with
  | false =>
    have hscan := hspells.scanMagnitude? false hrest
    obtain ⟨c, tail, htext, hdigit⟩ := hspells.exists_eq_cons
    rw [htext] at hscan ⊢
    exact (scan?_of_isDigit hdigit _).trans hscan
  | true =>
    have hscan := hspells.scanMagnitude? true hrest
    rw [if_pos rfl, List.cons_append, scan?_minus, hscan]
    rfl

end Decimal

end LogicChip

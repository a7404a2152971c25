import LogicChip.Proofs.Assembly.IntegerLiteral

namespace LogicChip.Assembly.Pattern

open Text (IsDigitIn Numeral numeral_iff)

/-- A number that is read from digits of a radix and underscores is the one that the digits write.
-/
theorem integer?_eq_some_iff {radix : Nat} {written : List Char} {n : UInt64} (hone : 1 < radix)
    (hradix : radix ≤ 16) (hwritten : ∀ c ∈ written, IsPart radix c) :
    integer? radix written = some n ↔ Numeral radix (written.filter (· ≠ '_')) n.toNat := by
  have hdigits := isDigitIn_of_isPart hwritten
  have hsize : n.toNat < 2 ^ 64 := n.toNat_lt
  rw [numeral_iff hone hradix, ofDigits_eq]
  unfold integer?
  dsimp only
  generalize written.filter (· ≠ '_') = digits at hdigits
  generalize Nat.ofDigits radix (digits.reverse.map Text.digitValue) = value
  by_cases hnone : digits = [] ∨ 2 ^ 64 - 1 < value
  · rw [if_pos hnone]
    constructor
    · intro h
      cases h
    · rintro ⟨hne, _, rfl⟩
      have hlarge := hnone.resolve_left hne
      omega
  · obtain ⟨hne, hsmall⟩ := not_or.1 hnone
    have hvalue : (UInt64.ofNat value).toNat = value :=
      UInt64.toNat_ofNat_of_lt' (by change value < 2 ^ 64; omega)
    rw [if_neg hnone, Option.some_inj, ← UInt64.toNat_inj, hvalue]
    exact ⟨fun h => ⟨hne, hdigits, h⟩, fun h => h.2.2⟩

section Marked

variable {mark : Char} {radix : Nat} {isRadixDigit : Char → Bool} {word : List Char} {n : UInt64}

theorem isPart_of_marked (hclass : ∀ c, isRadixDigit c = true ↔ IsDigitIn radix c)
    (h : word ∈ marked mark isRadixDigit) : ∀ c ∈ word.tail, IsPart radix c := by
  obtain ⟨_, rfl, written, hrun, rfl⟩ := Language.mem_mul.1 h
  intro c hc
  have hpart := (Text.mem_runs.1 hrun).2 c hc
  rw [Bool.or_eq_true, decide_eq_true_eq, hclass] at hpart
  exact hpart

/-- A token after a mark holds the number that the digits behind it write. -/
theorem token?_marked_iff {token : UInt64 → Token} (htoken : Function.Injective token)
    (hone : 1 < radix) (hradix : radix ≤ 16)
    (hclass : ∀ c, isRadixDigit c = true ↔ IsDigitIn radix c)
    (h : word ∈ marked mark isRadixDigit) :
    (integer? radix word.tail).map token = some (token n) ↔
      Numeral radix (word.tail.filter (· ≠ '_')) n.toNat := by
  rw [← Option.map_some, (Option.map_injective htoken).eq_iff]
  exact integer?_eq_some_iff hone hradix (isPart_of_marked hclass h)

end Marked

theorem token?_hex_iff {word : List Char} (h : word ∈ hex.language) {n : UInt64} :
    hex.token? word = some (.hex n) ↔ Numeral 16 (word.tail.filter (· ≠ '_')) n.toNat :=
  token?_marked_iff (fun _ _ => Token.hex.inj) (by decide) (by decide)
    (fun _ => Text.isHexDigit_iff) h

theorem token?_binary_iff {word : List Char} (h : word ∈ binary.language) {n : UInt64} :
    binary.token? word = some (.binary n) ↔ Numeral 2 (word.tail.filter (· ≠ '_')) n.toNat :=
  token?_marked_iff (fun _ _ => Token.binary.inj) (by decide) (by decide)
    (fun _ => isBinaryDigit_iff) h

/-- The token of a decimal literal holds the value nearest to the number that the literal writes,
and a zero has the sign that is written. -/
theorem token?_number {word : List Char} (h : word ∈ number.language) :
    ∃ (d : Decimal) (x : Binary64), Decimal.Writes word d ∧
      number.token? word = some (.number x) ∧
      x.IsRounded (Binary64.signed d.negative d.numerator) d.denominator ∧
      (x.place = 0 → x = .zero d.negative) :=
  ⟨Decimal.ofLiteral word, (Decimal.ofLiteral word).value, Decimal.writes_iff.2 ⟨h, rfl⟩, rfl,
    Decimal.isRounded_value _, Decimal.value_eq_zero_of_place⟩

end LogicChip.Assembly.Pattern

import LogicChip.Proofs.Decimal.Literal
import LogicChip.Proofs.Text.DigitTable

namespace LogicChip.Decimal

open Text (isDigit ofDigits optional Numeral numeral_ten_iff)

/-- The power of ten that is written after the digits of a literal. Nothing writes zero. -/
inductive WritesPower : List Char → Int → Prop where
  | none : WritesPower [] 0
  | unsigned {mark : Char} {digits : List Char} {n : Nat} (hmark : isExponentMark mark = true)
    (h : Numeral 10 digits n) : WritesPower (mark :: digits) n
  | plus {mark : Char} {digits : List Char} {n : Nat} (hmark : isExponentMark mark = true)
    (h : Numeral 10 digits n) : WritesPower (mark :: '+' :: digits) n
  | minus {mark : Char} {digits : List Char} {n : Nat} (hmark : isExponentMark mark = true)
    (h : Numeral 10 digits n) : WritesPower (mark :: '-' :: digits) (-n)

/-- A literal without a sign writes the number of all its digits before the power, scaled by the
power less the number of digits after the point. -/
inductive WritesMagnitude : List Char → Nat → Int → Prop where
  | mk {whole fraction exponent : List Char} {n : Nat} {power : Int} (hwhole : whole ≠ [])
    (hdigits : Numeral 10 (whole ++ fraction) n) (hpower : WritesPower exponent power) :
    WritesMagnitude (whole ++ pointed fraction ++ exponent) n (power - fraction.length)

/-- The decimal that a literal writes. -/
inductive Writes : List Char → Decimal → Prop where
  | positive {literal : List Char} {n : Nat} {exponent : Int}
    (h : WritesMagnitude literal n exponent) : Writes literal ⟨false, n, exponent⟩
  | negative {literal : List Char} {n : Nat} {exponent : Int}
    (h : WritesMagnitude literal n exponent) : Writes ('-' :: literal) ⟨true, n, exponent⟩

theorem writesPower_iff {exponent : List Char} {power : Int} : WritesPower exponent power ↔
    exponent ∈ optional exponents ∧ writtenExponent (exponent.drop 1) = power := by
  constructor
  · have hmem : ∀ {mark sign digits}, isExponentMark mark = true →
        sign ∈ optional (Text.one isSign) → digits ≠ [] → (∀ c ∈ digits, isDigit c = true) →
        [mark] ++ sign ++ digits ∈ optional exponents := fun hmark hsign hne hdigits =>
      .inr (Language.append_mem_mul (Language.append_mem_mul ⟨_, hmark, rfl⟩ hsign)
        (Text.mem_runs.2 ⟨hne, hdigits⟩))
    rintro (_ | ⟨hmark, hnumeral⟩ | ⟨hmark, hnumeral⟩ | ⟨hmark, hnumeral⟩)
    · exact ⟨.inl rfl, rfl⟩
    · obtain ⟨hne, hdigits, hvalue⟩ := numeral_ten_iff.1 hnumeral
      exact ⟨hmem hmark (.inl rfl) hne hdigits,
        (writtenExponent_digits hdigits).trans (congrArg Nat.cast hvalue)⟩
    · obtain ⟨hne, hdigits, rfl⟩ := numeral_ten_iff.1 hnumeral
      exact ⟨hmem hmark (.inr ⟨'+', by decide, rfl⟩) hne hdigits, rfl⟩
    · obtain ⟨hne, hdigits, rfl⟩ := numeral_ten_iff.1 hnumeral
      exact ⟨hmem hmark (.inr ⟨'-', by decide, rfl⟩) hne hdigits, rfl⟩
  · rintro ⟨rfl | hexponent, rfl⟩
    · exact .none
    · obtain ⟨_, hstart, digits, hrun, rfl⟩ := Language.mem_mul.1 hexponent
      obtain ⟨_, ⟨mark, hmark, rfl⟩, sign, hsign, rfl⟩ := Language.mem_mul.1 hstart
      obtain ⟨hne, hdigits⟩ := Text.mem_runs.1 hrun
      have hnumeral := numeral_ten_iff.2 ⟨hne, hdigits, rfl⟩
      rcases hsign with rfl | ⟨c, hc, rfl⟩
      · have hvalue : writtenExponent (([mark] ++ [] ++ digits).drop 1) = ofDigits 10 digits :=
          writtenExponent_digits hdigits
        rw [hvalue]
        exact .unsigned hmark hnumeral
      · rcases isSign_iff.1 hc with rfl | rfl
        · exact .plus hmark hnumeral
        · exact .minus hmark hnumeral

theorem pointed_mem {fraction : List Char} (h : ∀ c ∈ fraction, isDigit c = true) :
    pointed fraction ∈ optional fractions := by
  cases fraction with
  | nil => exact .inl rfl
  | cons c fraction =>
    exact .inr (Language.append_mem_mul (a := ['.']) rfl
      (Text.mem_runs.2 ⟨List.cons_ne_nil c fraction, h⟩))

theorem exists_eq_pointed {text : List Char} (h : text ∈ optional fractions) :
    ∃ fraction, text = pointed fraction ∧ ∀ c ∈ fraction, isDigit c = true := by
  rcases h with rfl | h
  · exact ⟨[], rfl, fun _ hc => by cases hc⟩
  · obtain ⟨_, rfl, fraction, hfraction, rfl⟩ := Language.mem_mul.1 h
    obtain ⟨hne, hdigits⟩ := Text.mem_runs.1 hfraction
    refine ⟨fraction, ?_, hdigits⟩
    rw [pointed_of_length_pos (List.length_pos_of_ne_nil hne)]
    rfl

theorem writesMagnitude_iff {literal : List Char} (negative : Bool) {n : Nat} {exponent : Int} :
    WritesMagnitude literal n exponent ↔
      literal ∈ magnitudes ∧ ofMagnitudeLiteral negative literal = ⟨negative, n, exponent⟩ := by
  have hmark : ∀ {exponent}, exponent ∈ optional exponents → ∀ c rest, exponent = c :: rest →
      isExponentMark c = true := by
    rintro _ hexponent c rest rfl
    exact beginsWith_exponents.optional c rest hexponent
  constructor
  · rintro ⟨hne, hnumeral, hpower⟩
    obtain ⟨_, hdigits, rfl⟩ := numeral_ten_iff.1 hnumeral
    obtain ⟨hwhole, hfraction⟩ := List.forall_mem_append.1 hdigits
    obtain ⟨hexponent, rfl⟩ := writesPower_iff.1 hpower
    refine ⟨?_, ofMagnitudeLiteral_append negative hwhole hfraction (hmark hexponent)⟩
    exact Language.append_mem_mul (Language.append_mem_mul
      (Text.mem_runs.2 ⟨hne, hwhole⟩) (pointed_mem hfraction)) hexponent
  · rintro ⟨hliteral, hvalue⟩
    obtain ⟨_, hmantissa, exponent, hexponent, rfl⟩ := Language.mem_mul.1 hliteral
    obtain ⟨whole, hrun, _, hpointed, rfl⟩ := Language.mem_mul.1 hmantissa
    obtain ⟨hne, hwhole⟩ := Text.mem_runs.1 hrun
    obtain ⟨fraction, rfl, hfraction⟩ := exists_eq_pointed hpointed
    rw [ofMagnitudeLiteral_append negative hwhole hfraction (hmark hexponent)] at hvalue
    cases hvalue
    exact .mk hne (numeral_ten_iff.2 ⟨List.append_ne_nil_of_left_ne_nil hne fraction,
      List.forall_mem_append.2 ⟨hwhole, hfraction⟩, rfl⟩) (writesPower_iff.2 ⟨hexponent, rfl⟩)

/-- The literals are the texts that write a decimal, and each is read as the decimal that it
writes. -/
theorem writes_iff {text : List Char} {d : Decimal} :
    Writes text d ↔ text ∈ literals ∧ ofLiteral text = d := by
  have hunsigned : ∀ {literal}, literal ∈ magnitudes → ∀ rest, literal ≠ '-' :: rest := by
    rintro _ hliteral rest rfl
    exact absurd (beginsWith_magnitudes '-' rest hliteral) (by decide)
  constructor
  · rintro (h | h)
    · obtain ⟨hliteral, hvalue⟩ := (writesMagnitude_iff false).1 h
      refine ⟨Language.append_mem_mul (a := []) (.inl rfl) hliteral, ?_⟩
      rw [ofLiteral_of_unsigned (hunsigned hliteral), hvalue]
    · obtain ⟨hliteral, hvalue⟩ := (writesMagnitude_iff true).1 h
      exact ⟨Language.append_mem_mul (a := ['-']) (.inr rfl) hliteral, hvalue⟩
  · rintro ⟨h, rfl⟩
    obtain ⟨sign, hsign, literal, hliteral, rfl⟩ := Language.mem_mul.1 h
    rcases hsign with rfl | rfl
    · rw [List.nil_append, ofLiteral_of_unsigned (hunsigned hliteral)]
      exact .positive ((writesMagnitude_iff false).2 ⟨hliteral, rfl⟩)
    · exact .negative ((writesMagnitude_iff true).2 ⟨hliteral, rfl⟩)

end LogicChip.Decimal

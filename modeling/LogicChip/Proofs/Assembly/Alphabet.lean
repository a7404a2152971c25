import LogicChip.Proofs.Assembly.Pattern
import LogicChip.Proofs.Text.Alphabet

namespace LogicChip.Assembly

open Text (Over isDigit isHexDigit)
open Lexeme (isNameStart isNamePart isBinaryDigit)

namespace Pattern

/-- The patterns of constants, whose arguments may hold nearly any character. -/
def isQuoted : Pattern → Bool
  | hash | packed => true
  | _ => false

/-- Characters of tokens that are no constants. -/
def isPlain (c : Char) : Bool := isNamePart c || c ∈ ['.', '+', '-', '$', '%']

theorem isPlain_of_isNamePart {c : Char} (h : isNamePart c = true) : isPlain c = true :=
  Bool.or_eq_true_iff.2 (.inl h)

theorem isPlain_of_isDigit {c : Char} (h : isDigit c = true) : isPlain c = true :=
  isPlain_of_isNamePart (Bool.or_eq_true_iff.2 (.inr h))

theorem isPlain_of_isHexDigit {c : Char} (h : isHexDigit c = true) : isPlain c = true := by
  have hz : ∀ {c : Char}, c ≤ 'f' → c ≤ 'z' := fun h => Char.le_trans h (by decide)
  have hZ : ∀ {c : Char}, c ≤ 'F' → c ≤ 'Z' := fun h => Char.le_trans h (by decide)
  simp only [isHexDigit, Bool.or_eq_true, Bool.and_eq_true, decide_eq_true_eq] at h
  rcases h with (hdigit | ⟨hlower, hupper⟩) | ⟨hlower, hupper⟩
  · exact isPlain_of_isDigit hdigit
  · exact isPlain_of_isNamePart (by simp [isNamePart, isNameStart, hlower, hz hupper])
  · exact isPlain_of_isNamePart (by simp [isNamePart, isNameStart, hlower, hZ hupper])

theorem over_word {word : List Char} (h : word.all isPlain = true) :
    Over (Text.exactly word) fun c => isPlain c = true :=
  Text.over_exactly (List.all_eq_true.1 h)

theorem over_literals : Over Decimal.literals fun c => isPlain c = true := by
  have hdigits : Over (Text.runs isDigit) fun c => isPlain c = true :=
    Text.over_runs fun _ => isPlain_of_isDigit
  have hfractions : Over Decimal.fractions fun c => isPlain c = true :=
    (over_word (by decide)).mul hdigits
  have hmark : Over (Text.one Decimal.isExponentMark) fun c => isPlain c = true := by
    refine Text.over_one fun c hc => ?_
    rcases Decimal.isExponentMark_iff.1 hc with rfl | rfl
    · decide
    · decide
  have hsign : Over (Text.one Decimal.isSign) fun c => isPlain c = true := by
    refine Text.over_one fun c hc => ?_
    rcases Decimal.isSign_iff.1 hc with rfl | rfl
    · decide
    · decide
  have hexponents : Over Decimal.exponents fun c => isPlain c = true :=
    (hmark.mul hsign.optional).mul hdigits
  have hminus : Over (Text.exactly ['-']) fun c => isPlain c = true :=
    over_word (by decide)
  exact hminus.optional.mul ((hdigits.mul hfractions.optional).mul hexponents.optional)

theorem over_marked {mark : Char} {isRadixDigit : Char → Bool} (hmark : isPlain mark = true)
    (hdigit : ∀ c, isRadixDigit c = true → isPlain c = true) :
    Over (marked mark isRadixDigit) fun c => isPlain c = true := by
  have hword : Over (Text.exactly [mark]) fun c => isPlain c = true :=
    over_word (by rwa [List.all_cons, List.all_nil, Bool.and_true])
  refine hword.mul (Text.over_runs ?_)
  intro c hc
  rcases Bool.or_eq_true_iff.1 hc with hc | hc
  · exact hdigit c hc
  · rw [of_decide_eq_true hc]
    decide

theorem over_language {p : Pattern} (h : p.isQuoted = false) :
    Over p.language fun c => isPlain c = true := by
  cases p with
  | identifier =>
    refine (Text.over_one ?_).mul (Text.over_star fun _ => isPlain_of_isNamePart)
    exact fun c hc => isPlain_of_isNamePart (Bool.or_eq_true_iff.2 (.inl hc))
  | number => exact over_literals
  | hex => exact over_marked (by decide) fun _ => isPlain_of_isHexDigit
  | binary =>
    refine over_marked (by decide) fun c hc => ?_
    rcases Bool.or_eq_true_iff.1 hc with hc | hc
    · rw [of_decide_eq_true hc]
      decide
    · rw [of_decide_eq_true hc]
      decide
  | nan => exact (over_word (by decide)).add (over_word (by decide))
  | infinity => exact (over_word (by decide)).add (over_word (by decide))
  | hash | packed => cases h

theorem over_constants {opening : List Char} (h : '\n' ∉ opening) :
    Over (constants opening) (· ≠ '\n') := by
  have hword : ∀ {word : List Char}, '\n' ∉ word → Over (Text.exactly word) (· ≠ '\n') :=
    fun hword => Text.over_exactly fun c hc heq => hword (heq ▸ hc)
  refine ((hword h).mul (Text.over_star ?_)).mul (hword (by decide))
  exact fun c hc => Lexeme.ne_of_class (p := isArgumentPart) hc (by decide)

/-- No token goes beyond the end of a line. -/
theorem feed_notMem {p : Pattern} {word : List Char} (h : word ∈ p.language) : '\n' ∉ word := by
  have hover : Over p.language (· ≠ '\n') := by
    cases hquoted : p.isQuoted with
    | false => exact (over_language hquoted).mono fun c hc => Lexeme.ne_of_class hc (by decide)
    | true =>
      cases p with
      | hash | packed => exact over_constants (by decide)
      | _ => cases hquoted
  exact fun hmem => hover word h '\n' hmem rfl

end Pattern

end LogicChip.Assembly

import LogicChip.Proofs.Assembly.OperandText
import LogicChip.Proofs.Decimal.Literal
import Mathlib.Data.Nat.Digits.Defs

namespace LogicChip.Assembly

open Text (isDigit isHexDigit one exactly runs Absent BeginsWith)
open Lexeme (isNameStart isNamePart isBinaryDigit)
open scoped Computability

/-- The kinds of text that stand for tokens. -/
inductive Pattern where
  | identifier
  | number
  | hex
  | binary
  | nan
  | infinity
  | hash
  | packed
deriving DecidableEq

namespace Pattern

def hashOpening : List Char := ['H', 'A', 'S', 'H', '(', '"']

def packedOpening : List Char := ['S', 'T', 'R', '(', '"']

/-- What constants begin with. -/
def openings : List (List Char) := [hashOpening, packedOpening]

/-- Characters of a constant's argument: all but a quote and a line feed. -/
def isArgumentPart (c : Char) : Bool := c ≠ '"' && c ≠ '\n'

/-- Texts of an opening, an argument, and a quote with a parenthesis. -/
def constants (opening : List Char) : Language Char :=
  exactly opening * (one isArgumentPart)∗ * exactly ['"', ')']

/-- Texts of a mark and then digits or underscores, at least one. -/
def marked (mark : Char) (isRadixDigit : Char → Bool) : Language Char :=
  exactly [mark] * runs fun c => isRadixDigit c || c = '_'

/-- The texts of a pattern. -/
def language : Pattern → Language Char
  | identifier => one isNameStart * (one isNamePart)∗
  | number => Decimal.literals
  | hex => marked '$' isHexDigit
  | binary => marked '%' isBinaryDigit
  | nan => exactly ['N', 'a', 'N'] + exactly ['n', 'a', 'n']
  | infinity => exactly ['i', 'n', 'f'] + exactly ['-', 'i', 'n', 'f']
  | hash => constants hashOpening
  | packed => constants packedOpening

/-- The number that digits write, underscores left out. There must be a digit, and the number must
be at most `2 ^ 64 - 1`. -/
def integer? (radix : Nat) (written : List Char) : Option UInt64 :=
  let digits := written.filter (· ≠ '_')
  let value := Nat.ofDigits radix (digits.reverse.map Text.digitValue)
  if digits = [] ∨ 2 ^ 64 - 1 < value then none else some (UInt64.ofNat value)

/-- The argument of a constant: what stands between its opening and its last two characters. -/
def argument (opening word : List Char) : String :=
  String.ofList ((word.drop opening.length).take (word.length - 2 - opening.length))

/-- The token that a text of the pattern stands for, if it does. -/
def token? : Pattern → List Char → Option Token
  | identifier, word => some (.identifier (String.ofList word))
  | number, word => some (.number (Decimal.ofLiteral word).value)
  | hex, word => (integer? 16 word.tail).map .hex
  | binary, word => (integer? 2 word.tail).map .binary
  | nan, _ => some .nan
  | infinity, word => some (.infinity (word.head? = some '-'))
  | hash, word => some (.hash (argument hashOpening word))
  | packed, word => some (.packed (argument packedOpening word))

/-- The patterns of fixed words. -/
def isFixed : Pattern → Bool
  | nan | infinity => true
  | _ => false

/-- The characters that texts of a pattern begin with. -/
def begins : Pattern → Char → Bool
  | identifier, c => isNameStart c
  | number, c => isDigit c || c = '-'
  | hex, c => c = '$'
  | binary, c => c = '%'
  | nan, c => c = 'N' || c = 'n'
  | infinity, c => c = 'i' || c = '-'
  | hash, c => c = 'H'
  | packed, c => c = 'S'

theorem beginsWith_language (p : Pattern) : BeginsWith p.language fun c => p.begins c = true := by
  cases p with
  | identifier => exact (Text.beginsWith_one isNameStart).mul Text.nil_notMem_one
  | number =>
    refine Decimal.beginsWith_literals.mono ?_
    intro c hc
    simpa [begins] using hc
  | hex =>
    refine ((Text.beginsWith_exactly '$' []).mul (Text.nil_notMem_exactly '$' [])).mono ?_
    rintro c rfl
    rfl
  | binary =>
    refine ((Text.beginsWith_exactly '%' []).mul (Text.nil_notMem_exactly '%' [])).mono ?_
    rintro c rfl
    rfl
  | nan =>
    rintro c text (heq | heq)
    · cases heq
      rfl
    · cases heq
      rfl
  | infinity =>
    rintro c text (heq | heq)
    · cases heq
      rfl
    · cases heq
      rfl
  | hash =>
    refine (((Text.beginsWith_exactly 'H' _).mul (Text.nil_notMem_exactly 'H' _)).mul
      (Text.nil_notMem_mul (Text.nil_notMem_exactly 'H' _))).mono ?_
    rintro c rfl
    rfl
  | packed =>
    refine (((Text.beginsWith_exactly 'S' _).mul (Text.nil_notMem_exactly 'S' _)).mul
      (Text.nil_notMem_mul (Text.nil_notMem_exactly 'S' _))).mono ?_
    rintro c rfl
    rfl

theorem exists_eq_cons_of_mem_openings {opening : List Char} (h : opening ∈ openings) :
    ∃ c tail, opening = c :: tail ∧ isNameStart c = true := by
  rcases List.mem_pair.1 h with rfl | rfl
  · exact ⟨'H', _, rfl, by decide⟩
  · exact ⟨'S', _, rfl, by decide⟩

/-- The first letter tells what constant is opened. -/
theorem eq_of_mem_openings : ∀ opening ∈ openings, ∀ other ∈ openings,
    opening.head? = other.head? → opening = other := by decide

theorem nil_notMem_language (p : Pattern) : [] ∉ p.language := by
  cases p with
  | identifier => exact Text.nil_notMem_mul Text.nil_notMem_one
  | number => exact Decimal.nil_notMem_literals
  | hex => exact Text.nil_notMem_mul (Text.nil_notMem_exactly '$' [])
  | binary => exact Text.nil_notMem_mul (Text.nil_notMem_exactly '%' [])
  | nan =>
    rintro (heq | heq)
    · cases heq
    · cases heq
  | infinity =>
    rintro (heq | heq)
    · cases heq
    · cases heq
  | hash => exact Text.nil_notMem_mul (Text.nil_notMem_mul (Text.nil_notMem_exactly 'H' _))
  | packed => exact Text.nil_notMem_mul (Text.nil_notMem_mul (Text.nil_notMem_exactly 'S' _))

/-- No text of a pattern stands where a character is that none begins with. -/
theorem absent_of_begins {p : Pattern} {c : Char} (h : p.begins c = false) (rest : List Char) :
    Absent p.language (c :: rest) := by
  refine p.beginsWith_language.absent p.nil_notMem_language ?_
  rintro d _ heq hd
  cases heq
  rw [h] at hd
  cases hd

theorem ofDigits_eq (radix : Nat) (digits : List Char) :
    Text.ofDigits radix digits = Nat.ofDigits radix (digits.reverse.map Text.digitValue) := by
  induction digits using List.reverseRecOn with
  | nil => rfl
  | append_singleton digits c ih =>
    rw [Text.ofDigits_append_singleton, ih, List.reverse_append, List.reverse_singleton,
      List.singleton_append, List.map_cons, Nat.ofDigits_cons]
    ring

theorem integer?_eq (radix : Nat) (written : List Char) :
    Lexeme.integer? radix written = integer? radix written := by
  have hbound : ∀ value, 2 ^ 64 ≤ value ↔ 2 ^ 64 - 1 < value := by omega
  unfold Lexeme.integer? integer?
  simp only [ofDigits_eq, hbound, List.isEmpty_iff]

theorem exists_eq_cons {p : Pattern} {text : List Char} (h : text ∈ p.language) :
    ∃ c rest, text = c :: rest ∧ p.begins c = true := by
  cases text with
  | nil => exact absurd h p.nil_notMem_language
  | cons c rest => exact ⟨c, rest, rfl, p.beginsWith_language c rest h⟩

theorem mem_identifier {text : List Char} : text ∈ identifier.language ↔
    ∃ c rest, text = c :: rest ∧ isNameStart c = true ∧ ∀ d ∈ rest, isNamePart d = true := by
  constructor
  · intro h
    obtain ⟨_, ⟨c, hc, rfl⟩, rest, hrest, rfl⟩ := Language.mem_mul.1 h
    exact ⟨c, rest, rfl, hc, Text.mem_star_one.1 hrest⟩
  · rintro ⟨c, rest, rfl, hc, hrest⟩
    exact Language.append_mem_mul (a := [c]) ⟨c, hc, rfl⟩ (Text.mem_star_one.2 hrest)

theorem cons_mem_identifier {c : Char} {rest : List Char} (hc : isNameStart c = true)
    (hrest : rest.all isNamePart = true) : c :: rest ∈ identifier.language :=
  mem_identifier.2 ⟨c, rest, rfl, hc, List.all_eq_true.1 hrest⟩

theorem mem_constants {opening text : List Char} : text ∈ constants opening ↔
    ∃ argument, (∀ c ∈ argument, isArgumentPart c = true) ∧
      text = opening ++ argument ++ ['"', ')'] := by
  constructor
  · intro h
    obtain ⟨_, hbegun, closing, hclosing, rfl⟩ := Language.mem_mul.1 h
    obtain ⟨start, hstart, argument, hargument, rfl⟩ := Language.mem_mul.1 hbegun
    cases hstart
    cases hclosing
    exact ⟨argument, Text.mem_star_one.1 hargument, rfl⟩
  · rintro ⟨argument, hargument, rfl⟩
    exact Language.append_mem_mul
      (Language.append_mem_mul rfl (Text.mem_star_one.2 hargument)) rfl

/-- The pattern that a text can be of, if it is of one. A fixed word is told apart by being one, and
all else by its first character, except that a constant has a parenthesis. -/
def ofText (fixed : Bool) (text : List Char) : Pattern :=
  if fixed then if text = ['N', 'a', 'N'] ∨ text = ['n', 'a', 'n'] then nan else infinity
  else if text.head? = some '$' then hex
  else if text.head? = some '%' then binary
  else if text.head?.any isNameStart then
    if '(' ∈ text then if text.head? = some 'H' then hash else packed else identifier
  else number

theorem eq_ofText {p : Pattern} {text : List Char} (h : text ∈ p.language) :
    p = ofText p.isFixed text := by
  obtain ⟨first, others, htext, hbegins⟩ := exists_eq_cons h
  cases p with
  | identifier =>
    obtain ⟨c, rest, rfl, hc, hrest⟩ := mem_identifier.1 h
    have hparenthesis : '(' ∉ c :: rest := by
      intro hmem
      rcases List.mem_cons.1 hmem with rfl | hmem
      · exact absurd hc (by decide)
      · exact absurd (hrest '(' hmem) (by decide)
    have hhex : c ≠ '$' := Lexeme.ne_of_class hc (by decide)
    have hbinary : c ≠ '%' := Lexeme.ne_of_class hc (by decide)
    simp [ofText, isFixed, hparenthesis, hhex, hbinary, hc]
  | number =>
    subst htext
    have hname : isNameStart first = false := by
      rcases Bool.or_eq_true_iff.1 hbegins with hdigit | hminus
      · exact Lexeme.isNameStart_of_isDigit hdigit
      · rw [of_decide_eq_true hminus]
        decide
    have hhex : first ≠ '$' := Lexeme.ne_of_class (p := number.begins) hbegins (by decide)
    have hbinary : first ≠ '%' := Lexeme.ne_of_class (p := number.begins) hbegins (by decide)
    simp [ofText, isFixed, hhex, hbinary, hname]
  | hex =>
    obtain rfl := of_decide_eq_true hbegins
    subst htext
    rfl
  | binary =>
    obtain rfl := of_decide_eq_true hbegins
    subst htext
    rfl
  | nan =>
    rcases h with rfl | rfl
    · rfl
    · rfl
  | infinity =>
    rcases h with rfl | rfl
    · rfl
    · rfl
  | hash =>
    obtain ⟨argument, _, rfl⟩ := mem_constants.1 h
    simp [ofText, isFixed, hashOpening]
    decide
  | packed =>
    obtain ⟨argument, _, rfl⟩ := mem_constants.1 h
    simp [ofText, isFixed, packedOpening]
    decide

end Pattern

end LogicChip.Assembly

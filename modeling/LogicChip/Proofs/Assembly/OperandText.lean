import LogicChip.Assembly.Statement
import LogicChip.Decimal.ReadBack
import LogicChip.Proofs.Decimal.Positional

namespace LogicChip.Assembly.Lexeme

open Text (isDigit Separated)

/-- A text is one lexeme with the given token, wherever nothing or a space follows it. -/
def Lexes (text : List Char) (token : Token) : Prop :=
  ∃ c tail, text = c :: tail ∧ isBlank c = false ∧ c ≠ '#' ∧
    ∀ rest, Separated rest → munch c (tail ++ rest) = (some token, tail.length)

theorem Lexes.ofText {text rest : List Char} {token : Token} (h : Lexes text token)
    (hrest : Separated rest) :
    Lexeme.ofText (text ++ rest) = ⟨some token, text⟩ :: Lexeme.ofText rest := by
  obtain ⟨c, tail, rfl, hblank, hcomment, hmunch⟩ := h
  rw [List.cons_append, Lexeme.ofText, if_neg (by simp [hblank]), if_neg hcomment,
    hmunch rest hrest]
  simp only [List.take_left, List.drop_left]

theorem Lexes.ne_nil {text : List Char} {token : Token} (h : Lexes text token) : text ≠ [] := by
  obtain ⟨c, tail, rfl, _⟩ := h
  exact List.cons_ne_nil c tail

theorem ofText_space (rest : List Char) : ofText (' ' :: rest) = ofText rest := by
  have hblank : isBlank ' ' = true := by decide
  rw [ofText, if_pos hblank]

theorem ne_of_class {p : Char → Bool} {c d : Char} (hc : p c = true) (hd : p d = false) :
    c ≠ d := by
  intro heq
  rw [heq, hd] at hc
  cases hc

theorem isBlank_of_class {p : Char → Bool} {c : Char} (hc : p c = true) (hspace : p ' ' = false)
    (htab : p '\t' = false) (hreturn : p '\r' = false) : isBlank c = false := by
  simp [isBlank, ne_of_class hc hspace, ne_of_class hc htab, ne_of_class hc hreturn]

/-- A word that begins no macro. -/
def isWord : List Char → Bool
  | [] => false
  | c :: part => isNameStart c && c ≠ 'H' && c ≠ 'S' && part.all isNamePart

theorem lexes_word {word : List Char} (h : isWord word = true) : Lexes word (wordToken word) := by
  cases word with
  | nil => cases h
  | cons c part =>
    simp only [isWord, Bool.and_eq_true, decide_eq_true_eq, List.all_eq_true] at h
    obtain ⟨⟨⟨hstart, hhash⟩, hpacked⟩, hpart⟩ := h
    refine ⟨c, part, rfl, ?_, ?_, ?_⟩
    · exact isBlank_of_class hstart (by decide) (by decide) (by decide)
    · exact ne_of_class hstart (by decide)
    · intro rest hrest
      have hrun : (part ++ rest).takeWhile isNamePart = part :=
        Text.takeWhile_run hpart (hrest.takeWhile_eq_nil (by decide))
      unfold munch
      simp only [hstart, if_true, hhash, hpacked, if_false, Option.getD_none, munchWord, hrun]

theorem isNameStart_of_isDigit {c : Char} (h : isDigit c = true) : isNameStart c = false := by
  have hupper : c.toNat ≤ 57 := by
    unfold Text.isDigit at h
    rw [Bool.and_eq_true, decide_eq_true_eq, decide_eq_true_eq] at h
    exact h.2
  have hsmall : ¬('a' ≤ c) := by
    intro hle
    have : 97 ≤ c.toNat := hle
    omega
  have hcapital : ¬('A' ≤ c) := by
    intro hle
    have : 65 ≤ c.toNat := hle
    omega
  have hunderscore : c ≠ '_' := ne_of_class h (by decide)
  simp [isNameStart, hsmall, hcapital, hunderscore]

theorem munchNumber_of_scan? {c : Char} {tail rest : List Char} {d : Decimal}
    (h : Decimal.scan? (c :: tail ++ rest) = some (d, (c :: tail).length)) :
    munchNumber c (tail ++ rest) = (some (.number d.value), tail.length) := by
  unfold munchNumber
  rw [List.cons_append] at h
  rw [h]
  rfl

/-- The text of a decimal is one number. -/
theorem lexes_decimal (d : Decimal) :
    Lexes (Decimal.Layout.plain.decimal d) (.number d.written.value) := by
  have hspells := Decimal.spells_positional d.coefficient d.exponent
  obtain ⟨first, others, htext, hdigit⟩ := hspells.exists_eq_cons
  have hlayout := Decimal.decimal_plain d
  rw [htext] at hlayout
  cases hsign : d.negative with
  | false =>
    rw [hsign, if_neg Bool.false_ne_true] at hlayout
    refine ⟨first, others, hlayout, ?_, ne_of_class hdigit (by decide), ?_⟩
    · exact isBlank_of_class hdigit (by decide) (by decide) (by decide)
    · intro rest hrest
      have hscan := Decimal.scan?_decimal d hrest
      rw [hlayout] at hscan
      unfold munch
      rw [if_neg (by simp [isNameStart_of_isDigit hdigit]), if_pos hdigit]
      exact munchNumber_of_scan? hscan
  | true =>
    rw [hsign, if_pos rfl] at hlayout
    refine ⟨'-', first :: others, hlayout, by decide, by decide, ?_⟩
    intro rest hrest
    have hscan := Decimal.scan?_decimal d hrest
    rw [hlayout] at hscan
    -- A minus sign begins a number only if the word for infinity does not follow it.
    have hne : 'i' ≠ first := (ne_of_class hdigit (by decide)).symm
    unfold munch
    rw [if_neg (by decide), if_neg (by decide), if_pos rfl, if_neg (by simp [hne])]
    exact munchNumber_of_scan? hscan

/-- The text of an operand is one lexeme, whose value is the operand. -/
theorem lexes_operand (x : Binary64) : ∃ token, Lexes x.text token ∧ token.operand = .ok x := by
  cases x with
  | nan => exact ⟨.nan, lexes_word (by decide), rfl⟩
  | infinity negative =>
    cases negative with
    | false => exact ⟨.infinity false, lexes_word (by decide), rfl⟩
    | true =>
      refine ⟨.infinity true, ⟨'-', ['i', 'n', 'f'], rfl, by decide, by decide, ?_⟩, rfl⟩
      exact fun rest _ => rfl
  | finite negative magnitude h =>
    have hvalue := Decimal.value_shortest negative magnitude h
    have htext : (Binary64.finite negative magnitude h).text = Decimal.Layout.plain.decimal
        (Decimal.shortest (.finite negative magnitude h) negative magnitude) := rfl
    generalize Decimal.shortest (.finite negative magnitude h) negative magnitude = d at hvalue htext
    refine ⟨.number d.written.value, ?_, ?_⟩
    · rw [htext]
      exact lexes_decimal d
    · rw [Decimal.value_written, hvalue]
      rfl

end LogicChip.Assembly.Lexeme

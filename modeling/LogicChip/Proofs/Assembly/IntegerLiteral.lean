import LogicChip.Proofs.Assembly.OperandLine
import LogicChip.Proofs.Decimal.Writing

namespace LogicChip.Assembly

open Text (isDigit isHexDigit IsDigitIn Numeral numeral_iff)
open Lexeme (isBinaryDigit)
open scoped Computability

/-- The marks of literals with the radix that they stand for. -/
inductive IsMark : Char → Nat → Prop where
  | hex : IsMark '$' 16
  | binary : IsMark '%' 2

/-- The spellings of a number: in decimal, or after a mark in its radix and with underscores among
the digits. -/
inductive IntegerLiteral : List Char → Nat → Prop where
  | decimal {digits : List Char} {n : Nat} (h : Numeral 10 digits n) : IntegerLiteral digits n
  | marked {mark : Char} {radix : Nat} {written : List Char} {n : Nat} (hmark : IsMark mark radix)
    (h : Numeral radix (written.filter (· ≠ '_')) n) : IntegerLiteral (mark :: written) n

/-- Literals after the mark of a radix that have no digit, or write a number of more than 64
bits. -/
inductive BadLiteral (radix : Nat) : List Char → Prop where
  | empty {mark : Char} {written : List Char} (hmark : IsMark mark radix)
    (h : ∀ c ∈ written, c = '_') : BadLiteral radix (mark :: written)
  | large {mark : Char} {written : List Char} {n : Nat} (hmark : IsMark mark radix)
    (h : Numeral radix (written.filter (· ≠ '_')) n) (hlarge : 2 ^ 64 ≤ n) :
    BadLiteral radix (mark :: written)

/-- A digit of a radix or an underscore. -/
def IsPart (radix : Nat) (c : Char) : Prop := IsDigitIn radix c ∨ c = '_'

instance (radix : Nat) (c : Char) : Decidable (IsPart radix c) :=
  inferInstanceAs (Decidable (_ ∨ _))

theorem isDigitIn_of_isPart {radix : Nat} {written : List Char}
    (h : ∀ c ∈ written, IsPart radix c) : ∀ c ∈ written.filter (· ≠ '_'), IsDigitIn radix c := by
  intro c hc
  obtain ⟨hmem, hunderscore⟩ := List.mem_filter.1 hc
  exact (h c hmem).resolve_right (of_decide_eq_true hunderscore)

/-- A text that goes on neither with digits of the radix nor with underscores. -/
def EndsDigits (radix : Nat) (rest : List Char) : Prop :=
  ∀ c tail, rest = c :: tail → ¬IsPart radix c

theorem isBinaryDigit_iff {c : Char} : isBinaryDigit c = true ↔ IsDigitIn 2 c := by
  have hzero : c = '0' ↔ c.toNat = 48 := Char.toNat_inj.symm
  have hone : c = '1' ↔ c.toNat = 49 := Char.toNat_inj.symm
  rw [isBinaryDigit, Bool.or_eq_true, decide_eq_true_eq, decide_eq_true_eq, hzero, hone]
  constructor
  · intro h
    exact ⟨c.toNat - 48, by omega, (Text.toLower_eq_digitChar_iff (by omega)).2 (by omega)⟩
  · rintro ⟨d, hd, h⟩
    rw [Text.toLower_eq_digitChar_iff (by omega)] at h
    omega

namespace IsMark

variable {mark : Char} {radix : Nat}

theorem one_lt (h : IsMark mark radix) : 1 < radix := by
  cases h <;> decide

theorem le_sixteen (h : IsMark mark radix) : radix ≤ 16 := by
  cases h <;> decide

/-- Neither digits nor underscores are boundaries or line feeds. -/
theorem not_isPart (h : IsMark mark radix) {c : Char} (hc : c ∈ ['\n', ' ', '\t', '\r', '#']) :
    ¬IsPart radix c := by
  have hnone : ['\n', ' ', '\t', '\r', '#'].all (fun c => !decide (IsPart radix c)) = true := by
    cases h <;> decide
  simpa using List.all_eq_true.1 hnone c hc

theorem endsDigits_of_apart (h : IsMark mark radix) {rest : List Char} (hrest : Apart rest) :
    EndsDigits radix rest := by
  intro c tail heq
  have hboundary := hrest c tail heq
  simp only [isBoundary, Lexeme.isBlank, Bool.or_eq_true, decide_eq_true_eq] at hboundary
  refine h.not_isPart ?_
  rcases hboundary with ((rfl | rfl) | rfl) | rfl <;> decide

theorem feed_notMem (h : IsMark mark radix) {written : List Char}
    (hwritten : ∀ c ∈ written, IsPart radix c) : '\n' ∉ mark :: written := by
  have hmark : mark ≠ '\n' := by
    cases h <;> decide
  exact List.not_mem_cons_of_ne_of_not_mem hmark.symm fun hmem =>
    h.not_isPart List.mem_cons_self (hwritten '\n' hmem)

/-- After a mark the scanner takes the digits of the radix and underscores. -/
theorem exists_munch (h : IsMark mark radix) :
    ∃ (token : UInt64 → Token) (isRadixDigit : Char → Bool),
      (∀ n, (token n).Denotes (.ofInt n.toNat)) ∧
      (∀ c, isRadixDigit c = true ↔ IsDigitIn radix c) ∧
      Lexeme.isBlank mark = false ∧ mark ≠ '#' ∧
      ∀ text, Lexeme.munch mark text = Lexeme.munchInteger radix isRadixDigit token text := by
  cases h with
  | hex => exact ⟨.hex, isHexDigit, .hex, fun _ => Text.isHexDigit_iff, by decide, by decide,
      fun _ => rfl⟩
  | binary => exact ⟨.binary, isBinaryDigit, .binary, fun _ => isBinaryDigit_iff, by decide,
      by decide, fun _ => rfl⟩

/-- After a mark, all digits and underscores are one lexeme. -/
theorem exists_token (h : IsMark mark radix) :
    ∃ token : UInt64 → Token, (∀ n, (token n).Denotes (.ofInt n.toNat)) ∧
      ∀ written rest : List Char, (∀ c ∈ written, IsPart radix c) → EndsDigits radix rest →
        Lexeme.ofText (mark :: written ++ rest) =
          ⟨(Lexeme.integer? radix written).map token, mark :: written⟩ :: Lexeme.ofText rest := by
  obtain ⟨token, isRadixDigit, hdenotes, hclass, hblank, hcomment, hmunch⟩ := h.exists_munch
  have hpart : ∀ c, (isRadixDigit c || c = '_') = true ↔ IsPart radix c := fun c => by
    rw [Bool.or_eq_true, decide_eq_true_eq, hclass]
    rfl
  refine ⟨token, hdenotes, fun written rest hwritten hrest => ?_⟩
  have hend := Text.takeWhile_eq_nil fun c tail heq =>
    Bool.eq_false_iff.2 (mt (hpart c).1 (hrest c tail heq))
  have hrun := Text.takeWhile_run (fun c hc => (hpart c).2 (hwritten c hc)) hend
  rw [List.cons_append, Lexeme.ofText, if_neg (by simp [hblank]), if_neg hcomment, hmunch]
  simp only [Lexeme.munchInteger, hrun, List.take_left, List.drop_left]

/-- Digits that are no number of 64 bits are a lexeme without a token. -/
theorem ofText_of_none (h : IsMark mark radix) {written rest : List Char}
    (hwritten : ∀ c ∈ written, IsPart radix c) (hnone : Lexeme.integer? radix written = none)
    (hrest : EndsDigits radix rest) :
    Lexeme.ofText (mark :: written ++ rest) = ⟨none, mark :: written⟩ :: Lexeme.ofText rest := by
  obtain ⟨token, _, hlexeme⟩ := h.exists_token
  have hbad := hlexeme written rest hwritten hrest
  rwa [hnone] at hbad

end IsMark

section Marked

variable {mark : Char} {radix : Nat} {written : List Char} {n : Nat} (hmark : IsMark mark radix)

include hmark

theorem isPart_of_numeral (h : Numeral radix (written.filter (· ≠ '_')) n) :
    ∀ c ∈ written, IsPart radix c := by
  intro c hc
  by_cases hunderscore : c = '_'
  · exact .inr hunderscore
  · exact .inl (h.isDigitIn hmark.one_lt c (List.mem_filter.2 ⟨hc, decide_eq_true hunderscore⟩))

theorem integer?_of_numeral (h : Numeral radix (written.filter (· ≠ '_')) n) :
    Lexeme.integer? radix written = if 2 ^ 64 ≤ n then none else some (UInt64.ofNat n) := by
  obtain ⟨hne, _, hvalue⟩ := (numeral_iff hmark.one_lt hmark.le_sixteen).1 h
  have hnonempty := List.isEmpty_eq_false_iff.2 hne
  simp only [Lexeme.integer?, hvalue, hnonempty, Bool.false_eq_true, false_or]

theorem isOperand_of_numeral (h : Numeral radix (written.filter (· ≠ '_')) n) (hn : n < 2 ^ 64) :
    IsOperand (mark :: written) (.ofInt n) := by
  obtain ⟨token, hdenotes, hlexeme⟩ := hmark.exists_token
  have hvalue := hdenotes (UInt64.ofNat n)
  rw [UInt64.toNat_ofNat_of_lt' hn] at hvalue
  refine ⟨token (UInt64.ofNat n), fun rest hrest => ?_, hvalue⟩
  have hliteral :=
    hlexeme written rest (isPart_of_numeral hmark h) (hmark.endsDigits_of_apart hrest)
  rwa [integer?_of_numeral hmark h, if_neg (Nat.not_le.2 hn)] at hliteral

/-- A literal after a mark is bad, or spells a number of at most 64 bits. -/
theorem badLiteral_or_integerLiteral (hwritten : ∀ c ∈ written, IsPart radix c) :
    BadLiteral radix (mark :: written) ∨
      ∃ n < 2 ^ 64, IntegerLiteral (mark :: written) n := by
  by_cases hempty : written.filter (· ≠ '_') = []
  · exact .inl (.empty hmark (by simpa using hempty))
  · have hnumeral := (numeral_iff hmark.one_lt hmark.le_sixteen).2
      ⟨hempty, isDigitIn_of_isPart hwritten, rfl⟩
    rcases Nat.lt_or_ge (Text.ofDigits radix (written.filter (· ≠ '_'))) (2 ^ 64) with
      hsmall | hlarge
    · exact .inr ⟨_, hsmall, .marked hmark hnumeral⟩
    · exact .inl (.large hmark hnumeral hlarge)

end Marked

theorem integer?_of_underscores {radix : Nat} {written : List Char} (h : ∀ c ∈ written, c = '_') :
    Lexeme.integer? radix written = none := by
  have hnone : written.filter (· ≠ '_') = [] :=
    List.filter_eq_nil_iff.2 fun c hc => by simp [h c hc]
  simp only [Lexeme.integer?, hnone, List.isEmpty_nil, true_or, if_true]

section Bad

variable {radix : Nat} {bad : List Char}

theorem BadLiteral.ofText (h : BadLiteral radix bad) {rest : List Char}
    (hrest : EndsDigits radix rest) :
    Lexeme.ofText (bad ++ rest) = ⟨none, bad⟩ :: Lexeme.ofText rest := by
  cases h with
  | empty hmark h =>
    exact hmark.ofText_of_none (fun c hc => .inr (h c hc)) (integer?_of_underscores h) hrest
  | large hmark h hlarge =>
    refine hmark.ofText_of_none (isPart_of_numeral hmark h) ?_ hrest
    rw [integer?_of_numeral hmark h, if_pos hlarge]

theorem BadLiteral.feed_notMem (h : BadLiteral radix bad) : '\n' ∉ bad := by
  cases h with
  | empty hmark h => exact hmark.feed_notMem fun c hc => .inr (h c hc)
  | large hmark h hlarge => exact hmark.feed_notMem (isPart_of_numeral hmark h)

end Bad

section Decimal

variable {digits : List Char} {n : Nat}

theorem isDigit_of_numeral (h : Numeral 10 digits n) : ∀ c ∈ digits, isDigit c = true :=
  (Text.numeral_ten_iff.1 h).2.1

/-- Decimal digits are a literal without a point or an exponent. -/
theorem writes_of_numeral (h : Numeral 10 digits n) : Decimal.Writes digits ⟨false, n, 0⟩ := by
  have hdigits : Numeral 10 (digits ++ []) n := by rwa [List.append_nil]
  have hmagnitude : Decimal.WritesMagnitude (digits ++ Decimal.pointed [] ++ []) n 0 :=
    .mk (Text.numeral_ten_iff.1 h).1 hdigits .none
  rw [Decimal.pointed, List.append_nil, List.append_nil] at hmagnitude
  exact .positive hmagnitude

/-- No fixed word begins with a digit. -/
theorem not_isFixed_of_numeral (h : Numeral 10 digits n) {p : Pattern}
    (hmem : digits ∈ p.language) : p.isFixed = false := by
  obtain ⟨c, rest, rfl, hbegins⟩ := Pattern.exists_eq_cons hmem
  have hc := isDigit_of_numeral h c List.mem_cons_self
  have hne : ∀ d, isDigit d = false → c ≠ d := fun d hd => Lexeme.ne_of_class hc hd
  cases p with
  | nan => simp [Pattern.begins, hne 'N' (by decide), hne 'n' (by decide)] at hbegins
  | infinity => simp [Pattern.begins, hne 'i' (by decide), hne '-' (by decide)] at hbegins
  | _ => rfl

theorem isOperand_of_decimal (h : Numeral 10 digits n) : IsOperand digits (.ofInt n) := by
  have hforms : Pattern.number.Forms ⟨some (.number (.ofInt n)), digits⟩ := by
    obtain ⟨hliteral, hvalue⟩ := Decimal.writes_iff.1 (writes_of_numeral h)
    refine ⟨hliteral, fun p hmem hfixed => ?_, ?_⟩
    · rw [not_isFixed_of_numeral h hmem] at hfixed
      cases hfixed
    · rw [← Decimal.value_whole, ← hvalue]
      rfl
  exact ⟨.number (.ofInt n), hforms.isWhole, .number _⟩

end Decimal

theorem IntegerLiteral.isOperand {text : List Char} {n : Nat} (h : IntegerLiteral text n)
    (hn : n < 2 ^ 64) : IsOperand text (.ofInt n) := by
  cases h with
  | decimal h => exact isOperand_of_decimal h
  | marked hmark h => exact isOperand_of_numeral hmark h hn

theorem message_unexpectedText (number : Nat) (text : List Char) :
    (Error.mk number (.unexpectedText text)).message =
      String.ofList ("Syntax error at line ".toList ++ Text.digits number ++
        ": Unexpected input: ".toList ++ text) := by
  have hopening : "Syntax error".toList ++ " at line ".toList = "Syntax error at line ".toList := by
    decide
  have hcolon : ": ".toList ++ "Unexpected input: ".toList = ": Unexpected input: ".toList := by
    decide
  have hmessage : (Error.mk number (.unexpectedText text)).message =
      String.ofList ("Syntax error".toList ++ " at line ".toList ++ Text.digits number ++
        ": ".toList ++ ("Unexpected input: ".toList ++ text)) := rfl
  rw [hmessage, hopening, ← hcolon]
  simp only [List.append_assoc]

theorem operands_of_integerLiterals {literals : List (List Char)} {numbers : List Nat}
    (h : List.Forall₂ IntegerLiteral literals numbers) (hsmall : ∀ n ∈ numbers, n < 2 ^ 64) :
    List.Forall₂ IsOperand literals (numbers.map fun n : Nat => Binary64.ofInt n) := by
  induction h with
  | nil => exact .nil
  | cons hfirst _ ih =>
    obtain ⟨hn, hsmall⟩ := List.forall_mem_cons.1 hsmall
    exact .cons (hfirst.isOperand hn) (ih hsmall)

/-- All spellings of a number below `2 ^ 64` are the same operand, which is the value nearest to the
number, ties to even. A literal after a mark that has no digit or writes a greater number is a
syntax error, as an operand after others or in the place of the mnemonic, on any line and whatever
stands behind it; and every literal after a mark is one or the other. -/
theorem integer_literals_agree :
    (∀ n : Nat, n < 2 ^ 64 → (Binary64.ofInt n).IsNearest n) ∧
    (∀ (op : Opcode) (literals : List (List Char)) (numbers : List Nat),
      List.Forall₂ IntegerLiteral literals numbers → (∀ n ∈ numbers, n < 2 ^ 64) →
      (numbers.length = op.arity → ∃ instruction : Instruction,
        instruction.IsMadeOf op (numbers.map fun n : Nat => Binary64.ofInt n) ∧
        assemble (String.ofList (line op literals)) = .ok [instruction]) ∧
      ∀ radix bad rest, BadLiteral radix bad → EndsDigits radix rest →
        ∀ text ∈ [line op (literals ++ [bad]) ++ rest, bad ++ rest],
          (∀ number more, assembleLines number (text :: more) =
            .error ⟨number, .unexpectedText bad⟩) ∧
          ('\n' ∉ rest → assemble (String.ofList text) = .error ⟨1, .unexpectedText bad⟩)) ∧
    (∀ number bad, (Error.mk number (.unexpectedText bad)).message =
      String.ofList ("Syntax error at line ".toList ++ Text.digits number ++
        ": Unexpected input: ".toList ++ bad)) ∧
    ∀ (mark : Char) (radix : Nat) (written : List Char), IsMark mark radix →
      (∀ c ∈ written, IsPart radix c) →
      BadLiteral radix (mark :: written) ∨ ∃ n < 2 ^ 64, IntegerLiteral (mark :: written) n := by
  refine ⟨fun n hn => Binary64.isNearest_ofInt (Nat.le_of_lt hn), ?_, message_unexpectedText, ?_⟩
  · intro op literals numbers hliterals hsmall
    have hoperands := operands_of_integerLiterals hliterals hsmall
    refine ⟨fun hcount => assemble_line hoperands (by rwa [List.length_map]), ?_⟩
    intro radix bad rest hbad hends text htext
    have hlexemes := hbad.ofText hends
    have herror : ∀ number, statementOn number (Lexeme.ofText text) =
        .error ⟨number, .unexpectedText bad⟩ := by
      intro number
      rcases List.mem_pair.1 htext with rfl | rfl
      · exact statementOn_line_of_refused number hoperands hlexemes (.stray bad)
      · rw [hlexemes]
        exact (Reads.mnemonic _ (.stray bad)).statementOn_eq
    refine ⟨fun number => assembleLines_of_error (herror number), fun hrest => ?_⟩
    have hfeed : '\n' ∉ text := by
      rcases List.mem_pair.1 htext with rfl | rfl
      · have htexts : ∀ text ∈ literals ++ [bad], '\n' ∉ text :=
          List.forall_mem_append.2 ⟨feed_notMem_of_operands hoperands,
            List.forall_mem_singleton.2 hbad.feed_notMem⟩
        exact List.not_mem_append (feed_notMem_line htexts) hrest
      · exact List.not_mem_append hbad.feed_notMem hrest
    exact assemble_of_error (herror 1) hfeed
  · intro mark radix written hmark hwritten
    exact badLiteral_or_integerLiteral hmark hwritten

/-- A number that is no value itself, with zeros before it, letters of both cases and underscores
around its digits, before a literal of a number that is just too large and runs into a word. -/
theorem integer_literals_agree_above_53_bits :
    let n := 2 ^ 53 + 0xaf
    let binary := '1' :: (List.replicate 45 '0' ++ "_1010__1111".toList)
    let literals := ["0009007199254741167".toList, "$_00_20_0000_0000_00aF_".toList,
      '%' :: binary]
    let bad := "$1_0000_0000_0000_0000".toList
    List.Forall₂ IntegerLiteral literals [n, n, n] ∧ BadLiteral 16 bad ∧
      (Binary64.ofInt n).IsNearest n ∧
      (∃ instruction : Instruction,
        instruction.IsMadeOf .select [Binary64.ofInt n, Binary64.ofInt n, Binary64.ofInt n] ∧
        assemble (String.ofList (line .select literals)) = .ok [instruction]) ∧
      assemble (String.ofList (line .select (literals ++ [bad]) ++ "nan # 1".toList)) =
        .error ⟨1, .unexpectedText bad⟩ := by
  intro n binary literals bad
  have hdecimal : Numeral 10 "0009007199254741167".toList n := ⟨3, by decide +kernel⟩
  have hhex : Numeral 16 ("_00_20_0000_0000_00aF_".toList.filter (· ≠ '_')) n :=
    ⟨2, by decide +kernel⟩
  have hbinary : Numeral 2 (binary.filter (· ≠ '_')) n := ⟨0, by decide +kernel⟩
  have hliterals : List.Forall₂ IntegerLiteral literals [n, n, n] :=
    .cons (.decimal hdecimal) (.cons (.marked .hex hhex) (.cons (.marked .binary hbinary) .nil))
  have hlarge : Numeral 16 ("1_0000_0000_0000_0000".toList.filter (· ≠ '_')) (2 ^ 64) :=
    ⟨0, by decide +kernel⟩
  have hbad : BadLiteral 16 bad := .large .hex hlarge (Nat.le_refl _)
  have hends : EndsDigits 16 "nan # 1".toList := by
    rintro _ _ ⟨rfl, rfl⟩
    decide
  obtain ⟨hgood, hrefused⟩ := integer_literals_agree.2.1 .select literals [n, n, n] hliterals
    (by simp [n])
  exact ⟨hliterals, hbad, integer_literals_agree.1 n (by decide), hgood rfl,
    (hrefused _ bad _ hbad hends _ List.mem_cons_self).2 (by decide)⟩

end LogicChip.Assembly

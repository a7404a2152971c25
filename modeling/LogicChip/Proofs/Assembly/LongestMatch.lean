import LogicChip.Proofs.Assembly.ConstantLexeme
import LogicChip.Proofs.Assembly.LiteralLexeme

namespace LogicChip.Assembly

open Text (isDigit Absent)
open Lexeme (isBlank isNameStart isNamePart munch)
open Pattern (openings constants)

/-- A constant is only spoiled where it is opened. -/
theorem not_spoiled {text : List Char} (h : ∀ opening ∈ openings, ¬ opening <+: text) :
    ∀ begun after, text = begun ++ after → ¬ Spoiled begun after := by
  rintro begun after rfl ⟨opening, argument, hopening, _, rfl, _⟩
  rw [List.append_assoc] at h
  exact h opening hopening (List.prefix_append _ _)

theorem absent_constants {opening text : List Char} (h : ¬ opening <+: text) :
    Absent (constants opening) text := by
  intro word hword hstarts
  obtain ⟨argument, _, rfl⟩ := Pattern.mem_constants.1 hword
  rw [List.append_assoc] at hstarts
  exact h ((List.prefix_append opening _).trans hstarts)

theorem begins_eq_false_of_isNameStart {c : Char} (hc : isNameStart c = true) :
    Pattern.number.begins c = false ∧ Pattern.hex.begins c = false ∧
      Pattern.binary.begins c = false := by
  have hdigit : isDigit c = false := by
    apply Bool.eq_false_iff.2
    intro hdigit
    rw [Lexeme.isNameStart_of_isDigit hdigit] at hc
    cases hc
  have hminus : c ≠ '-' := Lexeme.ne_of_class hc (by decide)
  exact ⟨by simp [Pattern.begins, hdigit, hminus],
    decide_eq_false (Lexeme.ne_of_class hc (by decide)),
    decide_eq_false (Lexeme.ne_of_class hc (by decide))⟩

/-- Where a name begins and no constant is opened, no pattern has a longer text than the name. -/
theorem length_le_name {c : Char} {rest : List Char} (hc : isNameStart c = true)
    (hopening : ∀ opening ∈ openings, ¬ opening <+: c :: rest) (r : Pattern) {word : List Char}
    (hword : word ∈ r.language) (hstarts : word <+: c :: rest) :
    word.length ≤ 1 + (rest.takeWhile isNamePart).length := by
  obtain ⟨hnumber, hhex, hbinary⟩ := begins_eq_false_of_isNameStart hc
  have hname : word ∈ Pattern.identifier.language →
      word.length ≤ 1 + (rest.takeWhile isNamePart).length := fun hmem =>
    (greedy_identifier hc rest).length_le hmem hstarts
  cases r with
  | identifier => exact hname hword
  | number => exact absurd hstarts (Pattern.absent_of_begins hnumber rest word hword)
  | hex => exact absurd hstarts (Pattern.absent_of_begins hhex rest word hword)
  | binary => exact absurd hstarts (Pattern.absent_of_begins hbinary rest word hword)
  | nan =>
    rcases hword with rfl | rfl
    · exact hname (Pattern.cons_mem_identifier (by decide) rfl)
    · exact hname (Pattern.cons_mem_identifier (by decide) rfl)
  | infinity =>
    rcases hword with rfl | rfl
    · exact hname (Pattern.cons_mem_identifier (by decide) rfl)
    · have hminus : c ≠ '-' := Lexeme.ne_of_class hc (by decide)
      exact absurd (List.cons_prefix_cons.1 hstarts).1.symm hminus
  | hash => exact absurd hstarts (absent_constants (hopening _ (by decide)) word hword)
  | packed => exact absurd hstarts (absent_constants (hopening _ (by decide)) word hword)

/-- A fixed word where a name begins is one of the words made of letters. -/
theorem mem_fixed_of_isNameStart {c : Char} {part : List Char} (hc : isNameStart c = true)
    {r : Pattern} (hfixed : r.isFixed = true) (hmem : c :: part ∈ r.language) :
    c :: part = ['N', 'a', 'N'] ∨ c :: part = ['n', 'a', 'n'] ∨ c :: part = ['i', 'n', 'f'] := by
  cases r with
  | nan =>
    rcases hmem with heq | heq
    · exact .inl heq
    · exact .inr (.inl heq)
  | infinity =>
    rcases hmem with heq | heq
    · exact .inr (.inr heq)
    · have hminus : c ≠ '-' := Lexeme.ne_of_class hc (by decide)
      exact absurd (List.cons.inj heq).1 hminus
  | identifier | number | hex | binary | hash | packed => cases hfixed

/-- A word of name characters is a text of the pattern that its token is of, and no fixed word
unless that pattern is one of fixed words. -/
theorem exists_pattern_of_name {c : Char} {part : List Char} (hc : isNameStart c = true)
    (hpart : part.all isNamePart = true) :
    ∃ p : Pattern, c :: part ∈ p.language ∧
      p.token? (c :: part) = some (Lexeme.wordToken (c :: part)) ∧
      ∀ r : Pattern, c :: part ∈ r.language → r.isFixed = true → p.isFixed = true := by
  by_cases hinfinity : c :: part = ['i', 'n', 'f']
  · rw [hinfinity]
    exact ⟨.infinity, .inl rfl, rfl, fun _ _ _ => rfl⟩
  by_cases hnan : c :: part = ['n', 'a', 'n'] ∨ c :: part = ['N', 'a', 'N']
  · refine ⟨.nan, hnan.symm, ?_, fun _ _ _ => rfl⟩
    rw [Lexeme.wordToken, if_neg hinfinity, if_pos hnan]
    rfl
  · refine ⟨.identifier, Pattern.cons_mem_identifier hc hpart, ?_, ?_⟩
    · rw [Lexeme.wordToken, if_neg hinfinity, if_neg hnan]
      rfl
    · intro r hmem hfixed
      rcases mem_fixed_of_isNameStart hc hfixed hmem with heq | heq | heq
      · exact absurd (.inr heq) hnan
      · exact absurd (.inl heq) hnan
      · exact absurd heq hinfinity

/-- A name is taken whole. Some names are fixed words. -/
theorem step_munchWord {c : Char} {rest : List Char} (hc : isNameStart c = true)
    (hopening : ∀ opening ∈ openings, ¬ opening <+: c :: rest) :
    let munched := Lexeme.munchWord c rest
    Step (c :: rest) (some ⟨munched.1, c :: rest.take munched.2⟩) (rest.drop munched.2) := by
  intro munched
  have hmunched : munched = (some (Lexeme.wordToken (c :: rest.takeWhile isNamePart)),
      (rest.takeWhile isNamePart).length) := rfl
  obtain ⟨p, hmem, htoken, hpreferred⟩ := exists_pattern_of_name hc List.all_takeWhile
  have htext : c :: rest = c :: rest.takeWhile isNamePart ++ rest.dropWhile isNamePart := by
    rw [List.cons_append, List.takeWhile_append_dropWhile]
  have hlongest : Longest p (c :: rest.takeWhile isNamePart) (rest.dropWhile isNamePart) := by
    refine ⟨hmem, ?_, hpreferred⟩
    intro r other hother hstarts
    rw [← htext] at hstarts
    rw [List.length_cons, Nat.add_comm]
    exact length_le_name hc hopening r hother hstarts
  rw [hmunched, Text.take_run, Text.drop_run, ← htoken]
  exact .token p _ htext hlongest (not_spoiled hopening)

theorem IsConstant.step_name {p : Pattern} {c : Char} {name : List Char} {token : String → Token}
    (h : IsConstant p c name token) (rest : List Char) :
    let munched := (Lexeme.munchConstant? name token rest).getD (Lexeme.munchWord c rest)
    Step (c :: rest) (some ⟨munched.1, c :: rest.take munched.2⟩) (rest.drop munched.2) := by
  cases hconstant : Lexeme.munchConstant? name token rest with
  | none => exact step_munchWord h.start (h.not_opened hconstant)
  | some munched => exact h.step_munchConstant hconstant

/-- What the scanner takes at a letter or an underscore is a step. -/
theorem step_munch_of_isNameStart {c : Char} {rest : List Char} (hname : isNameStart c = true) :
    let munched := munch c rest
    Step (c :: rest) (some ⟨munched.1, c :: rest.take munched.2⟩) (rest.drop munched.2) := by
  unfold munch
  simp only [hname, if_true]
  by_cases hhash : c = 'H'
  · subst hhash
    exact isConstant_hash.step_name rest
  rw [if_neg hhash]
  by_cases hpacked : c = 'S'
  · subst hpacked
    exact isConstant_packed.step_name rest
  · rw [if_neg hpacked]
    refine step_munchWord hname ?_
    intro opening hopening hstarts
    rcases List.mem_pair.1 hopening with rfl | rfl
    · exact hhash (List.cons_prefix_cons.1 hstarts).1.symm
    · exact hpacked (List.cons_prefix_cons.1 hstarts).1.symm

/-- What the scanner takes at a character that is neither a blank nor the mark of a comment is a
step. -/
theorem step_munch {c : Char} {rest : List Char} (hblank : isBlank c = false) (hcomment : c ≠ '#') :
    let munched := munch c rest
    Step (c :: rest) (some ⟨munched.1, c :: rest.take munched.2⟩) (rest.drop munched.2) := by
  by_cases hname : isNameStart c = true
  · exact step_munch_of_isNameStart hname
  unfold munch
  rw [if_neg hname]
  by_cases hdigit : isDigit c = true
  · rw [if_pos hdigit]
    have hbegins : Pattern.number.begins c = true := by simp [Pattern.begins, hdigit]
    have hinfinity : Pattern.infinity.begins c = false := by
      have hi : c ≠ 'i' := Lexeme.ne_of_class hdigit (by decide)
      have hminus : c ≠ '-' := Lexeme.ne_of_class hdigit (by decide)
      simp [Pattern.begins, hi, hminus]
    exact step_munchNumber rest hbegins (Pattern.absent_of_begins hinfinity rest)
  rw [if_neg hdigit]
  by_cases hminus : c = '-'
  · subst hminus
    rw [if_pos rfl]
    by_cases hstarts : ['i', 'n', 'f'].isPrefixOf rest = true
    · rw [if_pos hstarts]
      obtain ⟨after, rfl⟩ := List.isPrefixOf_iff_prefix.1 hstarts
      exact step_negativeInfinity after
    · rw [if_neg hstarts]
      refine step_munchNumber rest rfl ?_
      rintro word (rfl | rfl) hword
      · exact absurd (List.cons_prefix_cons.1 hword).1 (by decide)
      · exact hstarts (List.isPrefixOf_iff_prefix.2 (List.cons_prefix_cons.1 hword).2)
  rw [if_neg hminus]
  by_cases hhex : c = '$'
  · subst hhex
    rw [if_pos rfl]
    refine step_marked (p := .hex) rest rfl (fun _ => rfl) (by decide) rfl ?_
    intro r hr
    cases r with
    | hex => contradiction
    | _ => decide
  rw [if_neg hhex]
  by_cases hbinary : c = '%'
  · subst hbinary
    rw [if_pos rfl]
    refine step_marked (p := .binary) rest rfl (fun _ => rfl) (by decide) rfl ?_
    intro r hr
    cases r with
    | binary => contradiction
    | _ => decide
  · rw [if_neg hbinary]
    refine .stray c rfl hblank hcomment fun r => Pattern.absent_of_begins ?_ rest
    have hne : ∀ d, isNameStart d = true → c ≠ d := by
      rintro d hd rfl
      exact hname hd
    cases r with
    | identifier => exact Bool.eq_false_iff.2 hname
    | number => simp [Pattern.begins, Bool.eq_false_iff.2 hdigit, hminus]
    | hex => exact decide_eq_false hhex
    | binary => exact decide_eq_false hbinary
    | nan => simp [Pattern.begins, hne 'N' (by decide), hne 'n' (by decide)]
    | infinity => simp [Pattern.begins, hne 'i' (by decide), hminus]
    | hash => exact decide_eq_false (hne 'H' (by decide))
    | packed => exact decide_eq_false (hne 'S' (by decide))

theorem ofText_dropWhile (text : List Char) :
    Lexeme.ofText (text.dropWhile isBlank) = Lexeme.ofText text := by
  induction text with
  | nil => rfl
  | cons c rest ih =>
    by_cases hblank : isBlank c = true
    · rw [List.dropWhile_cons, if_pos hblank, ih]
      conv_rhs => rw [Lexeme.ofText, if_pos hblank]
    · rw [List.dropWhile_cons, if_neg hblank]

theorem step_dropWhile {c : Char} (hblank : isBlank c = true) (rest : List Char) :
    Step (c :: rest) none (rest.dropWhile isBlank) := by
  refine .blanks (c :: rest.takeWhile isBlank) ?_ (List.cons_ne_nil _ _) ?_
    fun _ _ => Text.head_dropWhile
  · rw [List.cons_append, List.takeWhile_append_dropWhile]
  · intro d hd
    rcases List.mem_cons.1 hd with rfl | hd
    · exact hblank
    · exact List.all_eq_true.1 List.all_takeWhile d hd

theorem step_afterComment (rest : List Char) :
    Step ('#' :: rest) none (Lexeme.afterComment rest) := by
  refine .comment (rest.takeWhile (· ≠ '\n')) ?_ ?_ ?_
  · rw [Lexeme.afterComment, List.takeWhile_append_dropWhile]
  · intro hmem
    exact absurd (List.all_eq_true.1 List.all_takeWhile _ hmem) (by decide)
  · intro c after hrest
    exact Decidable.not_not.1 (of_decide_eq_false (Text.head_dropWhile hrest))

/-- The scanner cuts every text, step by step up to its end. -/
theorem tokenizes_ofText (text : List Char) : Tokenizes text (Lexeme.ofText text) := by
  match text with
  | [] =>
    rw [Lexeme.ofText]
    exact .done
  | c :: rest =>
    rw [Lexeme.ofText]
    by_cases hblank : isBlank c = true
    · rw [if_pos hblank, ← ofText_dropWhile]
      have hshorter := (List.dropWhile_sublist isBlank (l := rest)).length_le
      exact .skip (step_dropWhile hblank rest) (tokenizes_ofText (rest.dropWhile isBlank))
    · rw [if_neg hblank]
      by_cases hcomment : c = '#'
      · subst hcomment
        rw [if_pos rfl]
        have hshorter := Lexeme.length_afterComment_le rest
        exact .skip (step_afterComment rest) (tokenizes_ofText (Lexeme.afterComment rest))
      · rw [if_neg hcomment]
        exact .emit (step_munch (Bool.eq_false_iff.2 hblank) hcomment)
          (tokenizes_ofText (rest.drop (munch c rest).2))
termination_by text.length

/-- Cutting a text by longest match gives the lexemes of the text: their tokens and their stretches,
and nothing else does. -/
theorem tokenizes_iff_eq_ofText (text : List Char) (lexemes : List Lexeme) :
    Tokenizes text lexemes ↔ lexemes = Lexeme.ofText text := by
  constructor
  · intro h
    exact h.unique (tokenizes_ofText text)
  · rintro rfl
    exact tokenizes_ofText text

example : Lexeme.ofText "-infer $_ STR(\"a) b".toList =
    [⟨some (.infinity true), "-inf".toList⟩, ⟨some (.identifier "er"), "er".toList⟩,
      ⟨none, "$_".toList⟩, ⟨none, "STR(\"a) b".toList⟩] := by cbv

end LogicChip.Assembly

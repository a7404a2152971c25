import LogicChip.Assembly.Program
import LogicChip.Proofs.Assembly.Coverage

namespace LogicChip.Assembly

open Text (Absent)
open Lexeme (isBlank)
open Pattern (isPlain openings constants)

/-- Characters that no token but a constant can hold: blanks and the mark of a comment. -/
def isBoundary (c : Char) : Bool := isBlank c || c = '#'

/-- A text that is empty or begins with a boundary. -/
def Apart (rest : List Char) : Prop := ∀ c tail, rest = c :: tail → isBoundary c = true

theorem apart_nil : Apart [] := fun c tail heq => absurd heq.symm (List.cons_ne_nil c tail)

/-- The lexeme is cut off as it is where a boundary or nothing follows it. -/
def Lexeme.IsWhole (lexeme : Lexeme) : Prop :=
  ∀ rest, Apart rest → ofText (lexeme.text ++ rest) = lexeme :: ofText rest

theorem isPlain_of_isBoundary {c : Char} (h : isBoundary c = true) : isPlain c = false := by
  simp only [isBoundary, isBlank, Bool.or_eq_true, decide_eq_true_eq] at h
  rcases h with ((rfl | rfl) | rfl) | rfl <;> decide

theorem notMem_openings {c : Char} (h : isBoundary c = true) : ∀ opening ∈ openings, c ∉ opening := by
  have hopenings : ∀ opening ∈ openings, (opening.all fun d => !isBoundary d) = true := by decide
  intro opening hopening hmem
  have hnot := List.all_eq_true.1 (hopenings opening hopening) c hmem
  rw [h] at hnot
  cases hnot

namespace Pattern

/-- A lexeme is a text of a pattern with its token, and no fixed word of another pattern. -/
structure Forms (p : Pattern) (lexeme : Lexeme) : Prop where
  mem : lexeme.text ∈ p.language
  preferred : ∀ q : Pattern, lexeme.text ∈ q.language → q.isFixed = true → p.isFixed = true
  token?_eq : lexeme.token? = p.token? lexeme.text

variable {p q : Pattern} {word rest : List Char}

theorem exists_opening (h : p.isQuoted = true) (hmem : word ∈ p.language) :
    ∃ opening ∈ openings, opening <+: word := by
  have hconstant : ∀ opening, word ∈ constants opening → opening <+: word := by
    intro opening hword
    obtain ⟨argument, _, rfl⟩ := mem_constants.1 hword
    rw [List.append_assoc]
    exact List.prefix_append opening _
  cases p with
  | hash => exact ⟨hashOpening, by decide, hconstant _ hmem⟩
  | packed => exact ⟨packedOpening, by decide, hconstant _ hmem⟩
  | _ => cases h

/-- Openings have a parenthesis, which no other token holds. -/
theorem not_opened_of_plain (h : p.isQuoted = false) (hmem : word ∈ p.language) :
    ∀ opening ∈ openings, ¬ opening <+: word := by
  have hparenthesis : ∀ opening ∈ openings, '(' ∈ opening := by decide
  intro opening hopening hstarts
  have hplain := over_language h word hmem '(' (hstarts.subset (hparenthesis opening hopening))
  exact absurd hplain (by decide)

/-- Before a boundary no constant is opened by what is none. -/
theorem not_opened_of_apart (h : p.isQuoted = false) (hmem : word ∈ p.language)
    (hrest : Apart rest) : ∀ opening ∈ openings, ¬ opening <+: word ++ rest := by
  intro opening hopening hstarts
  apply not_opened_of_plain h hmem opening hopening
  cases rest with
  | nil => rwa [List.append_nil] at hstarts
  | cons c tail => exact prefix_of_notMem (notMem_openings (hrest c tail rfl) opening hopening) hstarts

/-- Before a boundary no text of a pattern goes on behind a token that is no constant. -/
theorem length_le_of_apart (h : p.isQuoted = false) (hmem : word ∈ p.language)
    (hrest : Apart rest) {other : List Char} (hother : other ∈ q.language)
    (hstarts : other <+: word ++ rest) : other.length ≤ word.length := by
  cases hquoted : q.isQuoted with
  | true =>
    obtain ⟨opening, hopening, hopened⟩ := exists_opening hquoted hother
    exact absurd (hopened.trans hstarts) (not_opened_of_apart h hmem hrest opening hopening)
  | false =>
    refine List.IsPrefix.length_le (?_ : other <+: word)
    cases rest with
    | nil => rwa [List.append_nil] at hstarts
    | cons c tail =>
      refine prefix_of_notMem (fun hc => ?_) hstarts
      have hplain : isPlain c = true := over_language hquoted other hother c hc
      rw [isPlain_of_isBoundary (hrest c tail rfl)] at hplain
      cases hplain

end Pattern

/-- A constant is cut off whatever follows it. -/
theorem IsConstant.step_of_mem {p : Pattern} {c : Char} {name word : List Char}
    {token : String → Token} (h : IsConstant p c name token) (hmem : word ∈ p.language)
    (rest : List Char) : Step (word ++ rest) (some ⟨p.token? word, word⟩) rest := by
  rw [h.language_eq] at hmem
  obtain ⟨argument, hargument, rfl⟩ := Pattern.mem_constants.1 hmem
  have hstep := h.step_closed hargument rest
  have htext : c :: opened name ++ argument ++ ['"', ')'] ++ rest =
      c :: opened name ++ (argument ++ '"' :: ')' :: rest) := by
    simp only [List.append_assoc, List.cons_append, List.nil_append]
  rw [htext, h.token_eq, List.append_assoc, argument_append]
  exact hstep

namespace Pattern.Forms

variable {p : Pattern} {lexeme : Lexeme} {rest : List Char}

theorem step (h : p.Forms lexeme) (hrest : Apart rest) :
    Step (lexeme.text ++ rest) (some lexeme) rest := by
  obtain ⟨token?, word⟩ := lexeme
  obtain rfl : token? = p.token? word := h.token?_eq
  have hmem : word ∈ p.language := h.mem
  cases hquoted : p.isQuoted with
  | false =>
    have hlongest : Longest p word rest :=
      ⟨hmem, fun _ _ => length_le_of_apart hquoted hmem hrest, h.preferred⟩
    exact .token p word rfl hlongest (not_spoiled (not_opened_of_apart hquoted hmem hrest))
  | true =>
    cases p with
    | hash => exact isConstant_hash.step_of_mem hmem rest
    | packed => exact isConstant_packed.step_of_mem hmem rest
    | _ => cases hquoted

theorem ofText_append (h : p.Forms lexeme) (hrest : Apart rest) :
    Lexeme.ofText (lexeme.text ++ rest) = lexeme :: Lexeme.ofText rest :=
  (tokenizes_ofText _).unique (.emit (h.step hrest) (tokenizes_ofText rest))

theorem isWhole (h : p.Forms lexeme) : lexeme.IsWhole := fun _ hrest => h.ofText_append hrest

end Pattern.Forms

theorem Step.exists_forms {text rest : List Char} {lexeme : Lexeme}
    (h : Step text (some lexeme) rest) (htoken : lexeme.token? ≠ none) :
    ∃ p : Pattern, p.Forms lexeme := by
  cases h with
  | spoiled word htext hspoiled => exact absurd rfl htoken
  | stray c htext hblank hcomment habsent => exact absurd rfl htoken
  | token p word htext hlongest hwhole => exact ⟨p, hlongest.mem, hlongest.preferred, rfl⟩

theorem Tokenizes.exists_forms {text : List Char} {lexemes : List Lexeme}
    (h : Tokenizes text lexemes) :
    ∀ lexeme ∈ lexemes, lexeme.token? ≠ none → ∃ p : Pattern, p.Forms lexeme := by
  induction h with
  | done => exact fun _ hmem => absurd hmem List.not_mem_nil
  | skip _ _ ih => exact ih
  | emit hstep _ ih => exact List.forall_mem_cons.2 ⟨hstep.exists_forms, ih⟩

/-- A line with the given lexemes in order: each with blanks before it, which only the first can do
without, and blanks and a comment behind them all. -/
structure Layout (lexemes : List Lexeme) where
  parts : List (List Char × Lexeme)
  behind : List Char
  comment : List Char
  map_parts : parts.map Prod.snd = lexemes
  blank : ∀ part ∈ parts, ∀ c ∈ part.1, isBlank c = true
  separated : ∀ part ∈ parts.tail, part.1 ≠ []
  behind_blank : ∀ c ∈ behind, isBlank c = true
  comment_mem : comment = [] ∨ comment ∈ comments

namespace Layout

/-- The line. -/
def text {lexemes : List Lexeme} (layout : Layout lexemes) : List Char :=
  joined layout.parts ++ (layout.behind ++ layout.comment)

theorem apart_blanks {run rest : List Char} (hrun : ∀ c ∈ run, isBlank c = true)
    (hrest : run = [] → Apart rest) : Apart (run ++ rest) := by
  cases run with
  | nil => exact hrest rfl
  | cons c run =>
    rintro _ _ heq
    cases heq
    exact Bool.or_eq_true_iff.2 (.inl (hrun c List.mem_cons_self))

theorem ofText_blanks {run : List Char} (h : ∀ c ∈ run, isBlank c = true) (rest : List Char) :
    Lexeme.ofText (run ++ rest) = Lexeme.ofText rest := by
  induction run with
  | nil => rfl
  | cons c run ih =>
    obtain ⟨hc, hrun⟩ := List.forall_mem_cons.1 h
    rw [List.cons_append, Lexeme.ofText, if_pos hc, ih hrun]

theorem ofText_joined {parts : List (List Char × Lexeme)} {rest : List Char}
    (hwhole : ∀ part ∈ parts, part.2.IsWhole)
    (hblank : ∀ part ∈ parts, ∀ c ∈ part.1, isBlank c = true)
    (hseparated : ∀ part ∈ parts.tail, part.1 ≠ []) (hrest : Apart rest) :
    Lexeme.ofText (joined parts ++ rest) = parts.map Prod.snd ++ Lexeme.ofText rest := by
  induction parts with
  | nil => rfl
  | cons part parts ih =>
    obtain ⟨hpart, hwhole⟩ := List.forall_mem_cons.1 hwhole
    obtain ⟨hrun, hblank⟩ := List.forall_mem_cons.1 hblank
    have happlied := ih hwhole hblank fun next hnext => hseparated next (List.mem_of_mem_tail hnext)
    -- What follows the lexeme are the blanks of the next one, or what follows them all.
    have hapart : Apart (joined parts ++ rest) := by
      cases parts with
      | nil => exact hrest
      | cons next parts =>
        rw [joined_cons, List.append_assoc]
        refine apart_blanks (hblank next List.mem_cons_self) fun hempty => ?_
        exact absurd hempty (hseparated next List.mem_cons_self)
    rw [joined_cons, List.append_assoc, List.append_assoc, ofText_blanks hrun,
      hpart _ hapart, happlied]
    rfl

theorem ofText_comment {comment : List Char} (h : comment = [] ∨ comment ∈ comments) :
    Lexeme.ofText comment = [] := by
  rcases h with rfl | hmem
  · rw [Lexeme.ofText]
  · obtain ⟨mark, rfl, body, hbody, rfl⟩ := Language.mem_mul.1 hmem
    have hfeed : '\n' ∉ body := fun hmem =>
      absurd (Text.mem_star_one.1 hbody '\n' hmem) (by decide)
    have htext : ['#'] ++ body = '#' :: (body ++ []) := by rw [List.append_nil]; rfl
    refine (tokenizes_ofText _).unique (.skip (.comment body htext hfeed ?_) .done)
    exact fun c after heq => absurd heq.symm (List.cons_ne_nil c after)

theorem apart_comment {comment : List Char} (h : comment = [] ∨ comment ∈ comments) :
    Apart comment := by
  rcases h with rfl | hmem
  · exact apart_nil
  · obtain ⟨mark, rfl, body, _, rfl⟩ := Language.mem_mul.1 hmem
    rintro _ _ heq
    cases heq
    decide

/-- A line has the lexemes that it is made of. -/
theorem ofText_text {lexemes : List Lexeme} (layout : Layout lexemes)
    (h : ∀ lexeme ∈ lexemes, ∃ p : Pattern, p.Forms lexeme) :
    Lexeme.ofText layout.text = lexemes := by
  have hwhole : ∀ part ∈ layout.parts, part.2.IsWhole := by
    intro part hpart
    have hmem : part.2 ∈ lexemes := by
      rw [← layout.map_parts]
      exact List.mem_map_of_mem hpart
    obtain ⟨p, hforms⟩ := h part.2 hmem
    exact hforms.isWhole
  have hbehind : Apart (layout.behind ++ layout.comment) :=
    apart_blanks layout.behind_blank fun _ => apart_comment layout.comment_mem
  rw [text, ofText_joined hwhole layout.blank layout.separated hbehind,
    ofText_blanks layout.behind_blank, ofText_comment layout.comment_mem, List.append_nil,
    layout.map_parts]

end Layout

theorem ofText_touching : Lexeme.ofText "max-inf$5STR(\"#\")".toList =
    [⟨some (.identifier "max"), "max".toList⟩, ⟨some (.infinity true), "-inf".toList⟩,
      ⟨some (.hex 5), "$5".toList⟩, ⟨some (.packed "#"), "STR(\"#\")".toList⟩] := by cbv

/-- Lexemes that touch, set apart. -/
def setApart : Layout (Lexeme.ofText "max-inf$5STR(\"#\")".toList) where
  parts := [([], ⟨some (.identifier "max"), "max".toList⟩),
    (['\t'], ⟨some (.infinity true), "-inf".toList⟩), ([' '], ⟨some (.hex 5), "$5".toList⟩),
    ([' ', '\r'], ⟨some (.packed "#"), "STR(\"#\")".toList⟩)]
  behind := [' ']
  comment := ['#', ' ', '1']
  map_parts := ofText_touching.symm
  blank := by simp [isBlank]
  separated := by simp
  behind_blank := by simp [isBlank]
  comment_mem := .inr ⟨['#'], rfl, [' ', '1'], Text.mem_star_one.2 (by simp), rfl⟩

/-- The layout of a line does not matter. If all lexemes of a text have tokens, any line with these
lexemes has them again, with their tokens, and is the same statement or has the same error. A lexeme
with a token, of any text, is the only lexeme of its own text. -/
theorem layout_keeps_lexemes :
    (∀ text : List Char, (∀ lexeme ∈ Lexeme.ofText text, lexeme.token? ≠ none) →
      ∀ layout : Layout (Lexeme.ofText text),
        Lexeme.ofText layout.text = Lexeme.ofText text ∧
        statement layout.text = statement text ∧
        ∀ number rest, assembleLines number (layout.text :: rest) =
          assembleLines number (text :: rest)) ∧
    ∀ text : List Char, ∀ lexeme ∈ Lexeme.ofText text, lexeme.token? ≠ none →
      Lexeme.ofText lexeme.text = [lexeme] := by
  refine ⟨?_, ?_⟩
  · intro text htokens layout
    have hforms : ∀ lexeme ∈ Lexeme.ofText text, ∃ p : Pattern, p.Forms lexeme :=
      fun lexeme hmem => (tokenizes_ofText text).exists_forms lexeme hmem (htokens lexeme hmem)
    have hlexemes := layout.ofText_text hforms
    have hstatement : statement layout.text = statement text := by
      rw [statement, hlexemes, statement]
    refine ⟨hlexemes, hstatement, ?_⟩
    intro number rest
    rw [assembleLines, hstatement, assembleLines]
  · intro text lexeme hmem htoken
    obtain ⟨p, hforms⟩ := (tokenizes_ofText text).exists_forms lexeme hmem htoken
    have halone := hforms.ofText_append apart_nil
    rwa [List.append_nil, Lexeme.ofText] at halone

/-- A constant may hold the mark of a comment. -/
theorem layout_keeps_lexemes_of_max :
    (∀ lexeme ∈ Lexeme.ofText "max-inf$5STR(\"#\")".toList, lexeme.token? ≠ none) ∧
    setApart.text = "max\t-inf $5 \rSTR(\"#\") # 1".toList ∧
    Lexeme.ofText setApart.text = Lexeme.ofText "max-inf$5STR(\"#\")".toList ∧
    Lexeme.ofText "-inf".toList = [⟨some (.infinity true), "-inf".toList⟩] := by
  have htokens : ∀ lexeme ∈ Lexeme.ofText "max-inf$5STR(\"#\")".toList,
      lexeme.token? ≠ none := by
    rw [ofText_touching]
    simp
  have hinfinity : (⟨some (.infinity true), "-inf".toList⟩ : Lexeme) ∈
      Lexeme.ofText "max-inf$5STR(\"#\")".toList := by
    rw [ofText_touching]
    exact List.mem_cons_of_mem _ List.mem_cons_self
  exact ⟨htokens, rfl, (layout_keeps_lexemes.1 _ htokens setApart).1,
    layout_keeps_lexemes.2 _ _ hinfinity (by simp)⟩

end LogicChip.Assembly

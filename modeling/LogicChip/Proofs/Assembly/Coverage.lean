import LogicChip.Proofs.Assembly.Alphabet
import LogicChip.Proofs.Assembly.TrailingReturn

namespace LogicChip.Assembly

open Text (one exactly Absent)
open Lexeme (isBlank)
open Pattern (isArgumentPart openings)
open scoped Computability

/-- A mark, and what follows it on the line. -/
def comments : Language Char := exactly ['#'] * (one (· ≠ '\n'))∗

/-- Blanks and comments, in any number. -/
def gaps : Language Char := (one isBlank + comments)∗

/-- The texts of lexemes, each after what stands before it. -/
def joined (parts : List (List Char × Lexeme)) : List Char :=
  parts.flatMap fun part => part.1 ++ part.2.text

theorem joined_cons (part : List Char × Lexeme) (parts : List (List Char × Lexeme)) :
    joined (part :: parts) = part.1 ++ (part.2.text ++ joined parts) := by
  rw [joined, List.flatMap_cons, List.append_assoc, joined]

theorem nil_mem_gaps : [] ∈ gaps := Language.nil_mem_kstar _

theorem append_mem_gaps {first second : List Char} (h : first ∈ gaps) (hother : second ∈ gaps) :
    first ++ second ∈ gaps :=
  (kstar_mul_kstar (one isBlank + comments)).le (Language.append_mem_mul h hother)

theorem blanks_mem_gaps {run : List Char} (h : ∀ c ∈ run, isBlank c = true) : run ∈ gaps := by
  induction run with
  | nil => exact nil_mem_gaps
  | cons c run ih =>
    obtain ⟨hc, hrun⟩ := List.forall_mem_cons.1 h
    have hblank : [c] ∈ gaps := (le_kstar (a := one isBlank + comments)) (.inl ⟨c, hc, rfl⟩)
    exact append_mem_gaps hblank (ih hrun)

theorem comment_mem_gaps {body : List Char} (h : '\n' ∉ body) : '#' :: body ∈ gaps := by
  have hbody : body ∈ (one (· ≠ '\n'))∗ :=
    Text.mem_star_one.2 fun c hc => decide_eq_true fun heq => h (heq ▸ hc)
  have hcomment : '#' :: body ∈ comments := Language.append_mem_mul (a := ['#']) rfl hbody
  exact (le_kstar (a := one isBlank + comments)) (.inr hcomment)

namespace Step

variable {text rest : List Char} {lexeme : Lexeme}

/-- What is passed over is a gap. -/
theorem exists_gap (h : Step text none rest) : ∃ gap ∈ gaps, text = gap ++ rest := by
  cases h with
  | blanks run htext _ hrun _ => exact ⟨run, blanks_mem_gaps hrun, htext⟩
  | comment body htext hbody _ => exact ⟨'#' :: body, comment_mem_gaps hbody, htext⟩

/-- What is cut off is the lexeme, and not empty. -/
theorem eq_append_rest (h : Step text (some lexeme) rest) :
    lexeme.text ≠ [] ∧ text = lexeme.text ++ rest := by
  cases h with
  | spoiled word htext hspoiled =>
    obtain ⟨c, tail, rfl, _⟩ := hspoiled.exists_eq_cons
    exact ⟨List.cons_ne_nil c tail, htext⟩
  | token p word htext hlongest _ =>
    obtain ⟨c, tail, rfl, _⟩ := Pattern.exists_eq_cons hlongest.mem
    exact ⟨List.cons_ne_nil c tail, htext⟩
  | stray c htext _ _ _ => exact ⟨List.cons_ne_nil c [], htext⟩

end Step

namespace Tokenizes

variable {text : List Char} {lexemes : List Lexeme}

theorem text_ne_nil (h : Tokenizes text lexemes) : ∀ lexeme ∈ lexemes, lexeme.text ≠ [] := by
  induction h with
  | done => exact fun _ hmem => absurd hmem List.not_mem_nil
  | skip _ _ ih => exact ih
  | emit hstep _ ih => exact List.forall_mem_cons.2 ⟨hstep.eq_append_rest.1, ih⟩

theorem length_le (h : Tokenizes text lexemes) : lexemes.length ≤ text.length := by
  induction h with
  | done => exact Nat.le_refl 0
  | skip hstep _ ih =>
    obtain ⟨gap, _, rfl⟩ := hstep.exists_gap
    rw [List.length_append]
    omega
  | emit hstep _ ih =>
    obtain ⟨hne, htext⟩ := hstep.eq_append_rest
    have hpos := List.length_pos_iff.2 hne
    rw [htext, List.length_append, List.length_cons]
    omega

/-- Gaps before the lexemes and one behind them make up the text. -/
theorem exists_gaps (h : Tokenizes text lexemes) :
    ∃ (parts : List (List Char × Lexeme)) (last : List Char), parts.map Prod.snd = lexemes ∧
      (∀ part ∈ parts, part.1 ∈ gaps) ∧ last ∈ gaps ∧ text = joined parts ++ last := by
  induction h with
  | done => exact ⟨[], [], rfl, by simp, nil_mem_gaps, rfl⟩
  | skip hstep _ ih =>
    obtain ⟨gap, hgap, rfl⟩ := hstep.exists_gap
    obtain ⟨parts, last, rfl, hparts, hlast, rfl⟩ := ih
    -- The gap goes to the first lexeme, or behind them all if there is none.
    cases parts with
    | nil => exact ⟨[], gap ++ last, rfl, hparts, append_mem_gaps hgap hlast, rfl⟩
    | cons part parts =>
      obtain ⟨hpart, hrest⟩ := List.forall_mem_cons.1 hparts
      refine ⟨(gap ++ part.1, part.2) :: parts, last, rfl, ?_, hlast, ?_⟩
      · exact List.forall_mem_cons.2 ⟨append_mem_gaps hgap hpart, hrest⟩
      · simp only [joined_cons, List.append_assoc]
  | @emit text rest lexeme lexemes hstep _ ih =>
    obtain ⟨parts, last, rfl, hparts, hlast, rfl⟩ := ih
    refine ⟨([], lexeme) :: parts, last, rfl, ?_, hlast, ?_⟩
    · exact List.forall_mem_cons.2 ⟨nil_mem_gaps, hparts⟩
    · rw [hstep.eq_append_rest.2, joined_cons, List.nil_append, List.append_assoc]

end Tokenizes

section Feed

variable {text rest word : List Char}

/-- What does not hold a character does not reach beyond it. -/
theorem prefix_of_notMem {c : Char} (hword : c ∉ word) (h : word <+: text ++ c :: rest) :
    word <+: text := by
  by_cases hlength : word.length ≤ text.length
  · exact List.prefix_of_prefix_length_le h (List.prefix_append text _) hlength
  · have hbegun : text ++ [c] <+: text ++ c :: rest := ⟨rest, List.append_assoc ..⟩
    have hreached : text ++ [c] <+: word := by
      refine List.prefix_of_prefix_length_le hbegun h ?_
      rw [List.length_append, List.length_singleton]
      omega
    exact absurd (hreached.subset (List.mem_append_right _ List.mem_cons_self)) hword

/-- What holds of a line feed and of the first character of a text holds with the line feed behind
the text. -/
theorem head_of_append_feed {q : Char → Prop} (hfeed : q '\n')
    (h : ∀ c tail, text = c :: tail → q c) :
    ∀ c tail, text ++ '\n' :: rest = c :: tail → q c := by
  intro c tail heq
  cases text with
  | nil =>
    cases heq
    exact hfeed
  | cons d text =>
    cases heq
    exact h c text rfl

theorem absent_append_feed {p : Pattern} (h : Absent p.language text) (rest : List Char) :
    Absent p.language (text ++ '\n' :: rest) :=
  fun word hword hstarts => h word hword (prefix_of_notMem (Pattern.feed_notMem hword) hstarts)

theorem Longest.append_feed {p : Pattern} (h : Longest p word text) (rest : List Char) :
    Longest p word (text ++ '\n' :: rest) where
  mem := h.mem
  longest := by
    intro q other hother hstarts
    rw [← List.append_assoc] at hstarts
    exact h.longest q other hother (prefix_of_notMem (Pattern.feed_notMem hother) hstarts)
  preferred := h.preferred

theorem Spoiled.feed_notMem (h : Spoiled word rest) : '\n' ∉ word := by
  obtain ⟨opening, argument, hopening, hargument, rfl, _⟩ := h
  have hopenings : ∀ opening ∈ openings, '\n' ∉ opening := by decide
  intro hmem
  rcases List.mem_append.1 hmem with hmem | hmem
  · exact hopenings opening hopening hmem
  · exact absurd (hargument '\n' hmem) (by decide)

theorem Spoiled.append_feed (h : Spoiled word text) (rest : List Char) :
    Spoiled word (text ++ '\n' :: rest) := by
  obtain ⟨opening, argument, hopening, hargument, hword, hends, hopen⟩ := h
  refine ⟨opening, argument, hopening, hargument, hword, head_of_append_feed (by decide) hends, ?_⟩
  exact fun hclosed => hopen (prefix_of_notMem (by decide) hclosed)

/-- A constant that is spoiled before a line feed is spoiled without it. -/
theorem Spoiled.of_append_feed {after : List Char} (h : Spoiled word after)
    (htext : text ++ '\n' :: rest = word ++ after) : ∃ left, text = word ++ left ∧
      Spoiled word left := by
  have hstarts : word <+: text ++ '\n' :: rest := ⟨after, htext.symm⟩
  obtain ⟨left, rfl⟩ := prefix_of_notMem h.feed_notMem hstarts
  rw [List.append_assoc] at htext
  obtain rfl := List.append_cancel_left htext
  obtain ⟨opening, argument, hopening, hargument, hword, hends, hopen⟩ := h
  refine ⟨left, rfl, opening, argument, hopening, hargument, hword, head_of_append hends, ?_⟩
  exact fun hclosed => hopen (hclosed.trans (List.prefix_append left _))

/-- A step is not changed by what stands behind a line feed. -/
theorem Step.append_feed {lexeme? : Option Lexeme} (h : Step text lexeme? word)
    (rest : List Char) : Step (text ++ '\n' :: rest) lexeme? (word ++ '\n' :: rest) := by
  cases h with
  | blanks run htext hne hrun hrest =>
    refine .blanks run ?_ hne hrun (head_of_append_feed (by decide) hrest)
    rw [htext, List.append_assoc]
  | comment body htext hbody hrest =>
    refine .comment body ?_ hbody (head_of_append_feed rfl hrest)
    rw [htext, List.cons_append, List.append_assoc]
  | spoiled word htext hspoiled =>
    refine .spoiled word ?_ (hspoiled.append_feed rest)
    rw [htext, List.append_assoc]
  | token p word htext hlongest hwhole =>
    refine .token p word ?_ (hlongest.append_feed rest) ?_
    · rw [htext, List.append_assoc]
    · intro begun after heq hspoiled
      obtain ⟨left, hleft, hspoiled⟩ := hspoiled.of_append_feed heq
      exact hwhole begun left hleft hspoiled
  | stray c htext hblank hcomment habsent =>
    refine .stray c ?_ hblank hcomment fun p => absent_append_feed (habsent p) rest
    rw [htext, List.cons_append]

theorem step_feed (rest : List Char) : Step ('\n' :: rest) (some ⟨none, ['\n']⟩) rest := by
  refine .stray '\n' rfl (by decide) (by decide) ?_
  intro p word hword hstarts
  obtain ⟨c, tail, rfl, _⟩ := Pattern.exists_eq_cons hword
  obtain ⟨rfl, _⟩ := List.cons_prefix_cons.1 hstarts
  exact Pattern.feed_notMem hword List.mem_cons_self

theorem Tokenizes.append_feed {lexemes others : List Lexeme} (h : Tokenizes text lexemes)
    (hrest : Tokenizes rest others) :
    Tokenizes (text ++ '\n' :: rest) (lexemes ++ ⟨none, ['\n']⟩ :: others) := by
  induction h with
  | done => exact .emit (step_feed rest) hrest
  | skip hstep _ ih => exact .skip (hstep.append_feed rest) ih
  | emit hstep _ ih => exact .emit (hstep.append_feed rest) ih

end Feed

theorem Lexeme.ofText_append_feed (text rest : List Char) :
    ofText (text ++ '\n' :: rest) = ofText text ++ ⟨none, ['\n']⟩ :: ofText rest :=
  (tokenizes_ofText _).unique ((tokenizes_ofText text).append_feed (tokenizes_ofText rest))

/-- Nothing of a text is lost. Its lexemes are not empty and are no more than its characters, and
with gaps of blanks and comments around them they make up the text. A line feed is a lexeme of its
own without a token, and both the text before it and the text behind it have the lexemes that they
have alone. -/
theorem lexemes_cover_text :
    (∀ text : List Char,
      (∀ lexeme ∈ Lexeme.ofText text, lexeme.text ≠ []) ∧
      (∃ (parts : List (List Char × Lexeme)) (last : List Char),
        parts.map Prod.snd = Lexeme.ofText text ∧ (∀ part ∈ parts, part.1 ∈ gaps) ∧
        last ∈ gaps ∧ text = joined parts ++ last) ∧
      (Lexeme.ofText text).length ≤ text.length) ∧
    ∀ text rest : List Char, Lexeme.ofText (text ++ '\n' :: rest) =
      Lexeme.ofText text ++ ⟨none, ['\n']⟩ :: Lexeme.ofText rest := by
  refine ⟨?_, Lexeme.ofText_append_feed⟩
  intro text
  have hcut := tokenizes_ofText text
  exact ⟨hcut.text_ne_nil, hcut.exists_gaps, hcut.length_le⟩

/-- A line feed ends a constant that is not finished and is not lost in it. -/
theorem lexemes_cover_text_around_feed :
    Lexeme.ofText "STR(\"a\n# b".toList = [⟨none, "STR(\"a".toList⟩, ⟨none, ['\n']⟩] ∧
    "STR(\"a".toList ≠ [] ∧
    Lexeme.ofText ("STR(\"a".toList ++ '\n' :: "# b".toList) =
      Lexeme.ofText "STR(\"a".toList ++ ⟨none, ['\n']⟩ :: Lexeme.ofText "# b".toList := by
  have hcut : Lexeme.ofText "STR(\"a\n# b".toList =
      [⟨none, "STR(\"a".toList⟩, ⟨none, ['\n']⟩] := by cbv
  have hmem : (⟨none, "STR(\"a".toList⟩ : Lexeme) ∈ Lexeme.ofText "STR(\"a\n# b".toList := by
    rw [hcut]
    exact List.mem_cons_self
  exact ⟨hcut, (lexemes_cover_text.1 _).1 _ hmem, lexemes_cover_text.2 _ _⟩

end LogicChip.Assembly

import LogicChip.Proofs.Assembly.Pattern

namespace LogicChip.Assembly

open Text (Absent)
open Lexeme (isBlank isNameStart)
open Pattern (isArgumentPart openings)

/-- A text begins with a word of a pattern, no pattern has a longer one, and of the patterns with
the word one of fixed words goes first. -/
structure Longest (p : Pattern) (word rest : List Char) : Prop where
  mem : word ∈ p.language
  longest : ∀ q : Pattern, ∀ other ∈ q.language, other <+: word ++ rest →
    other.length ≤ word.length
  preferred : ∀ q : Pattern, word ∈ q.language → q.isFixed = true → p.isFixed = true

/-- The word is an opening and all of an argument, and what should finish the constant does not
follow. -/
def Spoiled (word rest : List Char) : Prop :=
  ∃ opening argument, opening ∈ openings ∧ (∀ c ∈ argument, isArgumentPart c = true) ∧
    word = opening ++ argument ∧ (∀ c after, rest = c :: after → isArgumentPart c = false) ∧
    ¬ ['"', ')'] <+: rest

/-- A step over the beginning of a text: the lexeme that is cut off, if it is one, and the rest. -/
inductive Step (text : List Char) : Option Lexeme → List Char → Prop where
  | blanks (run : List Char) {rest : List Char} (htext : text = run ++ rest) (hne : run ≠ [])
    (hrun : ∀ c ∈ run, isBlank c = true)
    (hrest : ∀ c after, rest = c :: after → isBlank c = false) : Step text none rest
  | comment (body : List Char) {rest : List Char} (htext : text = '#' :: (body ++ rest))
    (hbody : '\n' ∉ body) (hrest : ∀ c after, rest = c :: after → c = '\n') : Step text none rest
  | spoiled (word : List Char) {rest : List Char} (htext : text = word ++ rest)
    (hspoiled : Spoiled word rest) : Step text (some ⟨none, word⟩) rest
  | token (p : Pattern) (word : List Char) {rest : List Char} (htext : text = word ++ rest)
    (hlongest : Longest p word rest)
    (hwhole : ∀ begun after, text = begun ++ after → ¬ Spoiled begun after) :
    Step text (some ⟨p.token? word, word⟩) rest
  | stray (c : Char) {rest : List Char} (htext : text = c :: rest) (hblank : isBlank c = false)
    (hcomment : c ≠ '#') (habsent : ∀ p : Pattern, Absent p.language text) :
    Step text (some ⟨none, [c]⟩) rest

/-- A text is cut into lexemes, step by step up to its end. -/
inductive Tokenizes : List Char → List Lexeme → Prop where
  | done : Tokenizes [] []
  | skip {text rest : List Char} {lexemes : List Lexeme} (hstep : Step text none rest)
    (hrest : Tokenizes rest lexemes) : Tokenizes text lexemes
  | emit {text rest : List Char} {lexeme : Lexeme} {lexemes : List Lexeme}
    (hstep : Step text (some lexeme) rest) (hrest : Tokenizes rest lexemes) :
    Tokenizes text (lexeme :: lexemes)

theorem Longest.eq_word {p q : Pattern} {word other rest after : List Char}
    (h : Longest p word rest) (hother : Longest q other after)
    (htext : word ++ rest = other ++ after) : word = other ∧ p = q := by
  have hle := h.longest q other hother.mem (htext ▸ List.prefix_append other after)
  have hge := hother.longest p word h.mem (htext ▸ List.prefix_append word rest)
  obtain ⟨rfl, _⟩ := List.append_inj htext (by omega)
  have hfixed : p.isFixed = q.isFixed := by
    have hp := h.preferred q hother.mem
    have hq := hother.preferred p h.mem
    cases hcase : p.isFixed with
    | true => rw [hq hcase]
    | false =>
      cases hcase' : q.isFixed with
      | true => rw [hp hcase'] at hcase; cases hcase
      | false => rfl
  refine ⟨rfl, ?_⟩
  rw [Pattern.eq_ofText h.mem, Pattern.eq_ofText hother.mem, hfixed]

/-- A run that ends where its class does is determined by the text. -/
theorem run_unique {p : Char → Bool} {run other rest after : List Char}
    (hrun : ∀ c ∈ run, p c = true) (hrest : ∀ c tail, rest = c :: tail → p c = false)
    (hother : ∀ c ∈ other, p c = true) (hafter : ∀ c tail, after = c :: tail → p c = false)
    (htext : run ++ rest = other ++ after) : run = other ∧ rest = after := by
  have hfirst := Text.takeWhile_run hrun (Text.takeWhile_eq_nil hrest)
  have hsecond := Text.takeWhile_run hother (Text.takeWhile_eq_nil hafter)
  have heq : run = other := by rw [← hfirst, htext, hsecond]
  subst heq
  exact ⟨rfl, List.append_cancel_left htext⟩

theorem Spoiled.exists_eq_cons {word rest : List Char} (h : Spoiled word rest) :
    ∃ c tail, word = c :: tail ∧ isNameStart c = true := by
  obtain ⟨opening, argument, hopening, _, rfl, _⟩ := h
  obtain ⟨c, tail, rfl, hc⟩ := Pattern.exists_eq_cons_of_mem_openings hopening
  exact ⟨c, tail ++ argument, rfl, hc⟩

/-- After an opening, a spoiled constant takes all of the argument. -/
theorem Spoiled.eq_of_opening {opening text word rest : List Char} (h : Spoiled word rest)
    (hopening : opening ∈ openings) (htext : opening ++ text = word ++ rest) :
    word = opening ++ text.takeWhile isArgumentPart ∧ rest = text.dropWhile isArgumentPart := by
  obtain ⟨opening', argument, hopening', hargument, rfl, hrest, _⟩ := h
  rw [List.append_assoc] at htext
  have heq : opening = opening' := by
    apply Pattern.eq_of_mem_openings opening hopening opening' hopening'
    obtain ⟨c, tail, rfl, _⟩ := Pattern.exists_eq_cons_of_mem_openings hopening
    obtain ⟨d, tail', rfl, _⟩ := Pattern.exists_eq_cons_of_mem_openings hopening'
    exact congrArg some (List.cons.inj htext).1
  subst heq
  have hsplit := List.takeWhile_append_dropWhile (p := isArgumentPart) (l := text)
  have hwhole := List.append_cancel_left htext
  have hends : ∀ c tail, text.dropWhile isArgumentPart = c :: tail → isArgumentPart c = false :=
    fun _ _ => Text.head_dropWhile
  obtain ⟨rfl, rfl⟩ := run_unique (List.all_eq_true.1 List.all_takeWhile) hends hargument hrest
    (hsplit.trans hwhole)
  exact ⟨rfl, rfl⟩

theorem Spoiled.unique {word rest other after : List Char} (h : Spoiled word rest)
    (hother : Spoiled other after) (htext : word ++ rest = other ++ after) :
    word = other ∧ rest = after := by
  obtain ⟨opening, argument, hopening, _, hword, _⟩ := id h
  have hopened : opening ++ (argument ++ rest) = word ++ rest := by
    rw [hword, List.append_assoc]
  obtain ⟨hword, hrest⟩ := h.eq_of_opening hopening hopened
  obtain ⟨hother, hafter⟩ := hother.eq_of_opening hopening (hopened.trans htext)
  exact ⟨hword.trans hother.symm, hrest.trans hafter.symm⟩

theorem begins_apart {p : Pattern} {c : Char} (h : p.begins c = true) :
    isBlank c = false ∧ c ≠ '#' := by
  have hblank : p.begins ' ' = false := by cases p <;> decide
  have htab : p.begins '\t' = false := by cases p <;> decide
  have hreturn : p.begins '\r' = false := by cases p <;> decide
  have hcomment : p.begins '#' = false := by cases p <;> decide
  exact ⟨Lexeme.isBlank_of_class h hblank htab hreturn, Lexeme.ne_of_class h hcomment⟩

theorem head_of_blanks {run : List Char} (rest : List Char) (hne : run ≠ [])
    (hrun : ∀ c ∈ run, isBlank c = true) :
    ∃ c tail, run ++ rest = c :: tail ∧ isBlank c = true := by
  cases run with
  | nil => exact absurd rfl hne
  | cons c run => exact ⟨c, run ++ rest, rfl, hrun c List.mem_cons_self⟩

theorem not_absent_of_mem {p : Pattern} {word rest : List Char} (h : word ∈ p.language) :
    ¬ Absent p.language (word ++ rest) :=
  fun habsent => habsent word h (List.prefix_append word rest)

theorem Spoiled.not_absent {word rest : List Char} (h : Spoiled word rest) :
    ¬ Absent Pattern.identifier.language (word ++ rest) := by
  obtain ⟨c, tail, rfl, hc⟩ := h.exists_eq_cons
  intro habsent
  exact habsent [c] (Pattern.cons_mem_identifier hc rfl) (List.prefix_append [c] (tail ++ rest))

namespace Step

variable {text rest after : List Char} {lexeme other : Lexeme}

/-- What is passed over begins with a blank or the mark of a comment. -/
theorem head_of_none (h : Step text none rest) :
    ∃ c tail, text = c :: tail ∧ (isBlank c = true ∨ c = '#') := by
  cases h with
  | blanks run htext hne hrun _ =>
    obtain ⟨c, tail, heq, hc⟩ := head_of_blanks rest hne hrun
    exact ⟨c, tail, htext.trans heq, .inl hc⟩
  | comment body htext _ _ => exact ⟨'#', _, htext, .inr rfl⟩

/-- A lexeme begins with neither. -/
theorem head_of_some (h : Step text (some lexeme) rest) :
    ∃ c tail, text = c :: tail ∧ isBlank c = false ∧ c ≠ '#' := by
  cases h with
  | spoiled word htext hspoiled =>
    obtain ⟨c, tail, rfl, hc⟩ := hspoiled.exists_eq_cons
    refine ⟨c, tail ++ rest, htext, ?_, Lexeme.ne_of_class hc (by decide)⟩
    exact Lexeme.isBlank_of_class hc (by decide) (by decide) (by decide)
  | token p word htext hlongest _ =>
    obtain ⟨c, tail, rfl, hc⟩ := Pattern.exists_eq_cons hlongest.mem
    exact ⟨c, tail ++ rest, htext, begins_apart hc⟩
  | stray c htext hblank hcomment _ => exact ⟨c, rest, htext, hblank, hcomment⟩

theorem none_ne_some (h : Step text none rest) (hother : Step text (some lexeme) after) :
    False := by
  obtain ⟨c, tail, rfl, hskipped⟩ := h.head_of_none
  obtain ⟨d, tail', heq, hblank, hcomment⟩ := hother.head_of_some
  cases heq
  rcases hskipped with hskipped | hskipped
  · rw [hblank] at hskipped
    cases hskipped
  · exact hcomment hskipped

theorem blanks_ne_comment {run rest tail : List Char} (hne : run ≠ [])
    (hrun : ∀ c ∈ run, isBlank c = true) (h : run ++ rest = '#' :: tail) : False := by
  obtain ⟨c, tail', heq, hc⟩ := head_of_blanks rest hne hrun
  rw [(List.cons.inj (heq.symm.trans h)).1] at hc
  exact absurd hc (by decide)

theorem unique_of_none (h : Step text none rest) (hother : Step text none after) :
    rest = after := by
  cases h with
  | blanks run htext hne hrun hrest =>
    cases hother with
    | blanks run' htext' hne' hrun' hrest' =>
      exact (run_unique hrun hrest hrun' hrest' (htext.symm.trans htext')).2
    | comment body htext' _ _ =>
      exact (blanks_ne_comment hne hrun (htext.symm.trans htext')).elim
  | comment body htext hbody hrest =>
    cases hother with
    | blanks run htext' hne' hrun' _ =>
      exact (blanks_ne_comment hne' hrun' (htext'.symm.trans htext)).elim
    | comment body' htext' hbody' hrest' =>
      have hrun : ∀ {body : List Char}, '\n' ∉ body → ∀ c ∈ body, decide (c ≠ '\n') = true :=
        fun h c hc => decide_eq_true fun heq => h (heq ▸ hc)
      have hend : ∀ {rest : List Char}, (∀ c after, rest = c :: after → c = '\n') →
          ∀ c after, rest = c :: after → decide (c ≠ '\n') = false :=
        fun h c after heq => decide_eq_false fun hne => hne (h c after heq)
      exact (run_unique (hrun hbody) (hend hrest) (hrun hbody') (hend hrest')
        (List.cons.inj (htext.symm.trans htext')).2).2

theorem unique_of_some (h : Step text (some lexeme) rest) (hother : Step text (some other) after) :
    lexeme = other ∧ rest = after := by
  cases h with
  | spoiled word htext hspoiled =>
    cases hother with
    | spoiled word' htext' hspoiled' =>
      obtain ⟨rfl, rfl⟩ := hspoiled.unique hspoiled' (htext.symm.trans htext')
      exact ⟨rfl, rfl⟩
    | token p word' htext' hlongest hwhole => exact absurd hspoiled (hwhole word rest htext)
    | stray c htext' _ _ habsent =>
      rw [htext] at habsent
      exact absurd (habsent .identifier) hspoiled.not_absent
  | token p word htext hlongest hwhole =>
    cases hother with
    | spoiled word' htext' hspoiled => exact absurd hspoiled (hwhole word' after htext')
    | token q word' htext' hlongest' _ =>
      obtain ⟨rfl, rfl⟩ := hlongest.eq_word hlongest' (htext.symm.trans htext')
      exact ⟨rfl, List.append_cancel_left (htext.symm.trans htext')⟩
    | stray c htext' _ _ habsent =>
      rw [htext] at habsent
      exact absurd (habsent p) (not_absent_of_mem hlongest.mem)
  | stray c htext hblank hcomment habsent =>
    cases hother with
    | spoiled word htext' hspoiled =>
      rw [htext'] at habsent
      exact absurd (habsent .identifier) hspoiled.not_absent
    | token p word htext' hlongest _ =>
      rw [htext'] at habsent
      exact absurd (habsent p) (not_absent_of_mem hlongest.mem)
    | stray c' htext' _ _ _ =>
      obtain ⟨rfl, rfl⟩ := List.cons.inj (htext.symm.trans htext')
      exact ⟨rfl, rfl⟩

end Step

/-- A text is cut in one way at most. -/
theorem Tokenizes.unique {text : List Char} {lexemes others : List Lexeme}
    (h : Tokenizes text lexemes) (hother : Tokenizes text others) : lexemes = others := by
  induction h generalizing others with
  | done =>
    cases hother with
    | done => rfl
    | skip hstep _ =>
      obtain ⟨c, tail, heq, _⟩ := hstep.head_of_none
      cases heq
    | emit hstep _ =>
      obtain ⟨c, tail, heq, _⟩ := hstep.head_of_some
      cases heq
  | skip hstep _ ih =>
    cases hother with
    | done =>
      obtain ⟨c, tail, heq, _⟩ := hstep.head_of_none
      cases heq
    | skip hstep' hrest' =>
      rw [← hstep.unique_of_none hstep'] at hrest'
      exact ih hrest'
    | emit hstep' _ => exact (hstep.none_ne_some hstep').elim
  | emit hstep _ ih =>
    cases hother with
    | done =>
      obtain ⟨c, tail, heq, _⟩ := hstep.head_of_some
      cases heq
    | skip hstep' _ => exact (hstep'.none_ne_some hstep).elim
    | emit hstep' hrest' =>
      obtain ⟨rfl, rfl⟩ := hstep.unique_of_some hstep'
      rw [ih hrest']

end LogicChip.Assembly

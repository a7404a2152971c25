import LogicChip.Proofs.Assembly.LongestMatch

namespace LogicChip.Assembly

open Text (EndsWith)
open Pattern (isArgumentPart)

namespace Pattern

theorem endsWith_marked {mark : Char} {isRadixDigit : Char → Bool}
    (h : isRadixDigit '\r' = false) : EndsWith (marked mark isRadixDigit) (· ≠ '\r') := by
  refine (Text.endsWith_runs ?_).mul fun hmem => absurd hmem Text.nil_notMem_runs
  rintro c hc rfl
  rw [h] at hc
  exact absurd hc (by decide)

theorem endsWith_constants (opening : List Char) : EndsWith (constants opening) (· ≠ '\r') :=
  (Text.endsWith_exactly ['"'] (by decide)).mul fun hmem =>
    absurd hmem (Text.nil_notMem_exactly '"' [')'])

theorem endsWith_language (p : Pattern) : EndsWith p.language (· ≠ '\r') := by
  cases p with
  | identifier =>
    refine (Text.endsWith_star ?_).mul fun _ => Text.endsWith_one ?_
    · exact fun c hc => Lexeme.ne_of_class hc (by decide)
    · exact fun c hc => Lexeme.ne_of_class hc (by decide)
  | number =>
    exact fun text c hmem => Lexeme.ne_of_class (Decimal.endsWith_literals text c hmem) (by decide)
  | hex => exact endsWith_marked (by decide)
  | binary => exact endsWith_marked (by decide)
  | nan =>
    exact (Text.endsWith_exactly ['N', 'a'] (by decide)).add
      (Text.endsWith_exactly ['n', 'a'] (by decide))
  | infinity =>
    exact (Text.endsWith_exactly ['i', 'n'] (by decide)).add
      (Text.endsWith_exactly ['-', 'i', 'n'] (by decide))
  | hash => exact endsWith_constants hashOpening
  | packed => exact endsWith_constants packedOpening

end Pattern

/-- A cut through a text with a carriage return at its end is one through the text without it, or
stands behind it. -/
theorem cut_of_append_return {text first rest : List Char} (h : text ++ ['\r'] = first ++ rest) :
    (rest = [] ∧ first = text ++ ['\r']) ∨
      ∃ body, rest = body ++ ['\r'] ∧ text = first ++ body := by
  rcases List.eq_nil_or_concat' rest with rfl | ⟨body, c, rfl⟩
  · rw [List.append_nil] at h
    exact .inl ⟨rfl, h.symm⟩
  · rw [← List.append_assoc] at h
    obtain ⟨htext, hlast⟩ := List.append_inj' h rfl
    cases hlast
    exact .inr ⟨body, rfl, htext⟩

/-- What holds of the first character of a text holds of that of its beginning. -/
theorem head_of_append {body after : List Char} {q : Char → Prop}
    (h : ∀ c tail, body ++ after = c :: tail → q c) : ∀ c tail, body = c :: tail → q c := by
  rintro c tail rfl
  exact h c (tail ++ after) rfl

/-- A constant that is spoiled stays so with a carriage return at the end of the text. It is a part
of the argument if this goes on up to the end. -/
theorem Spoiled.append_return {begun after : List Char} (h : Spoiled begun after) :
    ∃ word rest, begun ++ after ++ ['\r'] = word ++ rest ∧ Spoiled word rest := by
  obtain ⟨opening, argument, hopening, hargument, rfl, hends, hopen⟩ := h
  cases after with
  | nil =>
    refine ⟨opening ++ (argument ++ ['\r']), [], ?_, opening, argument ++ ['\r'], hopening, ?_, rfl,
      ?_, by decide⟩
    · rw [List.append_nil, List.append_nil, List.append_assoc]
    · intro c hc
      rcases List.mem_append.1 hc with hc | hc
      · exact hargument c hc
      · rw [List.mem_singleton.1 hc]
        decide
    · exact fun _ _ heq => absurd heq (List.cons_ne_nil _ _).symm
  | cons c after =>
    refine ⟨opening ++ argument, c :: after ++ ['\r'], List.append_assoc _ _ _, opening, argument,
      hopening, hargument, rfl, ?_, ?_⟩
    · rintro d tail heq
      cases heq
      exact hends c after rfl
    · intro hclosed
      rcases List.prefix_concat_iff.1 hclosed with heq | hstarts
      · -- The closing ends with a parenthesis.
        have hlast := congrArg List.getLast? heq
        rw [List.getLast?_concat] at hlast
        exact absurd hlast (by decide)
      · exact hopen hstarts

namespace Step

variable {text rest : List Char}

/-- What is passed over with a carriage return at the end of the text is passed over without it. -/
theorem none_of_append_return (h : Step (text ++ ['\r']) none rest) :
    (rest = [] ∧ Tokenizes text []) ∨ ∃ body, rest = body ++ ['\r'] ∧ Step text none body := by
  cases h with
  | blanks run htext hne hrun hrest =>
    rcases cut_of_append_return htext with ⟨rfl, rfl⟩ | ⟨body, rfl, rfl⟩
    · refine .inl ⟨rfl, ?_⟩
      by_cases hempty : text = []
      · rw [hempty]
        exact .done
      · refine .skip (.blanks text (List.append_nil text).symm hempty ?_ ?_) .done
        · exact fun c hc => hrun c (List.mem_append_left _ hc)
        · exact fun _ _ heq => nomatch heq
    · exact .inr ⟨body, rfl, .blanks run rfl hne hrun (head_of_append hrest)⟩
  | comment comment htext hcomment hrest =>
    rw [← List.cons_append] at htext
    rcases cut_of_append_return htext with ⟨rfl, hwhole⟩ | ⟨body, rfl, rfl⟩
    · refine .inl ⟨rfl, ?_⟩
      cases text with
      | nil => exact absurd hwhole (by simp)
      | cons c tail =>
        obtain ⟨rfl, rfl⟩ := List.cons.inj hwhole
        refine .skip (.comment tail (congrArg _ (List.append_nil tail).symm) ?_ ?_) .done
        · exact fun hmem => hcomment (List.mem_append_left _ hmem)
        · exact fun _ _ heq => nomatch heq
    · exact .inr ⟨body, rfl, .comment comment rfl hcomment (head_of_append hrest)⟩

/-- A lexeme with a token stops before a carriage return at the end of the text. -/
theorem some_of_append_return {lexeme : Lexeme} (h : Step (text ++ ['\r']) (some lexeme) rest)
    (htoken : lexeme.token? ≠ none) :
    ∃ body, rest = body ++ ['\r'] ∧ Step text (some lexeme) body := by
  cases h with
  | spoiled word htext hspoiled => exact absurd rfl htoken
  | stray c htext hblank hcomment habsent => exact absurd rfl htoken
  | token p word htext hlongest hwhole =>
    rcases cut_of_append_return htext with ⟨rfl, rfl⟩ | ⟨body, rfl, rfl⟩
    · exact absurd rfl (p.endsWith_language text '\r' hlongest.mem)
    · refine ⟨body, rfl, .token p word rfl ⟨hlongest.mem, ?_, hlongest.preferred⟩ ?_⟩
      · intro q other hother hstarts
        apply hlongest.longest q other hother
        rw [← List.append_assoc]
        exact hstarts.trans (List.prefix_append _ _)
      · intro begun after htext hspoiled
        obtain ⟨word', rest', hsplit, hspoiled⟩ := hspoiled.append_return
        exact hwhole word' rest' (htext ▸ hsplit) hspoiled

end Step

theorem Tokenizes.of_append_return {text : List Char} {lexemes : List Lexeme}
    (h : Tokenizes (text ++ ['\r']) lexemes) (htokens : ∀ lexeme ∈ lexemes, lexeme.token? ≠ none) :
    Tokenizes text lexemes := by
  generalize hwhole : text ++ ['\r'] = whole at h
  induction h generalizing text with
  | done => exact absurd hwhole (List.append_ne_nil_of_right_ne_nil text (List.cons_ne_nil _ _))
  | skip hstep hrest ih =>
    subst hwhole
    rcases hstep.none_of_append_return with ⟨rfl, hempty⟩ | ⟨body, rfl, hbody⟩
    · rwa [hrest.unique .done]
    · exact .skip hbody (ih htokens rfl)
  | emit hstep hrest ih =>
    subst hwhole
    obtain ⟨body, rfl, hbody⟩ := hstep.some_of_append_return (htokens _ List.mem_cons_self)
    exact .emit hbody (ih (fun lexeme hmem => htokens lexeme (List.mem_cons_of_mem _ hmem)) rfl)

theorem Lexeme.ofText_of_append_return {text : List Char}
    (h : ∀ lexeme ∈ ofText (text ++ ['\r']), lexeme.token? ≠ none) :
    ofText text = ofText (text ++ ['\r']) :=
  (tokenizes_ofText text).unique ((tokenizes_ofText (text ++ ['\r'])).of_append_return h)

theorem exists_ok_of_bind {ε α β : Type} {x : Except ε α} {f : α → Except ε β} {b : β}
    (h : x >>= f = .ok b) : ∃ a, x = .ok a ∧ f a = .ok b := by
  cases x with
  | error e => cases h
  | ok a => exact ⟨a, rfl, h⟩

theorem Lexeme.token?_ne_none_of_opcode {lexeme : Lexeme} {op : Opcode}
    (h : lexeme.opcode = .ok op) : lexeme.token? ≠ none := by
  intro hnone
  simp only [opcode, hnone] at h
  cases h

theorem Lexeme.token?_ne_none_of_operand {lexeme : Lexeme} {x : Binary64}
    (h : lexeme.operand = .ok x) : lexeme.token? ≠ none := by
  intro hnone
  simp only [operand, hnone] at h
  cases h

theorem tokens_of_operands {lexemes : List Lexeme} {operands : List Binary64}
    (h : lexemes.mapM Lexeme.operand = .ok operands) :
    ∀ lexeme ∈ lexemes, lexeme.token? ≠ none := by
  induction lexemes generalizing operands with
  | nil => exact fun _ hmem => absurd hmem List.not_mem_nil
  | cons first rest ih =>
    rw [List.mapM_cons] at h
    obtain ⟨x, hfirst, h⟩ := exists_ok_of_bind h
    obtain ⟨others, hrest, _⟩ := exists_ok_of_bind h
    exact List.forall_mem_cons.2 ⟨Lexeme.token?_ne_none_of_operand hfirst, ih hrest⟩

/-- A statement is made up of lexemes with tokens. -/
theorem tokens_of_statementOfLexemes {lexemes : List Lexeme} {statement? : Option Instruction}
    (h : statementOfLexemes lexemes = .ok statement?) :
    ∀ lexeme ∈ lexemes, lexeme.token? ≠ none := by
  cases lexemes with
  | nil => exact fun _ hmem => absurd hmem List.not_mem_nil
  | cons first rest =>
    obtain ⟨op, hfirst, h⟩ := exists_ok_of_bind h
    obtain ⟨operands, hrest, _⟩ := exists_ok_of_bind h
    exact List.forall_mem_cons.2
      ⟨Lexeme.token?_ne_none_of_opcode hfirst, tokens_of_operands hrest⟩

/-- A statement stays the same without a carriage return at the end of its line. -/
theorem statement_of_append_return {line : List Char} {statement? : Option Instruction}
    (h : statement (line ++ ['\r']) = .ok statement?) : statement line = .ok statement? := by
  have hlexemes := Lexeme.ofText_of_append_return (tokens_of_statementOfLexemes h)
  rw [statement, hlexemes]
  exact h

end LogicChip.Assembly

import LogicChip.Proofs.Assembly.Tokenization

namespace LogicChip.Assembly

open Text (exactly Greedy Absent)
open Lexeme (isNameStart isNamePart)
open Pattern (isArgumentPart openings constants)
open scoped Computability

theorem Spoiled.not_closed {word rest : List Char} (h : Spoiled word rest) :
    ¬ ['"', ')'] <+: rest := by
  obtain ⟨_, _, _, _, _, _, hclosed⟩ := h
  exact hclosed

theorem argument_append (opening argument : List Char) :
    Pattern.argument opening (opening ++ (argument ++ ['"', ')'])) = String.ofList argument := by
  have hlength : (opening ++ (argument ++ ['"', ')'])).length - 2 - opening.length =
      argument.length := by
    simp only [List.length_append, List.length_cons, List.length_nil]
    omega
  rw [Pattern.argument, hlength, List.drop_left, List.take_left]

theorem greedy_identifier {c : Char} (hc : isNameStart c = true) (rest : List Char) :
    Greedy Pattern.identifier.language (fun c => False ∨ isNamePart c = true) (c :: rest)
      (1 + (rest.takeWhile isNamePart).length) :=
  (Text.greedy_one hc rest).mul (Text.greedy_star isNamePart rest) fun _ _ _ => id

section Argument

variable {opening argument tail : List Char}

theorem takeWhile_argument (hparts : ∀ c ∈ argument, isArgumentPart c = true)
    (htail : ∀ c rest, tail = c :: rest → isArgumentPart c = false) :
    (argument ++ tail).takeWhile isArgumentPart = argument :=
  Text.takeWhile_run hparts (Text.takeWhile_eq_nil htail)

theorem isArgumentPart_closing {c : Char} {rest after : List Char}
    (h : '"' :: rest = c :: after) : isArgumentPart c = false := by
  cases h
  decide

theorem munchArgument_of_closed (token : String → Token)
    (hparts : ∀ c ∈ argument, isArgumentPart c = true) (rest : List Char) :
    Lexeme.munchArgument token (argument ++ '"' :: ')' :: rest) =
      (some (token (String.ofList argument)), argument.length + 2) := by
  have hrun : (argument ++ '"' :: ')' :: rest).takeWhile isArgumentPart = argument :=
    takeWhile_argument hparts fun _ _ => isArgumentPart_closing
  unfold isArgumentPart at hrun
  simp only [Lexeme.munchArgument, hrun, List.drop_left]

theorem munchArgument_of_open (token : String → Token)
    (hparts : ∀ c ∈ argument, isArgumentPart c = true)
    (htail : ∀ c rest, tail = c :: rest → isArgumentPart c = false)
    (hopen : ∀ rest, tail ≠ '"' :: ')' :: rest) :
    Lexeme.munchArgument token (argument ++ tail) = (none, argument.length) := by
  have hrun := takeWhile_argument hparts htail
  unfold isArgumentPart at hrun
  simp only [Lexeme.munchArgument, hrun, List.drop_left]

theorem greedy_constants (hparts : ∀ c ∈ argument, isArgumentPart c = true) (rest : List Char) :
    Greedy (constants opening) (fun _ => True) (opening ++ (argument ++ '"' :: ')' :: rest))
      (opening.length + argument.length + 2) := by
  have hopened := Text.greedy_exactly (List.prefix_append opening (argument ++ '"' :: ')' :: rest))
  have hargument : Greedy (Text.one isArgumentPart)∗ (fun c => isArgumentPart c = true)
      ((opening ++ (argument ++ '"' :: ')' :: rest)).drop opening.length) argument.length := by
    have hrun := Text.greedy_star isArgumentPart (argument ++ '"' :: ')' :: rest)
    rw [takeWhile_argument hparts fun _ _ => isArgumentPart_closing] at hrun
    rwa [List.drop_left]
  have hclosing : Greedy (exactly ['"', ')']) (fun _ => False)
      ((opening ++ (argument ++ '"' :: ')' :: rest)).drop (opening.length + argument.length))
      2 := by
    rw [← List.drop_drop, List.drop_left, List.drop_left]
    exact Text.greedy_exactly (List.prefix_append ['"', ')'] rest)
  have hbegins : Text.BeginsWith (exactly ['"', ')'])
      fun c => ¬ (False ∨ isArgumentPart c = true) := by
    refine (Text.beginsWith_exactly '"' [')']).mono ?_
    rintro c rfl
    decide
  exact ((hopened.mul hargument fun _ _ _ => id).mul hclosing hbegins).mono fun _ _ => trivial

end Argument

/-- What a name is followed by where its constant is opened. -/
def opened (name : List Char) : List Char := name ++ ['(', '"']

theorem munchConstant?_eq (name : List Char) (token : String → Token) (rest : List Char) :
    Lexeme.munchConstant? name token rest =
      if (opened name).isPrefixOf rest then
        let munched := Lexeme.munchArgument token (rest.drop (opened name).length)
        some (munched.1, (opened name).length + munched.2)
      else none := rfl

/-- A pattern of constants has a name, in two parts, and makes a token of an argument. Beside names,
the texts of no other pattern begin with the first letter of the name. -/
structure IsConstant (p : Pattern) (c : Char) (name : List Char) (token : String → Token) :
    Prop where
  start : isNameStart c = true
  parts : ∀ d ∈ name, isNamePart d = true
  mem_openings : c :: opened name ∈ openings
  language_eq : p.language = constants (c :: opened name)
  token_eq : ∀ word, p.token? word = some (token (Pattern.argument (c :: opened name) word))
  notFixed : p.isFixed = false
  alone : ∀ r : Pattern, r ≠ p → r ≠ .identifier → r.begins c = false

theorem isConstant_hash : IsConstant .hash 'H' ['A', 'S', 'H'] .hash where
  start := by decide
  parts := List.all_eq_true.1 rfl
  mem_openings := by decide
  language_eq := rfl
  token_eq := fun _ => rfl
  notFixed := rfl
  alone := by
    intro r hr hname
    cases r with
    | hash | identifier => contradiction
    | _ => decide

theorem isConstant_packed : IsConstant .packed 'S' ['T', 'R'] .packed where
  start := by decide
  parts := List.all_eq_true.1 rfl
  mem_openings := by decide
  language_eq := rfl
  token_eq := fun _ => rfl
  notFixed := rfl
  alone := by
    intro r hr hname
    cases r with
    | packed | identifier => contradiction
    | _ => decide

namespace IsConstant

variable {p : Pattern} {c : Char} {name : List Char} {token : String → Token}

/-- Where a constant is opened, the texts of other patterns are no longer than the name. -/
theorem length_le (h : IsConstant p c name token) {r : Pattern} (hr : r ≠ p) {word : List Char}
    (after : List Char) (hword : word ∈ r.language) (hstarts : word <+: c :: opened name ++ after) :
    word.length ≤ name.length + 1 := by
  by_cases hname : r = .identifier
  · subst hname
    have hrun : (opened name ++ after).takeWhile isNamePart = name := by
      rw [opened, List.append_assoc]
      exact Text.takeWhile_run h.parts rfl
    have hle : word.length ≤ 1 + ((opened name ++ after).takeWhile isNamePart).length :=
      (greedy_identifier h.start _).length_le hword hstarts
    rw [hrun] at hle
    omega
  · exact absurd hstarts (Pattern.absent_of_begins (h.alone r hr hname) _ word hword)

theorem absent_fixed (h : IsConstant p c name token) {r : Pattern} (hr : r.isFixed = true)
    (after : List Char) : Absent r.language (c :: opened name ++ after) := by
  refine Pattern.absent_of_begins (h.alone r ?_ ?_) _
  · rintro rfl
    rw [h.notFixed] at hr
    cases hr
  · rintro rfl
    cases hr

variable {argument : List Char}

theorem longest (h : IsConstant p c name token) (hparts : ∀ d ∈ argument, isArgumentPart d = true)
    (rest : List Char) : Longest p (c :: opened name ++ (argument ++ ['"', ')'])) rest where
  mem := by
    rw [h.language_eq, ← List.append_assoc]
    exact Pattern.mem_constants.2 ⟨argument, hparts, rfl⟩
  longest := by
    intro r other hother hstarts
    have hlength : (c :: opened name ++ (argument ++ ['"', ')'])).length =
        (c :: opened name).length + argument.length + 2 := by
      rw [List.length_append, List.length_append, ← Nat.add_assoc]
      rfl
    rw [List.append_assoc] at hstarts
    by_cases hr : r = p
    · subst hr
      rw [h.language_eq] at hother
      rw [List.append_assoc] at hstarts
      rw [hlength]
      exact (greedy_constants hparts rest).length_le hother hstarts
    · have hle := h.length_le hr _ hother hstarts
      have hopened : (c :: opened name).length = name.length + 1 + 2 := by
        rw [opened, List.length_cons, List.length_append]
        rfl
      omega
  preferred := by
    intro r hmem hfixed
    exact absurd (List.prefix_refl _) (h.absent_fixed hfixed _ _ hmem)

/-- A finished constant is a token. -/
theorem step_closed (h : IsConstant p c name token)
    (hparts : ∀ d ∈ argument, isArgumentPart d = true) (rest : List Char) :
    Step (c :: opened name ++ (argument ++ '"' :: ')' :: rest))
      (some ⟨some (token (String.ofList argument)), c :: opened name ++ (argument ++ ['"', ')'])⟩)
      rest := by
  have htext : c :: opened name ++ (argument ++ '"' :: ')' :: rest) =
      c :: opened name ++ (argument ++ ['"', ')']) ++ rest := by
    simp only [List.append_assoc, List.cons_append, List.nil_append]
  have htoken := h.token_eq (c :: opened name ++ (argument ++ ['"', ')']))
  rw [argument_append] at htoken
  rw [← htoken]
  refine .token p _ htext (h.longest hparts rest) ?_
  intro begun left heq hspoiled
  obtain ⟨_, hleft⟩ := hspoiled.eq_of_opening h.mem_openings heq
  rw [← Text.drop_run, takeWhile_argument hparts fun _ _ => isArgumentPart_closing,
    List.drop_left] at hleft
  rw [hleft] at hspoiled
  exact hspoiled.not_closed (List.prefix_append ['"', ')'] rest)

/-- What the scanner takes where a constant is opened is a step. -/
theorem step_munchArgument (h : IsConstant p c name token) (after : List Char) :
    let munched := Lexeme.munchArgument token after
    Step (c :: opened name ++ after) (some ⟨munched.1, c :: opened name ++ after.take munched.2⟩)
      (after.drop munched.2) := by
  intro munched
  obtain ⟨argument, tail, rfl, hparts, htail⟩ : ∃ argument tail, after = argument ++ tail ∧
      (∀ d ∈ argument, isArgumentPart d = true) ∧
      ∀ d rest, tail = d :: rest → isArgumentPart d = false :=
    ⟨after.takeWhile isArgumentPart, after.dropWhile isArgumentPart,
      List.takeWhile_append_dropWhile.symm, List.all_eq_true.1 List.all_takeWhile,
      fun _ _ => Text.head_dropWhile⟩
  by_cases hclosed : ∃ rest, tail = '"' :: ')' :: rest
  · obtain ⟨rest, rfl⟩ := hclosed
    have hmunched : munched = _ := munchArgument_of_closed token hparts rest
    have hword : (argument ++ '"' :: ')' :: rest).take (argument.length + 2) =
        argument ++ ['"', ')'] := List.take_length_add_append 2
    have hrest : (argument ++ '"' :: ')' :: rest).drop (argument.length + 2) = rest :=
      List.drop_length_add_append 2
    rw [hmunched, hword, hrest]
    exact h.step_closed hparts rest
  · have hmunched : munched = _ := munchArgument_of_open token hparts htail
      fun rest heq => hclosed ⟨rest, heq⟩
    have hspoiled : Spoiled (c :: opened name ++ argument) tail := by
      refine ⟨c :: opened name, argument, h.mem_openings, hparts, rfl, htail, ?_⟩
      rintro ⟨rest, rfl⟩
      exact hclosed ⟨rest, rfl⟩
    rw [hmunched, List.take_left, List.drop_left]
    exact .spoiled (c :: opened name ++ argument) (List.append_assoc _ _ _).symm hspoiled

/-- What the scanner takes for a constant is a step. -/
theorem step_munchConstant (h : IsConstant p c name token) {rest : List Char}
    {munched : Lexeme.Munch} (hmunched : Lexeme.munchConstant? name token rest = some munched) :
    Step (c :: rest) (some ⟨munched.1, c :: rest.take munched.2⟩) (rest.drop munched.2) := by
  rw [munchConstant?_eq] at hmunched
  by_cases hstarts : (opened name).isPrefixOf rest = true
  · obtain ⟨after, rfl⟩ := List.isPrefixOf_iff_prefix.1 hstarts
    rw [if_pos hstarts, List.drop_left] at hmunched
    cases hmunched
    rw [List.take_length_add_append, List.drop_length_add_append]
    exact h.step_munchArgument after
  · rw [if_neg hstarts] at hmunched
    cases hmunched

/-- No constant is opened where the scanner takes none. -/
theorem not_opened (h : IsConstant p c name token) {rest : List Char}
    (hnone : Lexeme.munchConstant? name token rest = none) :
    ∀ opening ∈ openings, ¬ opening <+: c :: rest := by
  intro opening hopening hstarts
  obtain ⟨d, tail, rfl, _⟩ := Pattern.exists_eq_cons_of_mem_openings hopening
  have hhead : d = c := (List.cons_prefix_cons.1 hstarts).1
  have heq := Pattern.eq_of_mem_openings _ hopening _ h.mem_openings (congrArg some hhead)
  rw [heq] at hstarts
  have hopened := List.isPrefixOf_iff_prefix.2 (List.cons_prefix_cons.1 hstarts).2
  rw [munchConstant?_eq, if_pos hopened] at hnone
  cases hnone

end IsConstant

end LogicChip.Assembly

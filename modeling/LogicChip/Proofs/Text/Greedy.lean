import Mathlib.Computability.Language

namespace LogicChip.Text

open scoped Computability

variable {l m : Language Char} {p : Char → Bool} {q r : Char → Prop} {text : List Char} {n k : Nat}

/-- The texts of one character of a class. -/
def one (p : Char → Bool) : Language Char := {text | ∃ c, p c = true ∧ text = [c]}

/-- A single text. -/
def exactly (word : List Char) : Language Char := {word}

/-- The texts of a language, and the empty one. -/
def optional (l : Language Char) : Language Char := 1 + l

/-- Texts of one or more characters of a class. -/
def runs (p : Char → Bool) : Language Char := one p * (one p)∗

/-- The characters that texts of a language begin with are all of a class. -/
def BeginsWith (l : Language Char) (q : Char → Prop) : Prop := ∀ c text, c :: text ∈ l → q c

/-- The characters that texts of a language end with are all of a class. -/
def EndsWith (l : Language Char) (q : Char → Prop) : Prop := ∀ text c, text ++ [c] ∈ l → q c

/-- No prefix of a text is in a language. -/
def Absent (l : Language Char) (text : List Char) : Prop := ∀ word ∈ l, ¬ word <+: text

/-- The first characters of a text are its longest prefix in a language, and every shorter one is
followed by a character of a class. -/
structure Greedy (l : Language Char) (q : Char → Prop) (text : List Char) (n : Nat) : Prop where
  mem : text.take n ∈ l
  le : n ≤ text.length
  shorter : ∀ word ∈ l, word <+: text →
    word.length = n ∨ word.length < n ∧ ∃ c, text[word.length]? = some c ∧ q c

theorem mem_star_one {word : List Char} : word ∈ (one p)∗ ↔ ∀ c ∈ word, p c = true := by
  rw [Language.mem_kstar]
  constructor
  · rintro ⟨parts, rfl, hparts⟩ c hc
    obtain ⟨part, hpart, hc⟩ := List.mem_flatten.1 hc
    obtain ⟨d, hd, rfl⟩ := hparts part hpart
    rwa [List.mem_singleton.1 hc]
  · intro hword
    refine ⟨word.map fun c => [c], ?_, ?_⟩
    · rw [← List.flatMap_def, List.flatMap_singleton']
    · intro part hpart
      obtain ⟨c, hc, rfl⟩ := List.mem_map.1 hpart
      exact ⟨c, hword c hc, rfl⟩

theorem mem_runs {word : List Char} :
    word ∈ runs p ↔ word ≠ [] ∧ ∀ c ∈ word, p c = true := by
  constructor
  · intro h
    obtain ⟨_, ⟨c, hc, rfl⟩, rest, hrest, rfl⟩ := Language.mem_mul.1 h
    exact ⟨List.cons_ne_nil c rest, List.forall_mem_cons.2 ⟨hc, mem_star_one.1 hrest⟩⟩
  · rintro ⟨hne, hword⟩
    obtain ⟨c, rest, rfl⟩ := List.exists_cons_of_ne_nil hne
    obtain ⟨hc, hrest⟩ := List.forall_mem_cons.1 hword
    exact Language.append_mem_mul (a := [c]) ⟨c, hc, rfl⟩ (mem_star_one.2 hrest)

namespace Greedy

theorem length_le (h : Greedy l q text n) {word : List Char} (hword : word ∈ l)
    (hstarts : word <+: text) : word.length ≤ n := by
  rcases h.shorter word hword hstarts with heq | ⟨hlt, _⟩
  · exact Nat.le_of_eq heq
  · exact Nat.le_of_lt hlt

theorem mono (h : Greedy l q text n) (hclass : ∀ c, q c → r c) : Greedy l r text n where
  mem := h.mem
  le := h.le
  shorter := by
    intro word hword hstarts
    rcases h.shorter word hword hstarts with heq | ⟨hlt, c, hc, hq⟩
    · exact .inl heq
    · exact .inr ⟨hlt, c, hc, hclass c hq⟩

/-- What remains after a prefix begins with what the rest of a longer one begins with. -/
theorem mul (h : Greedy l q text n) (hnext : Greedy m r (text.drop n) k)
    (hbegins : BeginsWith m fun c => ¬ q c) : Greedy (l * m) (fun c => q c ∨ r c) text (n + k) where
  mem := by
    rw [List.take_add]
    exact Language.append_mem_mul h.mem hnext.mem
  le := by
    have hle := h.le
    have hnextLe := hnext.le
    rw [List.length_drop] at hnextLe
    omega
  shorter := by
    intro word hword hstarts
    obtain ⟨first, hfirst, second, hsecond, rfl⟩ := Language.mem_mul.1 hword
    have hstartsFirst : first <+: text := (List.prefix_append first second).trans hstarts
    obtain ⟨rest, rfl⟩ := hstarts
    rw [List.length_append]
    rcases h.shorter first hfirst hstartsFirst with heq | ⟨hlt, c, hc, hq⟩
    · subst heq
      have hstartsSecond : second <+: (first ++ second ++ rest).drop first.length := by
        rw [List.append_assoc, List.drop_left]
        exact List.prefix_append second rest
      rcases hnext.shorter second hsecond hstartsSecond with heq | ⟨hlt, c, hc, hr⟩
      · exact .inl (by omega)
      · rw [List.getElem?_drop] at hc
        exact .inr ⟨by omega, c, hc, .inr hr⟩
    · -- A shorter first part leaves nothing for the second.
      cases second with
      | nil =>
        rw [List.length_nil, Nat.add_zero]
        exact .inr ⟨by omega, c, hc, .inl hq⟩
      | cons d second =>
        rw [List.append_assoc, List.getElem?_append_right (Nat.le_refl _), Nat.sub_self] at hc
        cases hc
        exact absurd hq (hbegins c second hsecond)

theorem absent_mul (h : Greedy l q text n) (hnext : Absent m (text.drop n))
    (hbegins : BeginsWith m fun c => ¬ q c) (hne : [] ∉ m) : Absent (l * m) text := by
  intro word hword hstarts
  obtain ⟨first, hfirst, second, hsecond, rfl⟩ := Language.mem_mul.1 hword
  have hstartsFirst : first <+: text := (List.prefix_append first second).trans hstarts
  obtain ⟨rest, rfl⟩ := hstarts
  rcases h.shorter first hfirst hstartsFirst with heq | ⟨hlt, c, hc, hq⟩
  · subst heq
    apply hnext second hsecond
    rw [List.append_assoc, List.drop_left]
    exact List.prefix_append second rest
  · cases second with
    | nil => exact hne hsecond
    | cons d second =>
      rw [List.append_assoc, List.getElem?_append_right (Nat.le_refl _), Nat.sub_self] at hc
      cases hc
      exact absurd hq (hbegins c second hsecond)

/-- A language that is there is also there if it may be left out. -/
theorem optional (h : Greedy l q text n) (hpos : 0 < n) (hbegins : BeginsWith l r) :
    Greedy (optional l) (fun c => q c ∨ r c) text n where
  mem := .inr h.mem
  le := h.le
  shorter := by
    intro word hword hstarts
    rcases hword with rfl | hword
    · cases text with
      | nil => exact absurd h.le (by simp; omega)
      | cons c text =>
        obtain ⟨n, rfl⟩ : ∃ k, n = k + 1 := ⟨n - 1, by omega⟩
        exact .inr ⟨hpos, c, rfl, .inr (hbegins c _ h.mem)⟩
    · exact (h.mono fun c => Or.inl).shorter word hword hstarts

end Greedy

namespace Absent

/-- A language that is not there is left out. -/
theorem optional (h : Absent l text) : Greedy (optional l) q text 0 where
  mem := .inl (List.take_zero)
  le := Nat.zero_le _
  shorter := by
    intro word hword hstarts
    rcases hword with rfl | hword
    · exact .inl rfl
    · exact absurd hstarts (h word hword)

theorem mul (h : Absent l text) : Absent (l * m) text := by
  intro word hword hstarts
  obtain ⟨first, hfirst, second, _, rfl⟩ := Language.mem_mul.1 hword
  exact h first hfirst ((List.prefix_append first second).trans hstarts)

end Absent

theorem greedy_one {c : Char} (h : p c = true) (rest : List Char) :
    Greedy (one p) (fun _ => False) (c :: rest) 1 where
  mem := ⟨c, h, rfl⟩
  le := by simp
  shorter := by
    rintro word ⟨d, _, rfl⟩ _
    exact .inl rfl

theorem greedy_exactly {word : List Char} (h : word <+: text) :
    Greedy (exactly word) (fun _ => False) text word.length where
  mem := List.prefix_iff_eq_take.1 h |>.symm
  le := h.length_le
  shorter := by
    rintro other rfl _
    exact .inl rfl

/-- A run of a class is as long as it can be. -/
theorem greedy_star (p : Char → Bool) (text : List Char) :
    Greedy (one p)∗ (fun c => p c = true) text (text.takeWhile p).length where
  mem := by
    rw [← List.prefix_iff_eq_take.1 (List.takeWhile_prefix p), mem_star_one]
    exact List.all_eq_true.1 List.all_takeWhile
  le := (List.takeWhile_prefix p).length_le
  shorter := by
    rintro word hword ⟨rest, rfl⟩
    rw [List.takeWhile_append_of_pos (mem_star_one.1 hword), List.length_append]
    cases rest with
    | nil => exact .inl rfl
    | cons c rest =>
      rw [List.getElem?_append_right (Nat.le_refl _), Nat.sub_self]
      by_cases hc : p c = true
      · rw [List.takeWhile_cons, if_pos hc, List.length_cons]
        exact .inr ⟨by omega, c, rfl, hc⟩
      · rw [List.takeWhile_cons, if_neg hc]
        exact .inl rfl

theorem nil_notMem_one : [] ∉ one p := by
  rintro ⟨c, _, heq⟩
  cases heq

theorem nil_notMem_exactly (c : Char) (word : List Char) : [] ∉ exactly (c :: word) :=
  List.cons_ne_nil c word ∘ Eq.symm

theorem nil_notMem_mul (h : [] ∉ l) : [] ∉ l * m := by
  intro hmem
  obtain ⟨first, hfirst, second, _, heq⟩ := Language.mem_mul.1 hmem
  rw [(List.append_eq_nil_iff.1 heq).1] at hfirst
  exact h hfirst

theorem beginsWith_one (p : Char → Bool) : BeginsWith (one p) fun c => p c = true := by
  rintro c text ⟨d, hd, heq⟩
  cases heq
  exact hd

theorem beginsWith_exactly (c : Char) (word : List Char) :
    BeginsWith (exactly (c :: word)) (· = c) := by
  rintro d text heq
  cases heq
  rfl

theorem BeginsWith.mul (h : BeginsWith l q) (hne : [] ∉ l) : BeginsWith (l * m) q := by
  intro c text hmem
  obtain ⟨first, hfirst, second, _, heq⟩ := Language.mem_mul.1 hmem
  cases first with
  | nil => exact absurd hfirst hne
  | cons d first =>
    cases heq
    exact h c first hfirst

theorem BeginsWith.optional (h : BeginsWith l q) : BeginsWith (optional l) q := by
  rintro c text (heq | hmem)
  · cases heq
  · exact h c text hmem

/-- Nothing matches at a character that no text of a language begins with. -/
theorem BeginsWith.absent (h : BeginsWith l q) (hne : [] ∉ l)
    (hhead : ∀ c rest, text = c :: rest → ¬ q c) : Absent l text := by
  intro word hword hstarts
  cases word with
  | nil => exact hne hword
  | cons c word =>
    obtain ⟨rest, rfl⟩ := hstarts
    exact hhead c (word ++ rest) rfl (h c word hword)

theorem BeginsWith.mono (h : BeginsWith l q) (hclass : ∀ c, q c → r c) : BeginsWith l r :=
  fun c text hmem => hclass c (h c text hmem)

theorem beginsWith_runs (p : Char → Bool) : BeginsWith (runs p) fun c => p c = true :=
  (beginsWith_one p).mul nil_notMem_one

theorem nil_notMem_runs : [] ∉ runs p := nil_notMem_mul nil_notMem_one

namespace EndsWith

/-- A product ends as its second part does, and as its first part if the second may be empty. -/
theorem mul (h : EndsWith m q) (hempty : [] ∈ m → EndsWith l q) : EndsWith (l * m) q := by
  intro text c hmem
  obtain ⟨first, hfirst, second, hsecond, heq⟩ := Language.mem_mul.1 hmem
  rcases List.eq_nil_or_concat' second with rfl | ⟨body, d, rfl⟩
  · rw [List.append_nil] at heq
    exact hempty hsecond text c (heq ▸ hfirst)
  · rw [← List.append_assoc] at heq
    obtain ⟨_, hlast⟩ := List.append_inj' heq rfl
    cases hlast
    exact h body c hsecond

theorem add (h : EndsWith l q) (hother : EndsWith m q) : EndsWith (l + m) q := by
  rintro text c (hmem | hmem)
  · exact h text c hmem
  · exact hother text c hmem

theorem optional (h : EndsWith l q) : EndsWith (optional l) q := by
  rintro text c (heq | hmem)
  · exact absurd heq (List.append_ne_nil_of_right_ne_nil text (List.cons_ne_nil c []))
  · exact h text c hmem

end EndsWith

theorem endsWith_star (h : ∀ c, p c = true → q c) : EndsWith (one p)∗ q := fun _ c hmem =>
  h c (mem_star_one.1 hmem c (List.mem_append_right _ List.mem_cons_self))

theorem endsWith_one (h : ∀ c, p c = true → q c) : EndsWith (one p) q := by
  rintro text c ⟨d, hd, heq⟩
  obtain ⟨_, hlast⟩ := List.append_inj' (heq.trans (List.nil_append [d]).symm) rfl
  cases hlast
  exact h c hd

theorem endsWith_exactly (word : List Char) {c : Char} (h : q c) :
    EndsWith (exactly (word ++ [c])) q := by
  rintro text d heq
  obtain ⟨_, hlast⟩ := List.append_inj' heq rfl
  cases hlast
  exact h

theorem endsWith_runs (h : ∀ c, p c = true → q c) : EndsWith (runs p) q :=
  (endsWith_star h).mul fun _ => endsWith_one h

theorem greedy_runs (h : text.takeWhile p ≠ []) :
    Greedy (runs p) (fun c => p c = true) text (text.takeWhile p).length := by
  cases text with
  | nil => exact absurd rfl h
  | cons c rest =>
    by_cases hc : p c = true
    · have hrun := (greedy_one hc rest).mul (greedy_star p rest) fun _ _ _ => id
      rw [List.takeWhile_cons, if_pos hc, List.length_cons, Nat.add_comm]
      exact hrun.mono fun _ h => h.resolve_left id
    · rw [List.takeWhile_cons, if_neg hc] at h
      exact absurd rfl h

theorem absent_runs (h : text.takeWhile p = []) : Absent (runs p) text := by
  refine (beginsWith_runs p).absent nil_notMem_runs ?_
  rintro c rest rfl hc
  rw [List.takeWhile_cons, if_pos hc] at h
  cases h

theorem take_run (p : Char → Bool) (text : List Char) :
    text.take (text.takeWhile p).length = text.takeWhile p :=
  (List.prefix_iff_eq_take.1 (List.takeWhile_prefix p)).symm

theorem drop_run (p : Char → Bool) (text : List Char) :
    text.drop (text.takeWhile p).length = text.dropWhile p := by
  have hsplit := List.takeWhile_append_dropWhile (p := p) (l := text)
  calc text.drop (text.takeWhile p).length
      = (text.takeWhile p ++ text.dropWhile p).drop (text.takeWhile p).length := by rw [hsplit]
    _ = text.dropWhile p := List.drop_left

theorem takeWhile_eq_nil (h : ∀ c rest, text = c :: rest → p c = false) :
    text.takeWhile p = [] := by
  cases text with
  | nil => rfl
  | cons c rest => rw [List.takeWhile_cons, h c rest rfl, if_neg Bool.false_ne_true]

/-- What is left after a run does not go on with it. -/
theorem head_dropWhile {c : Char} {rest : List Char} (h : text.dropWhile p = c :: rest) :
    p c = false := by
  have hhead := List.head?_dropWhile_not p text
  rw [h] at hhead
  exact hhead

end LogicChip.Text

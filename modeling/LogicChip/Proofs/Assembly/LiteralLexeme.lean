import LogicChip.Proofs.Assembly.Tokenization

namespace LogicChip.Assembly

open Text (Greedy Absent)
open Pattern (marked)

/-- The only pattern that is there gives the longest match. -/
theorem Longest.of_greedy {p : Pattern} {q : Char → Prop} {text : List Char} {n : Nat}
    (h : Greedy p.language q text n) (hothers : ∀ r : Pattern, r ≠ p → Absent r.language text) :
    Longest p (text.take n) (text.drop n) where
  mem := h.mem
  longest := by
    intro r other hother hstarts
    rw [List.take_append_drop] at hstarts
    rw [List.length_take, Nat.min_eq_left h.le]
    by_cases hr : r = p
    · subst hr
      exact h.length_le hother hstarts
    · exact absurd hstarts (hothers r hr other hother)
  preferred := by
    intro r hmem hfixed
    by_cases hr : r = p
    · rwa [← hr]
    · exact absurd (List.take_prefix n text) (hothers r hr _ hmem)

/-- A token of the only pattern that is there. Where no names are, no constant is begun. -/
theorem Step.of_greedy {p : Pattern} {q : Char → Prop} {c : Char} {rest : List Char} {n : Nat}
    (h : Greedy p.language q (c :: rest) (n + 1)) (hname : p ≠ .identifier)
    (hothers : ∀ r : Pattern, r ≠ p → Absent r.language (c :: rest)) :
    Step (c :: rest) (some ⟨p.token? (c :: rest.take n), c :: rest.take n⟩) (rest.drop n) := by
  refine .token p (c :: rest.take n) (List.take_append_drop (n + 1) (c :: rest)).symm
    (Longest.of_greedy h hothers) ?_
  intro begun after htext hspoiled
  have habsent := hothers .identifier hname.symm
  rw [htext] at habsent
  exact hspoiled.not_absent habsent

/-- A literal after its mark is a token if the digits are a number, and an error of as many
characters if not. A mark by itself is a stray character. -/
theorem step_marked {p : Pattern} {mark : Char} {isRadixDigit : Char → Bool} {radix : Nat}
    {token : UInt64 → Token} (rest : List Char) (hlanguage : p.language = marked mark isRadixDigit)
    (htoken : ∀ word, p.token? word = (Pattern.integer? radix word.tail).map token)
    (hname : p ≠ .identifier) (hbegins : p.begins mark = true)
    (hothers : ∀ r : Pattern, r ≠ p → r.begins mark = false) :
    let munched := Lexeme.munchInteger radix isRadixDigit token rest
    Step (mark :: rest) (some ⟨munched.1, mark :: rest.take munched.2⟩) (rest.drop munched.2) := by
  intro munched
  have habsent : ∀ r : Pattern, r ≠ p → Absent r.language (mark :: rest) := fun r hr =>
    Pattern.absent_of_begins (hothers r hr) rest
  have hmark := Text.greedy_exactly (List.prefix_append [mark] rest)
  have hmunched : munched = ((Lexeme.integer? radix
      (rest.takeWhile fun c => isRadixDigit c || c = '_')).map token,
      (rest.takeWhile fun c => isRadixDigit c || c = '_').length) := rfl
  by_cases hempty : (rest.takeWhile fun c => isRadixDigit c || c = '_') = []
  · have hnone : munched = (none, 0) := by
      rw [hmunched, hempty]
      rfl
    obtain ⟨hblank, hcomment⟩ := begins_apart hbegins
    rw [hnone]
    refine .stray mark rfl hblank hcomment ?_
    intro r
    by_cases hr : r = p
    · rw [hr, hlanguage]
      exact hmark.absent_mul (Text.absent_runs hempty) (fun _ _ _ => id) Text.nil_notMem_runs
    · exact habsent r hr
  · have hgreedy : Greedy p.language (fun c => False ∨ (isRadixDigit c || c = '_') = true)
        (mark :: rest) (1 + (rest.takeWhile fun c => isRadixDigit c || c = '_').length) := by
      rw [hlanguage]
      exact hmark.mul (Text.greedy_runs hempty) fun _ _ _ => id
    rw [Nat.add_comm] at hgreedy
    have hstep := Step.of_greedy hgreedy hname habsent
    rw [htoken, List.tail_cons, Text.take_run, ← Pattern.integer?_eq] at hstep
    rw [hmunched, Text.take_run]
    exact hstep

theorem begins_eq_false_of_number {c : Char} (h : Pattern.number.begins c = true) {r : Pattern}
    (hnumber : r ≠ .number) (hinfinity : r ≠ .infinity) : r.begins c = false := by
  have hne : ∀ d, Pattern.number.begins d = false → c ≠ d := fun d hd =>
    Lexeme.ne_of_class (p := Pattern.number.begins) h hd
  cases r with
  | identifier =>
    rcases Bool.or_eq_true_iff.1 h with hdigit | hminus
    · exact Lexeme.isNameStart_of_isDigit hdigit
    · rw [of_decide_eq_true hminus]
      decide
  | number => exact absurd rfl hnumber
  | hex => exact decide_eq_false (hne '$' (by decide))
  | binary => exact decide_eq_false (hne '%' (by decide))
  | nan => simp [Pattern.begins, hne 'N' (by decide), hne 'n' (by decide)]
  | infinity => exact absurd rfl hinfinity
  | hash => exact decide_eq_false (hne 'H' (by decide))
  | packed => exact decide_eq_false (hne 'S' (by decide))

/-- A number is taken where there is one, and a character by itself where there is none. -/
theorem step_munchNumber {c : Char} (rest : List Char) (hbegins : Pattern.number.begins c = true)
    (hinfinity : Absent Pattern.infinity.language (c :: rest)) :
    let munched := Lexeme.munchNumber c rest
    Step (c :: rest) (some ⟨munched.1, c :: rest.take munched.2⟩) (rest.drop munched.2) := by
  intro munched
  have hothers : ∀ r : Pattern, r ≠ .number → Absent r.language (c :: rest) := by
    intro r hr
    by_cases hr' : r = .infinity
    · rwa [hr']
    · exact Pattern.absent_of_begins (begins_eq_false_of_number hbegins hr hr') rest
  have hmunched : munched = Lexeme.munchNumber c rest := rfl
  unfold Lexeme.munchNumber at hmunched
  cases hscan : Decimal.scan? (c :: rest) with
  | none =>
    rw [hscan] at hmunched
    obtain ⟨hblank, hcomment⟩ := begins_apart hbegins
    rw [hmunched]
    refine .stray c rfl hblank hcomment ?_
    intro r
    by_cases hr : r = .number
    · rw [hr]
      exact Decimal.absent_of_scan? hscan
    · exact hothers r hr
  | some found =>
    obtain ⟨d, n⟩ := found
    rw [hscan] at hmunched
    obtain ⟨hgreedy, hvalue⟩ := Decimal.greedy_of_scan? hscan
    obtain ⟨k, rfl⟩ : ∃ k, n = k + 1 := by
      cases n with
      | zero => exact absurd hgreedy.mem Decimal.nil_notMem_literals
      | succ k => exact ⟨k, rfl⟩
    have hstep := Step.of_greedy (p := .number) hgreedy (by decide) hothers
    have htoken : Pattern.number.token? (c :: rest.take k) = some (.number d.value) :=
      congrArg (fun d : Decimal => some (Token.number d.value)) hvalue
    rw [htoken] at hstep
    rw [hmunched]
    exact hstep

/-- Infinity with a minus sign is taken where there is one. It is no number. -/
theorem step_negativeInfinity (rest : List Char) :
    Step ('-' :: 'i' :: 'n' :: 'f' :: rest) (some ⟨some (.infinity true), ['-', 'i', 'n', 'f']⟩)
      rest := by
  have hgreedy : Greedy Pattern.infinity.language (fun _ => False)
      ('-' :: 'i' :: 'n' :: 'f' :: rest) (3 + 1) := by
    refine ⟨.inr rfl, by simp, ?_⟩
    rintro word (rfl | rfl) hstarts
    · exact absurd (List.cons_prefix_cons.1 hstarts).1 (by decide)
    · exact .inl rfl
  refine Step.of_greedy hgreedy (by decide) ?_
  intro r hr
  by_cases hnumber : r = .number
  · rw [hnumber]
    exact Decimal.absent_of_scan? rfl
  · exact Pattern.absent_of_begins (begins_eq_false_of_number rfl hnumber hr) _

end LogicChip.Assembly

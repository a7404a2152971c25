import LogicChip.Proofs.Text.Greedy

namespace LogicChip.Text

open scoped Computability

variable {l m : Language Char} {p : Char → Bool} {q r : Char → Prop}

/-- The characters in the texts of a language are all of a class. -/
def Over (l : Language Char) (q : Char → Prop) : Prop := ∀ text ∈ l, ∀ c ∈ text, q c

namespace Over

theorem mono (h : Over l q) (hclass : ∀ c, q c → r c) : Over l r :=
  fun text hmem c hc => hclass c (h text hmem c hc)

theorem mul (h : Over l q) (hother : Over m q) : Over (l * m) q := by
  intro text hmem c hc
  obtain ⟨first, hfirst, second, hsecond, rfl⟩ := Language.mem_mul.1 hmem
  rcases List.mem_append.1 hc with hc | hc
  · exact h first hfirst c hc
  · exact hother second hsecond c hc

theorem add (h : Over l q) (hother : Over m q) : Over (l + m) q := by
  rintro text (hmem | hmem)
  · exact h text hmem
  · exact hother text hmem

theorem optional (h : Over l q) : Over (optional l) q := by
  rintro text (rfl | hmem) c hc
  · exact absurd hc List.not_mem_nil
  · exact h text hmem c hc

end Over

theorem over_one (h : ∀ c, p c = true → q c) : Over (one p) q := by
  rintro text ⟨d, hd, rfl⟩ c hc
  rw [List.mem_singleton.1 hc]
  exact h d hd

theorem over_star (h : ∀ c, p c = true → q c) : Over (one p)∗ q :=
  fun _ hmem c hc => h c (mem_star_one.1 hmem c hc)

theorem over_runs (h : ∀ c, p c = true → q c) : Over (runs p) q := (over_one h).mul (over_star h)

theorem over_exactly {word : List Char} (h : ∀ c ∈ word, q c) : Over (exactly word) q := by
  rintro text rfl
  exact h

end LogicChip.Text

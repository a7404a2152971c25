import LogicChip.Assembly.Program

namespace LogicChip.Assembly

/-- Every text is a single line without a line feed, or goes on after one with another text. -/
@[elab_as_elim]
theorem line_induction {motive : List Char → Prop} (last : ∀ line, '\n' ∉ line → motive line)
    (ended : ∀ line rest, '\n' ∉ line → motive rest → motive (line ++ '\n' :: rest))
    (text : List Char) : motive text := by
  have hline : '\n' ∉ text.takeWhile (· ≠ '\n') := fun hmem =>
    absurd (List.all_eq_true.1 List.all_takeWhile _ hmem) (by decide)
  have hsplit := List.takeWhile_append_dropWhile (p := (· ≠ '\n')) (l := text)
  cases hrest : text.dropWhile (· ≠ '\n') with
  | nil =>
    rw [hrest, List.append_nil] at hsplit
    exact last text (hsplit ▸ hline)
  | cons c rest =>
    have hfeed : c = '\n' := by
      have hhead := List.head?_dropWhile_not (· ≠ '\n') text
      rw [hrest] at hhead
      simpa using hhead
    have hshorter : rest.length < text.length := length_lt_of_dropWhile hrest
    rw [← hsplit, hrest, hfeed]
    exact ended _ rest hline (line_induction last ended rest)
termination_by text.length

theorem takeWhile_line {line : List Char} (h : '\n' ∉ line) (rest : List Char) :
    (line ++ rest).takeWhile (· ≠ '\n') = line ++ rest.takeWhile (· ≠ '\n') :=
  List.takeWhile_append_of_pos fun _ hc => decide_eq_true fun heq => h (heq ▸ hc)

theorem dropWhile_line {line : List Char} (h : '\n' ∉ line) (rest : List Char) :
    (line ++ rest).dropWhile (· ≠ '\n') = rest.dropWhile (· ≠ '\n') :=
  List.dropWhile_append_of_pos fun _ hc => decide_eq_true fun heq => h (heq ▸ hc)

theorem lines_nil : lines [] = [] := by
  rw [lines]
  rfl

/-- The last line keeps a carriage return. -/
theorem lines_last {line : List Char} (h : '\n' ∉ line) (hne : line ≠ []) :
    lines line = [line] := by
  have hline := takeWhile_line h []
  have hafter := dropWhile_line h []
  rw [List.append_nil, List.takeWhile_nil, List.append_nil] at hline
  rw [List.append_nil, List.dropWhile_nil] at hafter
  have hnonempty : line.isEmpty = false := List.isEmpty_eq_false_iff.2 hne
  rw [lines]
  split
  · rw [hline, hnonempty, if_neg Bool.false_ne_true]
  · rename_i heq
    rw [hafter] at heq
    cases heq

theorem lines_ended {line : List Char} (h : '\n' ∉ line) (rest : List Char) :
    lines (line ++ '\n' :: rest) = dropReturn line :: lines rest := by
  have hline := takeWhile_line h ('\n' :: rest)
  have hafter := dropWhile_line h ('\n' :: rest)
  rw [List.takeWhile_cons, if_neg (by decide), List.append_nil] at hline
  rw [List.dropWhile_cons, if_neg (by decide)] at hafter
  rw [lines]
  split
  · rename_i heq
    rw [hafter] at heq
    cases heq
  · rename_i heq
    rw [hafter] at heq
    cases heq
    rw [hline]

/-- The lines before a line feed do not depend on what follows it. -/
theorem lines_append (text rest : List Char) :
    lines (text ++ '\n' :: rest) = lines (text ++ ['\n']) ++ lines rest := by
  induction text using line_induction with
  | last line h =>
    rw [lines_ended h, lines_ended h, lines_nil]
    rfl
  | ended line tail h ih =>
    rw [List.append_assoc, List.append_assoc, List.cons_append, List.cons_append, lines_ended h,
      lines_ended h, ih]
    rfl

/-- A text has one line more than it has line feeds if another line feed follows it. -/
theorem length_lines_ended (text : List Char) :
    (lines (text ++ ['\n'])).length = text.count '\n' + 1 := by
  induction text using line_induction with
  | last line h =>
    rw [lines_ended h, lines_nil, List.count_eq_zero_of_not_mem h]
    rfl
  | ended line tail h ih =>
    rw [List.append_assoc, List.cons_append, lines_ended h, List.length_cons, ih, List.count_append,
      List.count_cons_self, List.count_eq_zero_of_not_mem h, Nat.zero_add]

theorem assembleLines_cons_ok {line : List Char} {statement? : Option Instruction}
    (h : statement line = .ok statement?) (number : Nat) (rest : List (List Char)) :
    assembleLines number (line :: rest) =
      (assembleLines (number + 1) rest).map (statement?.toList ++ ·) := by
  rw [assembleLines, h]

theorem assembleLines_cons_error {line : List Char} {problem : Problem}
    (h : statement line = .error problem) (number : Nat) (rest : List (List Char)) :
    assembleLines number (line :: rest) = .error ⟨number, problem⟩ := by
  rw [assembleLines, h]

end LogicChip.Assembly

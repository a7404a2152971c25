import LogicChip.Proofs.Assembly.InstructionText
import LogicChip.Proofs.Assembly.Lines
import LogicChip.Proofs.Assembly.TrailingReturn

namespace LogicChip.Assembly

/-- An error of lines that come after a number of others. -/
def Error.after (number : Nat) (error : Error) : Error :=
  { error with line := error.line + number }

theorem assembleLines_append (first second : List (List Char)) (number : Nat) :
    assembleLines number (first ++ second) = (do
      let program ← assembleLines number first
      (assembleLines (number + first.length) second).map (program ++ ·)) := by
  induction first generalizing number with
  | nil =>
    cases hsecond : assembleLines number second with
    | error e => exact hsecond
    | ok program => exact hsecond
  | cons line rest ih =>
    rw [List.cons_append]
    cases hline : statement line with
    | error problem =>
      rw [assembleLines_cons_error hline, assembleLines_cons_error hline]
      rfl
    | ok statement? =>
      have hnumber : number + (line :: rest).length = number + 1 + rest.length := by
        rw [List.length_cons]
        omega
      rw [assembleLines_cons_ok hline, assembleLines_cons_ok hline, ih, hnumber]
      cases assembleLines (number + 1) rest with
      | error e => rfl
      | ok program =>
        cases assembleLines (number + 1 + rest.length) second with
        | error e => rfl
        | ok others => exact congrArg Except.ok (List.append_assoc _ _ _).symm

/-- Only errors tell with what number lines begin. -/
theorem assembleLines_add (lines : List (List Char)) (number before : Nat) :
    assembleLines (number + before) lines =
      (assembleLines number lines).mapError (Error.after before) := by
  induction lines generalizing number with
  | nil => rfl
  | cons line rest ih =>
    cases hline : statement line with
    | error problem =>
      rw [assembleLines_cons_error hline, assembleLines_cons_error hline]
      rfl
    | ok statement? =>
      rw [assembleLines_cons_ok hline, assembleLines_cons_ok hline, Nat.add_right_comm, ih]
      cases assembleLines (number + 1) rest with
      | error e => rfl
      | ok program => rfl

theorem assembleLines_nil_line (number : Nat) : assembleLines number [[]] = .ok [] := by
  have hempty : statement [] = .ok none := by
    rw [statement, Lexeme.ofText]
    rfl
  rw [assembleLines_cons_ok hempty]
  rfl

/-- A carriage return at the end of its only line does not show in a program. -/
theorem assembleLines_of_append_return {line : List Char} {number : Nat}
    {program : List Instruction} (h : assembleLines number [line ++ ['\r']] = .ok program) :
    assembleLines number [line] = .ok program := by
  cases hline : statement (line ++ ['\r']) with
  | error problem =>
    rw [assembleLines_cons_error hline] at h
    cases h
  | ok statement? =>
    rw [assembleLines_cons_ok hline] at h
    rw [assembleLines_cons_ok (statement_of_append_return hline), h]

/-- A line feed at the end of a text takes a carriage return before it out of the last line. This
shows only if there is one and the text is no program. -/
theorem assembleLines_ended {text : List Char} {number : Nat}
    (h : text.getLast? ≠ some '\r' ∨ ∃ program, assembleLines number (lines text) = .ok program) :
    assembleLines number (lines (text ++ ['\n'])) = assembleLines number (lines text) := by
  induction text using line_induction generalizing number with
  | last line hline =>
    rw [lines_ended hline, lines_nil]
    by_cases hempty : line = []
    · rw [hempty, lines_nil]
      exact assembleLines_nil_line number
    rw [lines_last hline hempty] at h ⊢
    by_cases hreturn : line.getLast? = some '\r'
    · obtain ⟨program, hprogram⟩ := h.resolve_left (not_not_intro hreturn)
      obtain ⟨body, rfl⟩ := List.getLast?_eq_some_iff.1 hreturn
      rw [dropReturn, if_pos hreturn, List.dropLast_concat, hprogram]
      exact assembleLines_of_append_return hprogram
    · rw [dropReturn, if_neg hreturn]
  | ended line rest hline ih =>
    rw [List.append_assoc, List.cons_append, lines_ended hline, lines_ended hline]
    rw [lines_ended hline] at h
    cases hstatement : statement (dropReturn line) with
    | error problem =>
      rw [assembleLines_cons_error hstatement, assembleLines_cons_error hstatement]
    | ok statement? =>
      rw [assembleLines_cons_ok hstatement] at h
      rw [assembleLines_cons_ok hstatement, assembleLines_cons_ok hstatement, ih (h.imp ?_ ?_)]
      · intro hlast hrest
        apply hlast
        rw [List.getLast?_append, List.getLast?_cons, hrest]
        rfl
      · rintro ⟨program, hprogram⟩
        cases hrest : assembleLines (number + 1) (lines rest) with
        | error e =>
          rw [hrest] at hprogram
          cases hprogram
        | ok others => exact ⟨others, rfl⟩

/-- Two texts with a line feed between them. A carriage return before it could be a part of what is
wrong with the first text. -/
theorem assemble_join {first second : String}
    (h : first.toList.getLast? ≠ some '\r' ∨ ∃ program, assemble first = .ok program) :
    assemble (first ++ "\n" ++ second) = (do
      let program ← assemble first
      ((assemble second).mapError (Error.after (first.toList.count '\n' + 1))).map
        (program ++ ·)) := by
  have hsource : (first ++ "\n" ++ second).toList = first.toList ++ '\n' :: second.toList := by
    rw [String.toList_append, String.toList_append, List.append_assoc]
    rfl
  rw [assemble, hsource, lines_append, assembleLines_append, assembleLines_ended h,
    length_lines_ended, assembleLines_add]
  rfl

/-- Programs are put together by lines. Two programs with a line feed between them are one program;
after a program, an error of a text is found as many lines later as the program has; and an error
stays whatever follows its text, if this does not end with a carriage return. -/
theorem assemble_append_lines (first second : String) :
    let before := first.toList.count '\n' + 1
    (∀ program others, assemble first = .ok program → assemble second = .ok others →
      assemble (first ++ "\n" ++ second) = .ok (program ++ others)) ∧
    (∀ program line problem, assemble first = .ok program →
      assemble second = .error ⟨line, problem⟩ →
      assemble (first ++ "\n" ++ second) = .error ⟨line + before, problem⟩) ∧
    (∀ error, assemble first = .error error → first.toList.getLast? ≠ some '\r' →
      assemble (first ++ "\n" ++ second) = .error error) := by
  intro before
  refine ⟨?_, ?_, ?_⟩
  · intro program others hfirst hsecond
    rw [assemble_join (.inr ⟨program, hfirst⟩), hfirst, hsecond]
    rfl
  · intro program line problem hfirst hsecond
    rw [assemble_join (.inr ⟨program, hfirst⟩), hfirst, hsecond]
    rfl
  · intro error hfirst hlast
    rw [assemble_join (.inl hlast), hfirst]
    rfl

/-- A line of comment counts where an error is told. -/
theorem assemble_append_lines_around_comment :
    let draw : Instruction := ⟨.rand, Vector.ofFn fun i => [].getD i 0⟩
    let problem := Problem.unexpectedText ['$']
    assemble "rand" = .ok [draw] ∧ assemble "# 1\n$" = .error ⟨2, problem⟩ ∧
      assemble ("rand" ++ "\n" ++ "# 1\n$") = .error ⟨3, problem⟩ := by
  intro draw problem
  have hfirst : assemble "rand" = .ok [draw] := by
    have htext : "rand".toList = draw.text := by decide
    have hmade : Instruction.ofOperands .rand [] = .ok draw := rfl
    have hline : lines draw.text = [draw.text] := lines_last (by decide) (by decide)
    rw [assemble, htext, hline, assembleLines_cons_ok (statement_text hmade)]
    rfl
  have hsecond : assemble "# 1\n$" = .error ⟨2, problem⟩ := by cbv
  obtain ⟨_, hlater, _⟩ := assemble_append_lines "rand" "# 1\n$"
  exact ⟨hfirst, hsecond, hlater [draw] 2 problem hfirst hsecond⟩

/-- A carriage return is a part of a constant that is not finished, unless a line feed follows. -/
example :
    assemble "STR(\"a\r" = .error ⟨1, .unexpectedText ("STR(\"a".toList ++ ['\r'])⟩ ∧
      assemble ("STR(\"a\r" ++ "\n" ++ "rand") = .error ⟨1, .unexpectedText "STR(\"a".toList⟩ := by
  constructor
  · cbv
  · cbv

end LogicChip.Assembly

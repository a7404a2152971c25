import LogicChip.Assembly.Statement

namespace LogicChip.Assembly

/-- A line without the carriage return at its end. -/
def dropReturn (line : List Char) : List Char :=
  if line.getLast? = some '\r' then line.dropLast else line

theorem length_lt_of_dropWhile {p : Char → Bool} {text rest : List Char} {c : Char}
    (h : text.dropWhile p = c :: rest) : rest.length < text.length := by
  have : (text.dropWhile p).length ≤ text.length := (List.dropWhile_sublist p).length_le
  rw [h, List.length_cons] at this
  omega

/-- The lines of a text. A line feed ends a line, along with one carriage return before it. What
follows the last line feed is a line only if it is not empty, and it keeps a carriage return. -/
def lines (text : List Char) : List (List Char) :=
  let line := text.takeWhile (· ≠ '\n')
  match h : text.dropWhile (· ≠ '\n') with
  | [] => if line.isEmpty then [] else [line]
  | _ :: rest =>
    have : rest.length < text.length := length_lt_of_dropWhile h
    dropReturn line :: lines rest
termination_by text.length

/-- The instructions of lines that are numbered from the given number on. -/
def assembleLines : Nat → List (List Char) → Except Error (List Instruction)
  | _, [] => .ok []
  | number, line :: rest =>
    match statement line with
    | .error problem => .error ⟨number, problem⟩
    | .ok statement? => (assembleLines (number + 1) rest).map (statement?.toList ++ ·)

/-- The instructions of a program, or the first error in it. -/
def assemble (source : String) : Except Error (List Instruction) :=
  assembleLines 1 (lines source.toList)

end LogicChip.Assembly

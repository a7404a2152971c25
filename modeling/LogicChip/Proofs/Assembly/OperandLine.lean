import LogicChip.Proofs.Assembly.Grammar
import LogicChip.Proofs.Assembly.ProgramText
import LogicChip.Proofs.Assembly.Spacing

namespace LogicChip.Assembly

/-- The text is a whole lexeme with the value. -/
def IsOperand (text : List Char) (x : Binary64) : Prop :=
  ∃ token : Token, Lexeme.IsWhole ⟨some token, text⟩ ∧ token.Denotes x

/-- A mnemonic, and the texts of operands, each after a space. -/
def line (op : Opcode) (operands : List (List Char)) : List Char :=
  op.mnemonic.toList ++ operands.flatMap (' ' :: ·)

namespace Lexeme

/-- The only whole lexeme that holds a line feed is the one of a line feed by itself. -/
theorem IsWhole.eq_of_feed_mem {lexeme : Lexeme} (h : lexeme.IsWhole)
    (hfeed : '\n' ∈ lexeme.text) : lexeme = ⟨none, ['\n']⟩ := by
  obtain ⟨before, after, htext⟩ := List.append_of_mem hfeed
  have halone := h [] apart_nil
  rw [List.append_nil, htext, ofText_append_feed, ofText] at halone
  have hmem : (⟨none, ['\n']⟩ : Lexeme) ∈ [lexeme] := by
    rw [← halone]
    exact List.mem_append_right _ List.mem_cons_self
  exact (List.mem_singleton.1 hmem).symm

/-- The mnemonic of an operation. -/
def ofOpcode (op : Opcode) : Lexeme := ⟨some (.identifier op.mnemonic), op.mnemonic.toList⟩

theorem names_ofOpcode (op : Opcode) : (ofOpcode op).Names op := .identifier _ rfl

theorem isWhole_ofOpcode (op : Opcode) : (ofOpcode op).IsWhole := by
  have halone : ofText (op.mnemonic.toList ++ []) = ofOpcode op :: ofText [] :=
    (lexes_mnemonic op).ofText trivial
  obtain ⟨p, hforms⟩ := (tokenizes_ofText _).exists_forms (ofOpcode op)
    (halone ▸ List.mem_cons_self) (Option.some_ne_none _)
  exact hforms.isWhole

end Lexeme

variable {op : Opcode} {texts : List (List Char)} {values : List Binary64}

theorem IsOperand.feed_notMem {text : List Char} {x : Binary64} (h : IsOperand text x) :
    '\n' ∉ text := by
  obtain ⟨token, hwhole, _⟩ := h
  intro hfeed
  cases hwhole.eq_of_feed_mem hfeed

theorem exists_lexemes (h : List.Forall₂ IsOperand texts values) : ∃ lexemes : List Lexeme,
    lexemes.map Lexeme.text = texts ∧ (∀ lexeme ∈ lexemes, lexeme.IsWhole) ∧
      List.Forall₂ Lexeme.Denotes lexemes values := by
  induction h with
  | nil => exact ⟨[], rfl, by simp, .nil⟩
  | @cons text x _ _ hfirst _ ih =>
    obtain ⟨token, hwhole, hvalue⟩ := hfirst
    obtain ⟨lexemes, rfl, hwholes, hvalues⟩ := ih
    exact ⟨⟨some token, text⟩ :: lexemes, rfl, List.forall_mem_cons.2 ⟨hwhole, hwholes⟩,
      .cons (.token text hvalue) hvalues⟩

/-- The lexemes of a line are its mnemonic, its operands, and those of what stands behind. -/
theorem ofText_line (op : Opcode) {lexemes : List Lexeme}
    (hwhole : ∀ lexeme ∈ lexemes, lexeme.IsWhole) {rest : List Char} (hrest : Apart rest) :
    Lexeme.ofText (line op (lexemes.map Lexeme.text) ++ rest) =
      Lexeme.ofOpcode op :: (lexemes ++ Lexeme.ofText rest) := by
  have hline : line op (lexemes.map Lexeme.text) =
      joined (([], Lexeme.ofOpcode op) :: lexemes.map (Prod.mk [' '])) := by
    simp [line, joined, Lexeme.ofOpcode, List.flatMap_map]
  have hlexemes : (([], Lexeme.ofOpcode op) :: lexemes.map (Prod.mk [' '])).map Prod.snd =
      Lexeme.ofOpcode op :: lexemes := by simp
  rw [hline, Layout.ofText_joined _ _ _ hrest, hlexemes, List.cons_append]
  · simpa [Lexeme.isWhole_ofOpcode] using hwhole
  · simp [Lexeme.isBlank]
  · simp

/-- As many operands as the operation takes make an instruction of their values. -/
theorem statementOn_line (number : Nat) (hoperands : List.Forall₂ IsOperand texts values)
    (hcount : values.length = op.arity) :
    ∃ instruction : Instruction, instruction.IsMadeOf op values ∧
      statementOn number (Lexeme.ofText (line op texts)) = .ok (some instruction) := by
  obtain ⟨lexemes, rfl, hwhole, hvalues⟩ := exists_lexemes hoperands
  obtain ⟨instruction, _, hinstruction⟩ := Instruction.exists_isMadeOf hcount
  have hline := ofText_line op hwhole apart_nil
  rw [List.append_nil, Lexeme.ofText, List.append_nil] at hline
  refine ⟨instruction, hinstruction, ?_⟩
  rw [hline]
  exact (Reads.instruction (Lexeme.names_ofOpcode op) hvalues
    (hvalues.length_eq.trans hcount) hinstruction).statementOn_eq

/-- A lexeme that is refused after operands is the error of the line, whatever stands behind it. -/
theorem statementOn_line_of_refused (number : Nat) {lexeme : Lexeme} {rest : List Char}
    {problem : Problem} (hoperands : List.Forall₂ IsOperand texts values)
    (hlexeme : Lexeme.ofText (lexeme.text ++ rest) = lexeme :: Lexeme.ofText rest)
    (hrefused : lexeme.Refused problem) :
    statementOn number (Lexeme.ofText (line op (texts ++ [lexeme.text]) ++ rest)) =
      .error ⟨number, problem⟩ := by
  obtain ⟨lexemes, rfl, hwhole, hvalues⟩ := exists_lexemes hoperands
  have hspace : Apart (' ' :: (lexeme.text ++ rest)) := by
    rintro _ _ ⟨rfl, rfl⟩
    decide
  have hline : line op (lexemes.map Lexeme.text ++ [lexeme.text]) ++ rest =
      line op (lexemes.map Lexeme.text) ++ ' ' :: (lexeme.text ++ rest) := by
    simp [line]
  rw [hline, ofText_line op hwhole hspace, Lexeme.ofText_space, hlexeme]
  exact (Reads.operand (Lexeme.ofText rest) (Lexeme.names_ofOpcode op) hvalues
    hrefused).statementOn_eq

theorem feed_notMem_line (h : ∀ text ∈ texts, '\n' ∉ text) : '\n' ∉ line op texts := by
  have hmnemonic := (unbroken_mnemonic op).no_feed
  simpa [line, hmnemonic] using h

theorem line_ne_nil (op : Opcode) (texts : List (List Char)) : line op texts ≠ [] :=
  List.append_ne_nil_of_left_ne_nil (Lexeme.lexes_mnemonic op).ne_nil _

theorem feed_notMem_of_operands (h : List.Forall₂ IsOperand texts values) :
    ∀ text ∈ texts, '\n' ∉ text := by
  induction h with
  | nil => exact fun _ hmem => absurd hmem List.not_mem_nil
  | cons hfirst _ ih => exact List.forall_mem_cons.2 ⟨hfirst.feed_notMem, ih⟩

/-- A text of one line is the program of that line. -/
theorem assemble_ofList {text : List Char} (hfeed : '\n' ∉ text) (hne : text ≠ []) :
    assemble (String.ofList text) =
      (statementOn 1 (Lexeme.ofText text)).map Option.toList := by
  rw [assemble, String.toList_ofList, lines_last hfeed hne, assembleLines_cons, assembleLines]
  cases statementOn 1 (Lexeme.ofText text) with
  | error e => rfl
  | ok statement? => simp [bind, Except.bind, Except.map]

theorem assemble_line (hoperands : List.Forall₂ IsOperand texts values)
    (hcount : values.length = op.arity) :
    ∃ instruction : Instruction, instruction.IsMadeOf op values ∧
      assemble (String.ofList (line op texts)) = .ok [instruction] := by
  obtain ⟨instruction, hinstruction, hline⟩ := statementOn_line 1 hoperands hcount
  have hfeed : '\n' ∉ line op texts := feed_notMem_line (feed_notMem_of_operands hoperands)
  refine ⟨instruction, hinstruction, ?_⟩
  rw [assemble_ofList hfeed (line_ne_nil op texts), hline]
  rfl

section Error

variable {text : List Char} {problem : Problem}

/-- The error of a line is that of the lines from there on. -/
theorem assembleLines_of_error {number : Nat}
    (h : statementOn number (Lexeme.ofText text) = .error ⟨number, problem⟩)
    (more : List (List Char)) : assembleLines number (text :: more) = .error ⟨number, problem⟩ := by
  rw [assembleLines_cons, h]
  rfl

theorem assemble_of_error (h : statementOn 1 (Lexeme.ofText text) = .error ⟨1, problem⟩)
    (hfeed : '\n' ∉ text) : assemble (String.ofList text) = .error ⟨1, problem⟩ := by
  have hne : text ≠ [] := by
    rintro rfl
    rw [Lexeme.ofText, Reads.blank.statementOn_eq] at h
    cases h
  rw [assemble_ofList hfeed hne, h]
  rfl

end Error

end LogicChip.Assembly

import LogicChip.Proofs.Assembly.InstructionText
import LogicChip.Proofs.Assembly.Lines

namespace LogicChip.Assembly

/-- A text without characters that end a line. -/
def Unbroken (text : List Char) : Prop := ∀ c ∈ text, c ≠ '\n' ∧ c ≠ '\r'

instance (text : List Char) : Decidable (Unbroken text) :=
  decidable_of_iff (text.all fun c => c ≠ '\n' ∧ c ≠ '\r') (by simp [Unbroken])

theorem Unbroken.append {first second : List Char} (hfirst : Unbroken first)
    (hsecond : Unbroken second) : Unbroken (first ++ second) := by
  intro c hc
  rcases List.mem_append.1 hc with hc | hc
  · exact hfirst c hc
  · exact hsecond c hc

theorem unbroken_decimal (d : Decimal) : Unbroken (Decimal.Layout.plain.decimal d) := by
  have hspells := Decimal.spells_positional d.coefficient d.exponent
  have hpositional : Unbroken (Decimal.positional false d.coefficient d.exponent) := by
    intro c hc
    rcases hspells.mem hc with hdigit | rfl
    · exact ⟨Lexeme.ne_of_class hdigit (by decide), Lexeme.ne_of_class hdigit (by decide)⟩
    · decide
  have hminus : Unbroken ['-'] := by decide
  rw [Decimal.decimal_plain]
  split
  · exact hminus.append hpositional
  · exact hpositional

theorem unbroken_operand (x : Binary64) : Unbroken x.text := by
  cases x with
  | nan =>
    change Unbroken ['N', 'a', 'N']
    decide
  | infinity negative =>
    change Unbroken (if negative then ['-', 'i', 'n', 'f'] else ['i', 'n', 'f'])
    cases negative <;> decide
  | finite negative magnitude h => exact unbroken_decimal _

theorem unbroken_mnemonic (op : Opcode) : Unbroken op.mnemonic.toList := by
  have hmnemonics : ∀ op ∈ Opcode.all, Unbroken op.mnemonic.toList := by decide
  exact hmnemonics op (Opcode.mem_all op)

/-- The text of an instruction is one line. -/
theorem unbroken_instruction (instruction : Instruction) : Unbroken instruction.text := by
  unfold Instruction.text
  refine (unbroken_mnemonic _).append ?_
  intro c hc
  obtain ⟨x, _, hc⟩ := List.mem_flatMap.1 hc
  rcases List.mem_cons.1 hc with rfl | hc
  · decide
  · exact unbroken_operand x c hc

theorem text_ne_nil (instruction : Instruction) : instruction.text ≠ [] := by
  unfold Instruction.text
  exact List.append_ne_nil_of_left_ne_nil (Lexeme.lexes_mnemonic instruction.opcode).ne_nil _

theorem Unbroken.no_feed {text : List Char} (h : Unbroken text) : '\n' ∉ text :=
  fun hmem => (h '\n' hmem).1 rfl

theorem dropReturn_of_unbroken {text : List Char} (h : Unbroken text) : dropReturn text = text := by
  unfold dropReturn
  rw [if_neg]
  intro hlast
  exact (h '\r' (List.mem_of_getLast? hlast)).2 rfl

/-- Texts joined with line feeds are the lines of the whole. -/
theorem lines_intercalate {texts : List (List Char)}
    (h : ∀ text ∈ texts, Unbroken text ∧ text ≠ []) : lines (['\n'].intercalate texts) = texts := by
  induction texts with
  | nil => rw [List.intercalate_nil, lines_nil]
  | cons text rest ih =>
    obtain ⟨hunbroken, hne⟩ := h text List.mem_cons_self
    cases rest with
    | nil => rw [List.intercalate_singleton, lines_last hunbroken.no_feed hne]
    | cons next rest =>
      have hrest := ih fun text htext => h text (List.mem_cons_of_mem _ htext)
      rw [List.intercalate_cons_cons, List.append_assoc, List.singleton_append,
        lines_ended hunbroken.no_feed, dropReturn_of_unbroken hunbroken, hrest]

theorem assembleLines_of_statements {program : List Instruction}
    (h : ∀ instruction ∈ program, statement instruction.text = .ok (some instruction))
    (number : Nat) : assembleLines number (program.map Instruction.text) = .ok program := by
  induction program generalizing number with
  | nil => rfl
  | cons instruction rest ih =>
    have hrest := ih (fun i hi => h i (List.mem_cons_of_mem _ hi)) (number + 1)
    rw [List.map_cons, assembleLines_cons_ok (h instruction List.mem_cons_self), hrest]
    rfl

/-- Instructions, however they were made, are assembled again from their texts, one to a line. -/
theorem assemble_texts {program : List Instruction}
    (h : ∀ instruction ∈ program, ∃ op operands,
      Instruction.ofOperands op operands = .ok instruction) :
    assemble ("\n".intercalate (program.map toString)) = .ok program := by
  have hstatements : ∀ instruction ∈ program,
      statement instruction.text = .ok (some instruction) := by
    intro instruction hmem
    obtain ⟨op, operands, hmade⟩ := h instruction hmem
    exact statement_text hmade
  have hsource : ("\n".intercalate (program.map toString)).toList =
      ['\n'].intercalate (program.map Instruction.text) := by
    have htext : String.toList ∘ toString = Instruction.text := by
      funext instruction
      exact String.toList_ofList
    rw [String.toList_intercalate, List.map_map, htext]
    rfl
  unfold assemble
  rw [hsource, lines_intercalate]
  · exact assembleLines_of_statements hstatements 1
  · intro text htext
    obtain ⟨instruction, _, rfl⟩ := List.mem_map.1 htext
    exact ⟨unbroken_instruction instruction, text_ne_nil instruction⟩

/-- No number and the negative zero among the operands. -/
theorem assemble_texts_special_operands :
    let sum : Instruction := ⟨.add, Vector.ofFn fun i => [.nan, .zero true].getD i 0⟩
    let draw : Instruction := ⟨.rand, Vector.ofFn fun i => [].getD i 0⟩
    (∀ instruction ∈ [sum, draw], ∃ op operands,
      Instruction.ofOperands op operands = .ok instruction) ∧
      assemble ("\n".intercalate ([sum, draw].map toString)) = .ok [sum, draw] := by
  intro sum draw
  have hmade : ∀ instruction ∈ [sum, draw], ∃ op operands,
      Instruction.ofOperands op operands = .ok instruction := by
    intro instruction hmem
    rcases List.mem_cons.1 hmem with rfl | hmem
    · exact ⟨.add, [.nan, .zero true], rfl⟩
    · rcases List.mem_cons.1 hmem with rfl | hmem
      · exact ⟨.rand, [], rfl⟩
      · cases hmem
  exact ⟨hmade, assemble_texts hmade⟩

end LogicChip.Assembly

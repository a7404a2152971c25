import LogicChip.Proofs.Assembly.OperandText
import LogicChip.Proofs.Instruction.Operands

namespace LogicChip.Assembly

open Text (Separated)

namespace Lexeme

/-- The words that stand for values. -/
def valueWords : List (List Char) := [['i', 'n', 'f'], ['n', 'a', 'n'], ['N', 'a', 'N']]

theorem wordToken_of_not_mem {word : List Char} (h : word ∉ valueWords) :
    wordToken word = .identifier (String.ofList word) := by
  simp only [valueWords, List.mem_cons, List.not_mem_nil, or_false, not_or] at h
  obtain ⟨hinf, hnan, hNaN⟩ := h
  unfold wordToken
  rw [if_neg hinf, if_neg (not_or.2 ⟨hnan, hNaN⟩)]

/-- A mnemonic is one lexeme, an identifier. -/
theorem lexes_mnemonic (op : Opcode) : Lexes op.mnemonic.toList (.identifier op.mnemonic) := by
  have hmnemonics : ∀ op ∈ Opcode.all,
      isWord op.mnemonic.toList = true ∧ op.mnemonic.toList ∉ valueWords := by decide
  obtain ⟨hword, hvalue⟩ := hmnemonics op (Opcode.mem_all op)
  have hlexes := lexes_word hword
  rw [wordToken_of_not_mem hvalue, String.ofList_toList] at hlexes
  exact hlexes

/-- The texts of operands, each after a space, are the lexemes of the operands. -/
theorem mapM_operand_ofText (operands : List Binary64) :
    Separated (operands.flatMap fun x => ' ' :: x.text) ∧
      (ofText (operands.flatMap fun x => ' ' :: x.text)).mapM operand = .ok operands := by
  induction operands with
  | nil =>
    refine ⟨trivial, ?_⟩
    rw [List.flatMap_nil, ofText]
    rfl
  | cons x rest ih =>
    obtain ⟨hseparated, hrest⟩ := ih
    obtain ⟨token, hlexes, hvalue⟩ := lexes_operand x
    have hoperand : operand ⟨some token, x.text⟩ = .ok x := hvalue
    refine ⟨rfl, ?_⟩
    rw [List.flatMap_cons, List.cons_append, ofText_space, hlexes.ofText hseparated,
      List.mapM_cons, hrest, hoperand]
    rfl

end Lexeme

theorem statementOfLexemes_cons {first : Lexeme} {rest : List Lexeme} {op : Opcode}
    {operands : List Binary64} (hfirst : first.opcode = .ok op)
    (hrest : rest.mapM Lexeme.operand = .ok operands) : statementOfLexemes (first :: rest) =
      ((Instruction.ofOperands op operands).mapError .invalid).map some := by
  simp only [statementOfLexemes, hfirst, hrest, bind, Except.bind]
  cases Instruction.ofOperands op operands with
  | error fault => rfl
  | ok instruction => rfl

/-- The text of an instruction is a statement that makes the instruction. -/
theorem statement_text {op : Opcode} {operands : List Binary64} {instruction : Instruction}
    (h : Instruction.ofOperands op operands = .ok instruction) :
    statement instruction.text = .ok (some instruction) := by
  obtain ⟨hopcode, hoperands⟩ := Instruction.eq_of_ofOperands h
  obtain ⟨hseparated, hlexemes⟩ := Lexeme.mapM_operand_ofText operands
  have hname : Lexeme.opcode ⟨some (.identifier op.mnemonic), op.mnemonic.toList⟩ = .ok op := by
    unfold Lexeme.opcode
    simp only [Opcode.ofMnemonic?_mnemonic]
  unfold statement Instruction.text
  rw [hopcode, hoperands, (Lexeme.lexes_mnemonic op).ofText hseparated,
    statementOfLexemes_cons hname hlexemes, h]
  rfl

end LogicChip.Assembly

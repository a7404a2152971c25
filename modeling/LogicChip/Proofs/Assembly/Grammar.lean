import LogicChip.Proofs.Assembly.InstructionText
import LogicChip.Proofs.Assembly.Lines
import LogicChip.Proofs.Binary64.Rounded
import LogicChip.Proofs.Instruction.Mnemonic
import Mathlib.Data.List.Forall2

namespace LogicChip.Assembly

/-- The value of a token as an operand. Identifiers have none, and strings only if they can be
packed. -/
inductive Token.Denotes : Token → Binary64 → Prop where
  | number (x : Binary64) : Denotes (.number x) x
  | infinity (negative : Bool) : Denotes (.infinity negative) (.infinity negative)
  | hex (n : UInt64) : Denotes (.hex n) (.ofInt n.toNat)
  | binary (n : UInt64) : Denotes (.binary n) (.ofInt n.toNat)
  | nan : Denotes .nan .nan
  | hash (name : String) : Denotes (.hash name) (.ofInt (NameHash.ofName name).toInt)
  | packed {characters : String} {x : Binary64} (h : Packed.pack characters = .ok x) :
    Denotes (.packed characters) x

namespace Lexeme

/-- The lexeme has a token that stands for the value. -/
inductive Denotes : Lexeme → Binary64 → Prop where
  | token {token : Token} {x : Binary64} (text : List Char) (h : token.Denotes x) :
    Denotes ⟨some token, text⟩ x

/-- Why a lexeme is no operand. -/
inductive Refused : Lexeme → Problem → Prop where
  | stray (text : List Char) : Refused ⟨none, text⟩ (.unexpectedText text)
  | identifier (name : String) (text : List Char) :
    Refused ⟨some (.identifier name), text⟩ (.expectedConstant name)
  | packed {characters : String} {fault : Fault} (text : List Char)
    (h : Packed.pack characters = .error fault) :
    Refused ⟨some (.packed characters), text⟩ (.invalid fault)

/-- The lexeme is an identifier that names the operation. -/
inductive Names : Lexeme → Opcode → Prop where
  | identifier {name : String} {op : Opcode} (text : List Char) (h : op.IsNamed name) :
    Names ⟨some (.identifier name), text⟩ op

/-- Why a lexeme names no operation. -/
inductive Nameless : Lexeme → Problem → Prop where
  | stray (text : List Char) : Nameless ⟨none, text⟩ (.unexpectedText text)
  | token {token : Token} (text : List Char) (h : ∀ name, token ≠ .identifier name) :
    Nameless ⟨some token, text⟩ (.expectedMnemonic token)
  | unknown {name : String} (text : List Char) (h : ∀ op : Opcode, ¬op.IsNamed name) :
    Nameless ⟨some (.identifier name), text⟩ (.invalid (.unknownMnemonic name))

end Lexeme

/-- What the lexemes of a line make up, if the line has the given number. -/
inductive Reads (number : Nat) : List Lexeme → Except Error (Option Instruction) → Prop where
  | blank : Reads number [] (.ok none)
  | instruction {first : Lexeme} {rest : List Lexeme} {op : Opcode} {values : List Binary64}
    {instruction : Instruction} (hfirst : first.Names op)
    (hvalues : List.Forall₂ Lexeme.Denotes rest values) (hcount : rest.length = op.arity)
    (hinstruction : instruction.IsMadeOf op values) :
    Reads number (first :: rest) (.ok (some instruction))
  | mnemonic {first : Lexeme} {problem : Problem} (rest : List Lexeme)
    (hfirst : first.Nameless problem) : Reads number (first :: rest) (.error ⟨number, problem⟩)
  | operand {first bad : Lexeme} {before : List Lexeme} {op : Opcode} {values : List Binary64}
    {problem : Problem} (after : List Lexeme) (hfirst : first.Names op)
    (hbefore : List.Forall₂ Lexeme.Denotes before values) (hbad : bad.Refused problem) :
    Reads number (first :: (before ++ bad :: after)) (.error ⟨number, problem⟩)
  | count {first : Lexeme} {rest : List Lexeme} {op : Opcode} {values : List Binary64}
    (hfirst : first.Names op) (hvalues : List.Forall₂ Lexeme.Denotes rest values)
    (hcount : rest.length ≠ op.arity) :
    Reads number (first :: rest) (.error ⟨number, .invalid (.operandCount op rest.length)⟩)

namespace Lexeme

theorem operand_of_denotes {lexeme : Lexeme} {x : Binary64} (h : lexeme.Denotes x) :
    lexeme.operand = .ok x := by
  obtain ⟨text, hvalue⟩ := h
  cases hvalue with
  | packed h => simp only [operand, Token.operand, h, Except.mapError]
  | _ => rfl

theorem operand_of_refused {lexeme : Lexeme} {problem : Problem} (h : lexeme.Refused problem) :
    lexeme.operand = .error problem := by
  cases h with
  | packed text h => simp only [operand, Token.operand, h, Except.mapError]
  | _ => rfl

/-- A lexeme has a value or is refused. -/
theorem denotes_or_refused (lexeme : Lexeme) :
    (∃ x, lexeme.Denotes x) ∨ ∃ problem, lexeme.Refused problem := by
  obtain ⟨token?, text⟩ := lexeme
  cases token? with
  | none => exact .inr ⟨_, .stray text⟩
  | some token =>
    cases token with
    | identifier name => exact .inr ⟨_, .identifier name text⟩
    | number x => exact .inl ⟨_, .token text (.number x)⟩
    | hex n => exact .inl ⟨_, .token text (.hex n)⟩
    | binary n => exact .inl ⟨_, .token text (.binary n)⟩
    | nan => exact .inl ⟨_, .token text .nan⟩
    | infinity negative => exact .inl ⟨_, .token text (.infinity negative)⟩
    | hash name => exact .inl ⟨_, .token text (.hash name)⟩
    | packed characters =>
      cases hpack : Packed.pack characters with
      | ok x => exact .inl ⟨x, .token text (.packed hpack)⟩
      | error fault => exact .inr ⟨_, .packed text hpack⟩

theorem opcode_of_names {lexeme : Lexeme} {op : Opcode} (h : lexeme.Names op) :
    lexeme.opcode = .ok op := by
  obtain ⟨text, hname⟩ := h
  simp only [opcode, Opcode.ofMnemonic?_eq_some_iff.2 hname]

theorem opcode_of_nameless {lexeme : Lexeme} {problem : Problem} (h : lexeme.Nameless problem) :
    lexeme.opcode = .error problem := by
  cases h with
  | stray text => rfl
  | unknown text h => simp only [opcode, Opcode.ofMnemonic?_eq_none_iff.2 h]
  | @token token text h =>
    cases token with
    | identifier name => exact absurd rfl (h name)
    | _ => rfl

theorem names_or_nameless (lexeme : Lexeme) :
    (∃ op, lexeme.Names op) ∨ ∃ problem, lexeme.Nameless problem := by
  obtain ⟨token?, text⟩ := lexeme
  cases token? with
  | none => exact .inr ⟨_, .stray text⟩
  | some token =>
    cases token with
    | identifier name =>
      cases hname : Opcode.ofMnemonic? name with
      | some op => exact .inl ⟨op, .identifier text (Opcode.ofMnemonic?_eq_some_iff.1 hname)⟩
      | none => exact .inr ⟨_, .unknown text (Opcode.ofMnemonic?_eq_none_iff.1 hname)⟩
    | _ => exact .inr ⟨_, .token text nofun⟩

theorem mapM_operand_of_denotes {lexemes : List Lexeme} {values : List Binary64}
    (h : List.Forall₂ Denotes lexemes values) : lexemes.mapM operand = .ok values := by
  induction h with
  | nil => rfl
  | cons hfirst _ ih =>
    rw [List.mapM_cons, operand_of_denotes hfirst, ih]
    rfl

/-- The operands up to the leftmost that is refused do not matter. -/
theorem mapM_operand_of_refused {before : List Lexeme} {bad : Lexeme} {values : List Binary64}
    {problem : Problem} (after : List Lexeme) (hbefore : List.Forall₂ Denotes before values)
    (hbad : bad.Refused problem) :
    (before ++ bad :: after).mapM operand = .error problem := by
  induction hbefore with
  | nil =>
    rw [List.nil_append, List.mapM_cons, operand_of_refused hbad]
    rfl
  | cons hfirst _ ih =>
    rw [List.cons_append, List.mapM_cons, operand_of_denotes hfirst, ih]
    rfl

/-- All lexemes have values, or one is refused after others that do. -/
theorem forall_denotes_or_refused (lexemes : List Lexeme) :
    (∃ values, List.Forall₂ Denotes lexemes values) ∨
      ∃ before bad after values problem, lexemes = before ++ bad :: after ∧
        List.Forall₂ Denotes before values ∧ bad.Refused problem := by
  induction lexemes with
  | nil => exact .inl ⟨[], .nil⟩
  | cons first rest ih =>
    rcases first.denotes_or_refused with ⟨x, hfirst⟩ | ⟨problem, hfirst⟩
    · rcases ih with ⟨values, hrest⟩ | ⟨before, bad, after, values, problem, rfl, hbefore, hbad⟩
      · exact .inl ⟨x :: values, .cons hfirst hrest⟩
      · exact .inr ⟨first :: before, bad, after, x :: values, problem, rfl,
          .cons hfirst hbefore, hbad⟩
    · exact .inr ⟨[], first, rest, [], problem, rfl, .nil, hfirst⟩

end Lexeme

theorem statementOfLexemes_of_mnemonic {first : Lexeme} {problem : Problem} (rest : List Lexeme)
    (hfirst : first.opcode = .error problem) :
    statementOfLexemes (first :: rest) = .error problem := by
  simp only [statementOfLexemes, hfirst, bind, Except.bind]

theorem statementOfLexemes_of_operand {first : Lexeme} {rest : List Lexeme} {op : Opcode}
    {problem : Problem} (hfirst : first.opcode = .ok op)
    (hrest : rest.mapM Lexeme.operand = .error problem) :
    statementOfLexemes (first :: rest) = .error problem := by
  simp only [statementOfLexemes, hfirst, hrest, bind, Except.bind]

/-- The statement that lexemes make up on a line with the given number, which its error reports. -/
def statementOn (number : Nat) (lexemes : List Lexeme) : Except Error (Option Instruction) :=
  (statementOfLexemes lexemes).mapError (Error.mk number)

theorem Reads.statementOn_eq {number : Nat} {lexemes : List Lexeme}
    {outcome : Except Error (Option Instruction)} (h : Reads number lexemes outcome) :
    statementOn number lexemes = outcome := by
  unfold statementOn
  cases h with
  | blank => rfl
  | instruction hfirst hvalues hcount hinstruction =>
    obtain ⟨made, hmade, hoperands⟩ :=
      Instruction.exists_isMadeOf (hvalues.length_eq.symm.trans hcount)
    rw [statementOfLexemes_cons (Lexeme.opcode_of_names hfirst)
      (Lexeme.mapM_operand_of_denotes hvalues), hmade, hoperands.unique hinstruction]
    rfl
  | mnemonic rest hfirst =>
    rw [statementOfLexemes_of_mnemonic rest (Lexeme.opcode_of_nameless hfirst)]
    rfl
  | operand after hfirst hbefore hbad =>
    rw [statementOfLexemes_of_operand (Lexeme.opcode_of_names hfirst)
      (Lexeme.mapM_operand_of_refused after hbefore hbad)]
    rfl
  | count hfirst hvalues hcount =>
    rw [hvalues.length_eq] at hcount ⊢
    rw [statementOfLexemes_cons (Lexeme.opcode_of_names hfirst)
      (Lexeme.mapM_operand_of_denotes hvalues), Instruction.ofOperands, if_neg hcount]
    rfl

/-- The grammar says of any lexemes what they make up. -/
theorem exists_reads (number : Nat) (lexemes : List Lexeme) :
    ∃ outcome, Reads number lexemes outcome := by
  cases lexemes with
  | nil => exact ⟨_, .blank⟩
  | cons first rest =>
    rcases first.names_or_nameless with ⟨op, hfirst⟩ | ⟨problem, hfirst⟩
    · rcases Lexeme.forall_denotes_or_refused rest with
        ⟨values, hvalues⟩ | ⟨before, bad, after, values, problem, rfl, hbefore, hbad⟩
      · by_cases hcount : rest.length = op.arity
        · obtain ⟨instruction, _, hinstruction⟩ :=
            Instruction.exists_isMadeOf (hvalues.length_eq.symm.trans hcount)
          exact ⟨_, .instruction hfirst hvalues hcount hinstruction⟩
        · exact ⟨_, .count hfirst hvalues hcount⟩
      · exact ⟨_, .operand after hfirst hbefore hbad⟩
    · exact ⟨_, .mnemonic rest hfirst⟩

theorem statementOn_eq_iff {number : Nat} {lexemes : List Lexeme}
    {outcome : Except Error (Option Instruction)} :
    statementOn number lexemes = outcome ↔ Reads number lexemes outcome := by
  constructor
  · rintro rfl
    obtain ⟨outcome, hreads⟩ := exists_reads number lexemes
    rwa [hreads.statementOn_eq]
  · exact Reads.statementOn_eq

/-- Lines are read one after the other, each with its own number. -/
theorem assembleLines_cons (number : Nat) (line : List Char) (rest : List (List Char)) :
    assembleLines number (line :: rest) =
      statementOn number (Lexeme.ofText line) >>= fun statement? =>
        (assembleLines (number + 1) rest).map (statement?.toList ++ ·) := by
  cases hline : statement line with
  | error problem =>
    rw [assembleLines_cons_error hline, statementOn, ← statement, hline]
    rfl
  | ok statement? =>
    rw [assembleLines_cons_ok hline, statementOn, ← statement, hline]
    rfl

/-- What a line is read as is what the grammar says of its lexemes, and no more than that: a line is
blank, an instruction, or has the one error that comes first. Integer literals stand for the
nearest value, and hashes for themselves. -/
theorem line_reads_iff (number : Nat) (line : List Char) :
    (∀ outcome, statementOn number (Lexeme.ofText line) = outcome ↔
      Reads number (Lexeme.ofText line) outcome) ∧
    (∀ rest, assembleLines number (line :: rest) =
      statementOn number (Lexeme.ofText line) >>= fun statement? =>
        (assembleLines (number + 1) rest).map (statement?.toList ++ ·)) ∧
    (∀ n : UInt64, (Binary64.ofInt n.toNat).IsNearest n.toNat) ∧
    ∀ name, (Binary64.ofInt (NameHash.ofName name).toInt).integer? =
      some (NameHash.ofName name).toInt := by
  refine ⟨fun _ => statementOn_eq_iff, assembleLines_cons number line, fun n => ?_, fun name => ?_⟩
  · exact Binary64.isNearest_ofInt (Nat.le_of_lt n.toNat_lt)
  · have hlower := (NameHash.ofName name).le_toInt
    have hupper := (NameHash.ofName name).toInt_lt
    exact Binary64.integer?_ofInt (by omega)

end LogicChip.Assembly

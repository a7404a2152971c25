import LogicChip.Proofs.Assembly.OperandLine
import LogicChip.Proofs.Constant.Packed
import LogicChip.Proofs.Machine.Run

namespace LogicChip

namespace Binary64

theorem eqv_of_integer? {x y : Binary64} {m n : Int} (hx : x.integer? = some m)
    (hy : y.integer? = some n) : x.eqv y = decide (m = n) := by
  have hscale : (scale : Int) ≠ 0 := Int.natCast_ne_zero.2 (Nat.ne_of_gt scale_pos)
  unfold eqv compareWith
  rw [position_of_integer? hx, position_of_integer? hy]
  exact decide_eq_decide.2 (Int.mul_eq_mul_right_iff hscale)

end Binary64

namespace Condition

theorem seq_of_integer? {x y : Binary64} {m n : Int} (hx : x.integer? = some m)
    (hy : y.integer? = some n) : seq x y = if m = n then 1 else 0 := by
  rw [seq, flag, Binary64.eqv_of_integer? hx hy]
  simp only [decide_eq_true_eq]

end Condition

namespace Assembly

open Pattern (isArgumentPart hashOpening packedOpening)

/-- A constant: its opening, its argument, and what closes it. -/
def constant (opening : List Char) (s : String) : List Char :=
  opening ++ (s.toList ++ ['"', ')'])

/-- A string that can be the argument of a constant. -/
structure Quotable (s : String) : Prop where
  quote_notMem : '"' ∉ s.toList
  feed_notMem : '\n' ∉ s.toList

/-- The text is a program of one value, which it yields on any machine. -/
def Yields (source : String) (x : Binary64) : Prop :=
  ∃ program, assemble source = .ok program ∧
    ∀ machine : Machine, (machine.run program).1 = [some x]

variable {s t : String}

theorem Quotable.isArgumentPart (h : Quotable s) : ∀ c ∈ s.toList, isArgumentPart c = true := by
  intro c hc
  have hquote : c ≠ '"' := fun heq => h.quote_notMem (heq ▸ hc)
  have hfeed : c ≠ '\n' := fun heq => h.feed_notMem (heq ▸ hc)
  simp [Pattern.isArgumentPart, hquote, hfeed]

/-- A constant is a whole lexeme, and its token holds the argument. -/
theorem IsConstant.isWhole {p : Pattern} {c : Char} {name : List Char} {token : String → Token}
    (h : IsConstant p c name token) (hs : Quotable s) :
    Lexeme.IsWhole ⟨some (token s), constant (c :: opened name) s⟩ := by
  intro rest _
  have hmem : constant (c :: opened name) s ∈ p.language := by
    rw [h.language_eq]
    exact Pattern.mem_constants.2 ⟨s.toList, hs.isArgumentPart, (List.append_assoc _ _ _).symm⟩
  have hargument : Pattern.argument (c :: opened name) (constant (c :: opened name) s) = s :=
    (argument_append _ _).trans String.ofList_toList
  have hstep := h.step_of_mem hmem rest
  rw [h.token_eq, hargument] at hstep
  exact (tokenizes_ofText _).unique (.emit hstep (tokenizes_ofText rest))

theorem isOperand_hash (hs : Quotable s) :
    IsOperand (constant hashOpening s) (.ofInt (NameHash.ofName s).toInt) :=
  ⟨.hash s, isConstant_hash.isWhole hs, .hash s⟩

theorem isOperand_packed (hs : Quotable s) {x : Binary64} (h : Packed.pack s = .ok x) :
    IsOperand (constant packedOpening s) x :=
  ⟨.packed s, isConstant_packed.isWhole hs, .packed h⟩

/-- The fault of a string that cannot be packed is that of the line. -/
theorem statementOn_move_of_fault (number : Nat) (hs : Quotable s) {fault : Fault}
    (h : Packed.pack s = .error fault) :
    statementOn number (Lexeme.ofText (line .move [constant packedOpening s])) =
      .error ⟨number, .invalid fault⟩ := by
  have hlexeme := isConstant_packed.isWhole hs [] apart_nil
  have hline : statementOn number
      (Lexeme.ofText (line .move ([] ++ [constant packedOpening s]) ++ [])) = _ :=
    statementOn_line_of_refused number .nil hlexeme (.packed _ h)
  rwa [List.nil_append, List.append_nil] at hline

section Run

variable {op : Opcode} {texts : List (List Char)} {values : List Binary64} {x : Binary64}

/-- An instruction on operands yields what its operation makes of their values. -/
theorem yields_line (hoperands : List.Forall₂ IsOperand texts values)
    (hcount : values.length = op.arity) (hop : op ≠ .rand)
    (hvalue : ∀ instruction : Instruction, instruction.IsMadeOf op values →
      instruction.evaluate 0 = .ok x) : Yields (String.ofList (line op texts)) x := by
  obtain ⟨instruction, hmade, hline⟩ := assemble_line hoperands hcount
  refine ⟨[instruction], hline, fun machine => ?_⟩
  have hdraw : instruction.opcode ≠ .rand := hmade.opcode ▸ hop
  have hexecute := Instruction.execute_of_ne_rand hdraw machine.generator 0
  rw [hvalue instruction hmade] at hexecute
  have hrun : (machine.run [instruction]).1 =
      [(instruction.execute machine.generator).1.toOption] := rfl
  rw [hrun, hexecute]
  rfl

theorem yields_move {text : List Char} (h : IsOperand text x) :
    Yields (String.ofList (line .move [text])) x := by
  refine yields_line (.cons h .nil) rfl (by decide) fun instruction hmade => ?_
  simp [Instruction.evaluate, Instruction.operand, hmade.opcode, hmade.operands]

theorem yields_seq {text other : List Char} {y : Binary64} (h : IsOperand text x)
    (hother : IsOperand other y) :
    Yields (String.ofList (line .seq [text, other])) (Condition.seq x y) := by
  refine yields_line (.cons h (.cons hother .nil)) rfl (by decide) fun instruction hmade => ?_
  simp [Instruction.evaluate, Instruction.operand, hmade.opcode, hmade.operands]

end Run

section Source

variable (s t : String)

theorem move_hash_source : "move HASH(\"" ++ s ++ "\")" =
    String.ofList (line .move [constant hashOpening s]) := by
  simp [← String.toList_inj, line, constant, hashOpening, Opcode.mnemonic]

theorem move_packed_source : "move STR(\"" ++ s ++ "\")" =
    String.ofList (line .move [constant packedOpening s]) := by
  simp [← String.toList_inj, line, constant, packedOpening, Opcode.mnemonic]

theorem seq_hash_source : "seq HASH(\"" ++ s ++ "\") HASH(\"" ++ t ++ "\")" =
    String.ofList (line .seq [constant hashOpening s, constant hashOpening t]) := by
  simp [← String.toList_inj, line, constant, hashOpening, Opcode.mnemonic]

theorem seq_packed_source : "seq STR(\"" ++ s ++ "\") STR(\"" ++ t ++ "\")" =
    String.ofList (line .seq [constant packedOpening s, constant packedOpening t]) := by
  simp [← String.toList_inj, line, constant, packedOpening, Opcode.mnemonic]

end Source

theorem integer?_hash (s : String) :
    (Binary64.ofInt (NameHash.ofName s).toInt).integer? = some (NameHash.ofName s).toInt := by
  have hlower := (NameHash.ofName s).le_toInt
  have hupper := (NameHash.ofName s).toInt_lt
  exact Binary64.integer?_ofInt (by omega)

theorem seq_hash (s t : String) :
    Condition.seq (.ofInt (NameHash.ofName s).toInt) (.ofInt (NameHash.ofName t).toInt) =
      if NameHash.ofName s = NameHash.ofName t then 1 else 0 := by
  rw [Condition.seq_of_integer? (integer?_hash s) (integer?_hash t)]
  simp only [Int32.toInt_inj]

/-- Packed strings are the same number if they are equal after the NULs that they begin with. -/
theorem number_eq_iff (hs : Packed.Packable s) (ht : Packed.Packable t) :
    Packed.number s.toList = Packed.number t.toList ↔
      s.toList.dropWhile (· = '\x00') = t.toList.dropWhile (· = '\x00') := by
  rw [← Packed.characters_number hs.toNat_lt, ← Packed.characters_number ht.toNat_lt]
  constructor
  · intro h
    rw [h]
  · intro h
    rw [← Packed.number_characters (Packed.number s.toList), h, Packed.number_characters]

theorem integer?_packed (hs : Packed.Packable s) :
    (Binary64.ofInt (Packed.number s.toList)).integer? = some (Packed.number s.toList : Int) := by
  have hbound := hs.number_lt
  exact Binary64.integer?_ofInt (by omega)

theorem seq_packed (hs : Packed.Packable s) (ht : Packed.Packable t) :
    Condition.seq (.ofInt (Packed.number s.toList)) (.ofInt (Packed.number t.toList)) =
      if s.toList.dropWhile (· = '\x00') = t.toList.dropWhile (· = '\x00') then 1 else 0 := by
  rw [Condition.seq_of_integer? (integer?_packed hs) (integer?_packed ht)]
  simp only [Int.natCast_inj, number_eq_iff hs ht]

/-- A constant is exactly what is made of its argument. The hash of a string without quotes and line
feeds reaches a register unchanged, and so does the packed string, or its fault is that of the line.
Hence two hashes in a program are equal if the hashes are, and two packed strings if the strings
are, the NULs that they begin with aside. -/
theorem constants_deliver_text :
    (∀ s : String, Quotable s →
      Yields ("move HASH(\"" ++ s ++ "\")") (.ofInt (NameHash.ofName s).toInt) ∧
      (Binary64.ofInt (NameHash.ofName s).toInt).integer? = some (NameHash.ofName s).toInt ∧
      (∀ x, Packed.pack s = .ok x → Yields ("move STR(\"" ++ s ++ "\")") x) ∧
      ∀ fault, Packed.pack s = .error fault →
        assemble ("move STR(\"" ++ s ++ "\")") = .error ⟨1, .invalid fault⟩ ∧
        ∀ number rest, assembleLines number (("move STR(\"" ++ s ++ "\")").toList :: rest) =
          .error ⟨number, .invalid fault⟩) ∧
    (∀ s t : String, Quotable s → Quotable t →
      Yields ("seq HASH(\"" ++ s ++ "\") HASH(\"" ++ t ++ "\")")
        (if NameHash.ofName s = NameHash.ofName t then 1 else 0) ∧
      (Packed.Packable s → Packed.Packable t →
        Yields ("seq STR(\"" ++ s ++ "\") STR(\"" ++ t ++ "\")")
          (if s.toList.dropWhile (· = '\x00') = t.toList.dropWhile (· = '\x00') then 1 else 0))) ∧
    (1 : Binary64) ≠ 0 := by
  refine ⟨fun s hs => ⟨?_, integer?_hash s, fun x hx => ?_, fun fault hfault => ?_⟩,
    fun s t hs ht => ⟨?_, fun hpackable hother => ?_⟩, Binary64.one_ne_zero⟩
  · rw [move_hash_source]
    exact yields_move (isOperand_hash hs)
  · rw [move_packed_source]
    exact yields_move (isOperand_packed hs hx)
  · have hfeed : '\n' ∉ line .move [constant packedOpening s] :=
      feed_notMem_line (by simpa [constant, packedOpening] using hs.feed_notMem)
    rw [move_packed_source, String.toList_ofList]
    exact ⟨assemble_of_error (statementOn_move_of_fault 1 hs hfault) hfeed,
      fun number => assembleLines_of_error (statementOn_move_of_fault number hs hfault)⟩
  · rw [seq_hash_source, ← seq_hash s t]
    exact yields_seq (isOperand_hash hs) (isOperand_hash ht)
  · rw [seq_packed_source, ← seq_packed hpackable hother]
    exact yields_seq (isOperand_packed hs hpackable.pack_eq) (isOperand_packed ht hother.pack_eq)

/-- An argument with blanks, a parenthesis and the mark of a comment, one that cannot be packed, and
a NUL before what is compared. -/
theorem constants_deliver_text_with_marks :
    Quotable "# (é\r)" ∧
      Yields ("move HASH(\"" ++ "# (é\r)" ++ "\")")
        (.ofInt (NameHash.ofName "# (é\r)").toInt) ∧
      assemble ("move STR(\"" ++ "# (é\r)" ++ "\")") = .error ⟨1, .invalid (.nonAscii 'é')⟩ ∧
      Packed.Packable "\x00#1" ∧ Packed.Packable "#1" ∧
      Yields ("seq STR(\"" ++ "\x00#1" ++ "\") STR(\"" ++ "#1" ++ "\")") 1 := by
  have hmarks : Quotable "# (é\r)" := ⟨by decide, by decide⟩
  have hnul : Packed.Packable "\x00#1" := by decide
  have hnumber : Packed.Packable "#1" := by decide
  obtain ⟨hhash, _, _, hfault⟩ := constants_deliver_text.1 "# (é\r)" hmarks
  obtain ⟨_, hpacked⟩ := constants_deliver_text.2.1 "\x00#1" "#1" ⟨by decide, by decide⟩
    ⟨by decide, by decide⟩
  exact ⟨hmarks, hhash, (hfault _ rfl).1, hnul, hnumber, hpacked hnul hnumber⟩

end Assembly

end LogicChip

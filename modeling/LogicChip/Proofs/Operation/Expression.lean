import LogicChip.Execution
import LogicChip.Generator.Seeding
import LogicChip.Proofs.Operation.Word

namespace LogicChip.Bitwise

/-- A register that holds an integer strictly between `-2 ^ 53` and `2 ^ 53`. -/
def Canonical (x : Binary64) : Prop := ∃ n, x.integer? = some n ∧ -2 ^ 53 < n ∧ n < 2 ^ 53

inductive Gate where
  | and | or | xor | nor
deriving DecidableEq

namespace Gate

def opcode : Gate → Opcode
  | and => .and
  | or => .or
  | xor => .xor
  | nor => .nor

def onWords : Gate → BitVec 54 → BitVec 54 → BitVec 54
  | and, v, w => v &&& w
  | or, v, w => v ||| w
  | xor, v, w => v ^^^ w
  | nor, v, w => ~~~(v ||| w)

end Gate

inductive Shift where
  | sll | sla | srl | sra
deriving DecidableEq

namespace Shift

def opcode : Shift → Opcode
  | sll => .sll
  | sla => .sla
  | srl => .srl
  | sra => .sra

/-- The shifts of a word by a number of bits, which may exceed the width of the word. -/
def onWord : Shift → BitVec 54 → Nat → BitVec 54
  | sll, w, k | sla, w, k => w <<< k
  | srl, w, k => w >>> k
  | sra, w, k => w.sshiftRight k

end Shift

/-- Bitwise operations on registers and on the results of bitwise operations. The amounts of shifts
and the bounds of fields are constants. -/
inductive Expression where
  | register (x : Binary64) (canonical : Canonical x)
  | gate (op : Gate) (left right : Expression)
  | not (operand : Expression)
  | shift (op : Shift) (operand : Expression) (amount : Nat) (fits : amount < 2 ^ 31)
  | ext (operand : Expression) (start length : Int32)
      (valid : BitField.Valid start.toInt length.toInt)
  | ins (target : Expression) (start length : Int32)
      (valid : BitField.Valid start.toInt length.toInt) (value : Expression)

def perform (g : Generator) (op : Opcode) (operands : List Binary64) : Except Fault Binary64 := do
  let instruction ← Instruction.ofOperands op operands
  (instruction.execute g).1

namespace Expression

/-- The register that an expression ends in, with one instruction for each operation. -/
def run (g : Generator) : Expression → Except Fault Binary64
  | register x _ => .ok x
  | gate op left right => do
    let a ← left.run g
    let b ← right.run g
    perform g op.opcode [a, b]
  | not operand => do
    let a ← operand.run g
    perform g .not [a]
  | shift op operand amount _ => do
    let a ← operand.run g
    perform g op.opcode [a, .ofInt amount]
  | ext operand start length _ => do
    let a ← operand.run g
    perform g .ext [a, .ofInt start.toInt, .ofInt length.toInt]
  | ins target start length _ value => do
    let a ← target.run g
    let b ← value.run g
    perform g .ins [a, .ofInt start.toInt, .ofInt length.toInt, b]

/-- The word that an expression stands for. -/
def value : Expression → BitVec 54
  | register x _ => word (x.integer?.getD 0)
  | gate op left right => op.onWords left.value right.value
  | not operand => ~~~operand.value
  | shift op operand amount _ => op.onWord operand.value (amount % 64)
  | ext operand start length _ => readField start.toInt.toNat length.toInt.toNat operand.value
  | ins target start length _ value =>
    writeField start.toInt.toNat length.toInt.toNat target.value value.value

def isOperation : Expression → Bool
  | register .. => false
  | _ => true

/-- The expressions that occur in an expression, apart from itself. -/
def inner : Expression → List Expression
  | register .. => []
  | gate _ left right => left :: right :: (left.inner ++ right.inner)
  | not operand | shift _ operand _ _ | ext operand _ _ _ => operand :: operand.inner
  | ins target _ _ _ value => target :: value :: (target.inner ++ value.inner)

/-- No intermediate result is `-2 ^ 53`, the only integer of 54 bits that is not read back. -/
def ReadBack (g : Generator) (e : Expression) : Prop :=
  ∀ e' ∈ e.inner, e'.run g ≠ .ok (.ofInt (-2 ^ 53))

end Expression

private theorem ok_bind {α β : Type} (a : α) (f : α → Except Fault β) : (.ok a >>= f) = f a := rfl

section Perform

variable (g : Generator) (a b c d : Binary64)

theorem perform_shift (op : Shift) : perform g op.opcode [a, b] =
    match op with
    | .sll => sll a b
    | .sla => sla a b
    | .srl => srl a b
    | .sra => sra a b := by
  cases op <;> rfl

theorem perform_not : perform g .not [a] = not a := rfl

theorem perform_ext : perform g .ext [a, b, c] = ext a b c := rfl

theorem perform_ins : perform g .ins [a, b, c, d] = ins a b c d := rfl

end Perform

/-- What is proved of an expression by induction: it ends in a register that holds a 54-bit integer,
made from that integer by an operation if there is one, and the integer is the expression's word if
every intermediate result is read back. -/
def Expression.Sound (g : Generator) (e : Expression) : Prop :=
  ∃ x n, e.run g = .ok x ∧ Holds x n ∧ (e.isOperation = true → x = .ofInt n) ∧
    (e.ReadBack g → n = e.value.toInt)

section Steps

variable {g : Generator} {e left right : Expression} {x : Binary64} {n : Int} {w : BitVec 54}

theorem Expression.sound_of_word (hrun : e.run g = .ok (.ofInt w.toInt))
    (hvalue : e.ReadBack g → w = e.value) : e.Sound g := by
  refine ⟨.ofInt w.toInt, w.toInt, hrun, holds_ofInt_toInt w, fun _ => rfl, ?_⟩
  intro h
  rw [hvalue h]

theorem Expression.ReadBack.of_cons (hinner : e.inner = left :: left.inner) (h : e.ReadBack g) :
    left.run g ≠ .ok (.ofInt (-2 ^ 53)) ∧ left.ReadBack g := by
  unfold ReadBack at h
  rw [hinner, List.forall_mem_cons] at h
  exact h

theorem Expression.ReadBack.of_append
    (hinner : e.inner = left :: right :: (left.inner ++ right.inner)) (h : e.ReadBack g) :
    (left.run g ≠ .ok (.ofInt (-2 ^ 53)) ∧ left.ReadBack g) ∧
      right.run g ≠ .ok (.ofInt (-2 ^ 53)) ∧ right.ReadBack g := by
  unfold ReadBack at h
  rw [hinner, List.forall_mem_cons, List.forall_mem_cons, List.forall_mem_append] at h
  obtain ⟨hleft, hright, hleftInner, hrightInner⟩ := h
  exact ⟨⟨hleft, hleftInner⟩, hright, hrightInner⟩

/-- An intermediate result that is read back enters the next operation as its word. -/
theorem Expression.word_eq_value (h : e.run g ≠ .ok (.ofInt (-2 ^ 53)) ∧ e.ReadBack g)
    (hrun : e.run g = .ok x) (hx : Holds x n) (hvalue : e.ReadBack g → n = e.value.toInt) :
    n ≠ -2 ^ 53 ∧ word n = e.value := by
  obtain ⟨hresult, hinner⟩ := h
  have hlower := hx.lower
  have hupper := hx.upper
  constructor
  · intro hn
    have hmade : x = .ofInt n := Binary64.eq_ofInt_of_integer? hx.integer (by omega) (by omega)
    exact hresult (by rw [hrun, hmade, hn])
  · rw [hvalue hinner]
    exact BitVec.ofInt_toInt

end Steps

theorem Expression.sound (g : Generator) (e : Expression) : e.Sound g := by
  induction e with
  | register x canonical =>
    have hcanonical := canonical
    obtain ⟨n, hinteger, hlower, hupper⟩ := hcanonical
    refine ⟨x, n, rfl, ⟨hinteger, Int.le_of_lt hlower, hupper⟩, nofun, ?_⟩
    intro _
    change n = (word (x.integer?.getD 0)).toInt
    rw [hinteger]
    exact (BitVec.toInt_ofInt_eq_self (by decide) (Int.le_of_lt hlower) hupper).symm
  | gate op left right ihleft ihright =>
    obtain ⟨a, m, hleft, ha, _, hm⟩ := ihleft
    obtain ⟨b, n, hright, hb, _, hn⟩ := ihright
    have hword : ∃ w : BitVec 54, perform g op.opcode [a, b] = .ok (.ofInt w.toInt) ∧
        (m ≠ -2 ^ 53 → n ≠ -2 ^ 53 → w = op.onWords (word m) (word n)) := by
      cases op with
      | and => exact combineBits_word low_and ha hb
      | or => exact combineBits_word low_or ha hb
      | xor => exact combineBits_word low_xor ha hb
      | nor => exact combineBits_word (f := fun v w => ~~~(v ||| w)) low_nor ha hb
    obtain ⟨w, hw, hexact⟩ := hword
    apply sound_of_word (w := w)
    · rw [run, hleft, ok_bind, hright, ok_bind, hw]
    · intro h
      obtain ⟨hleftBack, hrightBack⟩ := h.of_append rfl
      obtain ⟨hmne, hmword⟩ := word_eq_value hleftBack hleft ha hm
      obtain ⟨hnne, hnword⟩ := word_eq_value hrightBack hright hb hn
      rw [hexact hmne hnne, hmword, hnword]
      rfl
  | not operand ih =>
    obtain ⟨a, n, hrun, ha, _, hn⟩ := ih
    obtain ⟨w, hw, hexact⟩ := not_word ha
    apply sound_of_word (w := w)
    · rw [run, hrun, ok_bind, perform_not, hw]
    · intro h
      obtain ⟨hne, hword⟩ := word_eq_value (h.of_cons rfl) hrun ha hn
      rw [hexact hne, hword]
      rfl
  | shift op operand amount fits ih =>
    obtain ⟨a, n, hrun, ha, _, hn⟩ := ih
    have hword : ∃ w : BitVec 54, perform g op.opcode [a, .ofInt amount] = .ok (.ofInt w.toInt) ∧
        (n ≠ -2 ^ 53 → w = op.onWord (word n) (amount % 64)) := by
      rw [perform_shift]
      cases op with
      | sll => exact sll_word ha fits
      | sla => exact sll_word ha fits
      | srl => exact srl_word ha fits
      | sra => exact sra_word ha fits
    obtain ⟨w, hw, hexact⟩ := hword
    apply sound_of_word (w := w)
    · rw [run, hrun, ok_bind, hw]
    · intro h
      obtain ⟨hne, hword⟩ := word_eq_value (h.of_cons rfl) hrun ha hn
      rw [hexact hne, hword]
      rfl
  | ext operand start length valid ih =>
    obtain ⟨a, n, hrun, ha, _, hn⟩ := ih
    obtain ⟨w, hw, hexact⟩ := ext_word ha valid
    apply sound_of_word (w := w)
    · rw [run, hrun, ok_bind, perform_ext, hw]
    · intro h
      obtain ⟨hne, hword⟩ := word_eq_value (h.of_cons rfl) hrun ha hn
      rw [hexact hne, hword]
      rfl
  | ins target start length valid value ihtarget ihvalue =>
    obtain ⟨a, m, htarget, ha, _, hm⟩ := ihtarget
    obtain ⟨b, n, hvalue, hb, _, hn⟩ := ihvalue
    obtain ⟨w, hw, hexact⟩ := ins_word ha hb valid
    apply sound_of_word (w := w)
    · rw [run, htarget, ok_bind, hvalue, ok_bind, perform_ins, hw]
    · intro h
      obtain ⟨htargetBack, hvalueBack⟩ := h.of_append rfl
      obtain ⟨hmne, hmword⟩ := word_eq_value htargetBack htarget ha hm
      obtain ⟨hnne, hnword⟩ := word_eq_value hvalueBack hvalue hb hn
      rw [hexact hmne hnne, hmword, hnword]
      rfl

/-- An expression of bitwise instructions is never refused, and every result is a 54-bit integer in
a register, without a negative zero. If every intermediate result is read back, the last one is the
signed reading of the expression over 54-bit words. -/
theorem Expression.run_eq_signed_word (g : Generator) (e : Expression) :
    ∃ x n, e.run g = .ok x ∧ x.integer? = some n ∧ (-2 ^ 53 ≤ n ∧ n < 2 ^ 53) ∧
      (e.isOperation = true → x ≠ .zero true) ∧ (e.ReadBack g → n = e.value.toInt) := by
  obtain ⟨x, n, hrun, hx, hmade, hvalue⟩ := e.sound g
  have hlower := hx.lower
  have hupper := hx.upper
  refine ⟨x, n, hrun, hx.integer, ⟨hlower, hupper⟩, ?_, hvalue⟩
  intro hoperation
  rw [hmade hoperation]
  exact Binary64.ofInt_ne_negative_zero (by omega)

theorem canonical_five : Canonical (.ofInt 5) :=
  ⟨5, Binary64.integer?_ofInt (by decide), by decide, by decide⟩

/-- The complement of 5, shifted to the right without its sign. -/
def Expression.shiftedComplement : Expression :=
  .shift .srl (.not (.register (.ofInt 5) canonical_five)) 50 (by decide)

theorem Expression.readBack_shiftedComplement : shiftedComplement.ReadBack (.ofSeed 0) := by
  intro e he hrun
  have hresult := congrArg Except.toOption hrun
  simp only [shiftedComplement, inner, List.mem_cons, List.not_mem_nil, or_false] at he
  rcases he with rfl | rfl
  · revert hresult
    decide +kernel
  · revert hresult
    decide +kernel

theorem Expression.run_shiftedComplement :
    shiftedComplement.ReadBack (.ofSeed 0) ∧
      ∃ x, shiftedComplement.run (.ofSeed 0) = .ok x ∧ x.integer? = some 15 := by
  obtain ⟨x, n, hrun, hinteger, _, _, hvalue⟩ := run_eq_signed_word (.ofSeed 0) shiftedComplement
  refine ⟨readBack_shiftedComplement, x, hrun, ?_⟩
  have hword : shiftedComplement.value.toInt = 15 := by decide +kernel
  rw [hinteger, hvalue readBack_shiftedComplement, hword]

end LogicChip.Bitwise

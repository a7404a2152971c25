import LogicChip.Proofs.Machine.Run
import LogicChip.Proofs.Operation.Check

namespace LogicChip

open Check (FirstFailing)

namespace Instruction

/-- The checks of an instruction in the order in which they are made. The target of an insertion is
never checked. -/
def checks (instruction : Instruction) : List Check :=
  let a := instruction.operand 0
  let b := instruction.operand 1
  let c := instruction.operand 2
  let d := instruction.operand 3
  match instruction.opcode with
  | .sll | .sla | .srl | .sra => [.long a, .int32 b]
  | .and | .or | .xor | .nor => [.long a, .long b]
  | .not => [.long a]
  | .ext => [.int32 b, .int32 c, .field b c, .long a]
  | .ins => [.int32 b, .int32 c, .field b c, .long d]
  | _ => []

theorem demands_evaluate (instruction : Instruction) (fraction : Binary64) :
    Demands instruction.checks (instruction.evaluate fraction) := by
  obtain ⟨opcode, slots⟩ := instruction
  cases opcode with
  | sll | sla | srl | sra => exact Bitwise.demands_shiftOperand _ _ _ _
  | and | or | xor | nor => exact Bitwise.demands_combineBits _ _ _
  | not => exact Bitwise.demands_not _
  | ext => exact Bitwise.demands_ext _ _ _
  | ins => exact Bitwise.demands_ins _ _ _ _
  | _ => exact Demands.pure _

/-- Only the second and the third operand are read as a field, after either was read by itself. -/
theorem checks_of_mem_field {instruction : Instruction} {x y : Binary64}
    (h : Check.field x y ∈ instruction.checks) :
    x = instruction.operand 1 ∧ y = instruction.operand 2 ∧
      ∃ others, instruction.checks = .int32 x :: .int32 y :: others := by
  obtain ⟨opcode, slots⟩ := instruction
  cases opcode with
  | ext | ins =>
    simp only [checks, List.mem_cons, List.not_mem_nil, or_false, false_or, reduceCtorEq,
      Check.field.injEq] at h
    exact ⟨h.1, h.2, _, by rw [h.1, h.2]; rfl⟩
  | _ => simp [checks] at h

theorem isBitwise_of_mem_checks {instruction : Instruction} {check : Check}
    (h : check ∈ instruction.checks) : instruction.opcode.isBitwise = true := by
  obtain ⟨opcode, slots⟩ := instruction
  cases opcode with
  | sll | sla | srl | sra | and | or | xor | nor | not | ext | ins => rfl
  | _ => exact absurd h List.not_mem_nil

theorem evaluate_eq_error_iff {instruction : Instruction} {fraction : Binary64} {fault : Fault} :
    instruction.evaluate fraction = .error fault ↔
      ∃ check, FirstFailing instruction.checks check ∧ check.fault = fault :=
  (instruction.demands_evaluate fraction).eq_error_iff

theorem execute_eq_error_iff {instruction : Instruction} {g : Generator} {fault : Fault} :
    (instruction.execute g).1 = .error fault ↔
      ∃ check, FirstFailing instruction.checks check ∧ check.fault = fault := by
  by_cases hrand : instruction.opcode = .rand
  · have hevaluate : ∀ fraction, instruction.evaluate fraction = .ok fraction := by
      intro fraction
      obtain ⟨opcode, slots⟩ := instruction
      cases hrand
      rfl
    rw [execute_rand hrand, ← hevaluate (g.fractionAt 0), evaluate_eq_error_iff]
  · rw [execute_of_ne_rand hrand g 0, evaluate_eq_error_iff]

/-- A refused instruction leaves the generator as it was. -/
theorem execute_of_error {instruction : Instruction} {g : Generator} {fault : Fault}
    (h : (instruction.execute g).1 = .error fault) : (instruction.execute g).2 = g := by
  by_cases hrand : instruction.opcode = .rand
  · rw [execute_rand hrand] at h
    cases h
  · rw [execute_of_ne_rand hrand g 0]

/-- The numbers in the fault of a field are the integer parts of its operands. -/
theorem toInt_of_invalidField {instruction : Instruction} {check : Check} {start length : Int32}
    (h : FirstFailing instruction.checks check)
    (hfault : check.fault = .invalidField start length) :
    start.toInt = (instruction.operand 1).whole ∧ length.toInt = (instruction.operand 2).whole := by
  obtain ⟨x, y, rfl, rfl, rfl⟩ := Check.eq_field_of_fault hfault
  obtain ⟨hx, hy, others, hchecks⟩ := checks_of_mem_field h.mem.1
  rw [hchecks] at h
  obtain ⟨hstart, hlength⟩ := h.accepts_of_field
  rw [Long.toInt_ofInt_whole hstart, Long.toInt_ofInt_whole hlength, hx, hy]
  exact ⟨rfl, rfl⟩

/-- An instruction is refused, with or without a generator, if and only if it is bitwise and one of
its checks fails. The fault is an operand fault, that of the first check that fails, and the
generator is left alone. -/
theorem refused_iff_check_fails (instruction : Instruction) :
    (∀ fraction fault, instruction.evaluate fraction = .error fault ↔
      ∃ check, FirstFailing instruction.checks check ∧ check.fault = fault) ∧
    (∀ g fault, (instruction.execute g).1 = .error fault ↔
      ∃ check, FirstFailing instruction.checks check ∧ check.fault = fault) ∧
    (∀ g fault, (instruction.execute g).1 = .error fault → (instruction.execute g).2 = g) ∧
    ((∃ check, FirstFailing instruction.checks check) ↔
      instruction.opcode.isBitwise = true ∧ ∃ check ∈ instruction.checks, ¬check.Holds) ∧
    ∀ check, FirstFailing instruction.checks check → check.fault.isOperandFault = true ∧
      ∀ start length, check.fault = .invalidField start length →
        start.toInt = (instruction.operand 1).whole ∧
        length.toInt = (instruction.operand 2).whole := by
  refine ⟨fun _ _ => evaluate_eq_error_iff, fun _ _ => execute_eq_error_iff,
    fun _ _ => execute_of_error, ⟨?_, ?_⟩, ?_⟩
  · rintro ⟨check, hfirst⟩
    obtain ⟨hmem, hfails⟩ := hfirst.mem
    exact ⟨isBitwise_of_mem_checks hmem, check, hmem, hfails⟩
  · rintro ⟨_, check, hmem, hfails⟩
    rcases Check.forall_holds_or_exists_firstFailing instruction.checks with hall | hfirst
    · exact absurd (hall check hmem) hfails
    · exact hfirst
  · intro check hfirst
    exact ⟨check.isOperandFault_fault, fun _ _ => toInt_of_invalidField hfirst⟩

/-- A field that goes beyond the low 53 bits is reported before the infinite operand. -/
theorem refused_field_of_infinity :
    let instruction : Instruction := ⟨.ext, #v[.infinity false, .ofInt 50, .ofInt 10, 0]⟩
    let g := Generator.ofValue 1
    FirstFailing instruction.checks (.field (.ofInt 50) (.ofInt 10)) ∧
    (instruction.execute g).1 = .error (.invalidField 50 10) ∧ (instruction.execute g).2 = g := by
  intro instruction g
  have hstart : (Binary64.ofInt 50).whole = 50 := Binary64.whole_ofInt (by decide)
  have hlength : (Binary64.ofInt 10).whole = 10 := Binary64.whole_ofInt (by decide)
  have hchecks : ∀ a b c d : Binary64, (Instruction.mk .ext #v[a, b, c, d]).checks =
      [.int32 b, .int32 c, .field b c, .long a] := fun _ _ _ _ => rfl
  have hfirst : FirstFailing instruction.checks (.field (.ofInt 50) (.ofInt 10)) := by
    rw [hchecks]
    refine .later (Long.acceptsInt32_ofInt (by decide) (by decide)) ?_
    refine .later (Long.acceptsInt32_ofInt (by decide) (by decide)) (.here ?_)
    rw [Check.Holds, hstart, hlength]
    decide
  have hfault : (Check.field (.ofInt 50) (.ofInt 10)).fault = .invalidField 50 10 := by
    rw [Check.fault, hstart, hlength]
    rfl
  obtain ⟨_, hexecute, hkept, _⟩ := refused_iff_check_fails instruction
  have herror := (hexecute g _).2 ⟨_, hfirst, hfault⟩
  exact ⟨hfirst, herror, hkept g _ herror⟩

end Instruction

end LogicChip

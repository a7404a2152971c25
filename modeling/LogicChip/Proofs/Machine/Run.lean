import LogicChip.Machine
import LogicChip.Proofs.Generator.Stream

namespace LogicChip

namespace Instruction

/-- Only `rand` depends on the fraction. -/
theorem evaluate_of_ne_rand {instruction : Instruction} (h : instruction.opcode ≠ .rand)
    (x y : Binary64) : instruction.evaluate x = instruction.evaluate y := by
  obtain ⟨opcode, slots⟩ := instruction
  cases opcode with
  | rand => exact absurd rfl h
  | _ => rfl

theorem execute_rand {instruction : Instruction} (h : instruction.opcode = .rand) (g : Generator) :
    instruction.execute g = (.ok (g.fractionAt 0), g.after 1) := by
  obtain ⟨opcode, slots⟩ := instruction
  cases h
  rfl

theorem execute_of_ne_rand {instruction : Instruction} (h : instruction.opcode ≠ .rand)
    (g : Generator) (fraction : Binary64) :
    instruction.execute g = (instruction.evaluate fraction, g) := by
  unfold execute
  rw [if_neg h, evaluate_of_ne_rand h 0 fraction]

end Instruction

namespace Machine

/-- The number of `rand`s in a program. -/
def rands (program : List Instruction) : Nat :=
  program.countP fun instruction => instruction.opcode = .rand

theorem rands_append (first second : List Instruction) :
    rands (first ++ second) = rands first + rands second :=
  List.countP_append

theorem rands_singleton (instruction : Instruction) :
    rands [instruction] = if instruction.opcode = .rand then 1 else 0 := by
  simp [rands, List.countP_singleton]

/-- From `start` to `finish` a machine has run a program with the given results. -/
structure Ran (program : List Instruction) (results : List (Option Binary64))
    (start finish : Machine) : Prop where
  length_results : results.length = program.length
  /-- A `rand` yields the fraction that stands in the stream where it stands among the `rand`s. -/
  rand : ∀ i (h : i < program.length), program[i].opcode = .rand →
    results[i]? = some (some (start.generator.fractionAt (rands (program.take i))))
  other : ∀ i (h : i < program.length), program[i].opcode ≠ .rand → ∀ fraction,
    results[i]? = some (program[i].evaluate fraction).toOption
  executed : finish.executed = start.executed + UInt64.ofNat program.length
  faults : finish.faults = start.faults + UInt64.ofNat (results.count none)
  log : finish.log.toList =
    start.log.toList ++ if start.config.trace then program.zipWith Step.mk results else []
  generator : finish.generator = start.generator.after (rands program)
  config : finish.config = start.config

theorem Ran.nil (machine : Machine) : Ran [] [] machine machine where
  length_results := rfl
  rand i h := absurd h (Nat.not_lt_zero i)
  other i h := absurd h (Nat.not_lt_zero i)
  executed := (UInt64.add_zero _).symm
  faults := (UInt64.add_zero _).symm
  log := by cases machine.config.trace <;> exact (List.append_nil _).symm
  generator := rfl
  config := rfl

/-- Running a program and then another is running both as one. -/
theorem Ran.append {first second : List Instruction} {results more : List (Option Binary64)}
    {start middle finish : Machine} (hfirst : Ran first results start middle)
    (hsecond : Ran second more middle finish) :
    Ran (first ++ second) (results ++ more) start finish where
  length_results := by
    rw [List.length_append, List.length_append, hfirst.length_results, hsecond.length_results]
  rand i h hrand := by
    have hlength := hfirst.length_results
    rw [List.length_append] at h
    by_cases hi : i < first.length
    · rw [List.getElem_append_left hi] at hrand
      rw [List.getElem?_append_left (by omega), List.take_append_of_le_length (by omega)]
      exact hfirst.rand i hi hrand
    · -- The second program draws where the first one has left the stream.
      rw [List.getElem_append_right (by omega)] at hrand
      have hresult := hsecond.rand (i - first.length) (by omega) hrand
      rw [hfirst.generator, Generator.fractionAt_after, ← rands_append] at hresult
      rw [List.getElem?_append_right (by omega), hlength, List.take_append,
        List.take_of_length_le (by omega), hresult]
  other i h hother fraction := by
    have hlength := hfirst.length_results
    rw [List.length_append] at h
    by_cases hi : i < first.length
    · simp only [List.getElem_append_left hi] at hother ⊢
      rw [List.getElem?_append_left (by omega)]
      exact hfirst.other i hi hother fraction
    · simp only [List.getElem_append_right (Nat.le_of_not_lt hi)] at hother ⊢
      rw [List.getElem?_append_right (by omega), hlength]
      exact hsecond.other (i - first.length) (by omega) hother fraction
  executed := by
    rw [hsecond.executed, hfirst.executed, List.length_append, UInt64.ofNat_add, UInt64.add_assoc]
  faults := by
    rw [hsecond.faults, hfirst.faults, List.count_append, UInt64.ofNat_add, UInt64.add_assoc]
  log := by
    rw [hsecond.log, hfirst.log, hfirst.config, List.append_assoc,
      List.zipWith_append hfirst.length_results.symm]
    split
    · rfl
    · rw [List.append_nil]
  generator := by
    rw [hsecond.generator, hfirst.generator, ← Generator.after_add, rands_append]
  config := hsecond.config.trans hfirst.config

theorem step_result (instruction : Instruction) (machine : Machine) :
    (machine.step instruction).1 = (instruction.execute machine.generator).1.toOption := rfl

theorem step_generator (instruction : Instruction) (machine : Machine) :
    (machine.step instruction).2.generator = (instruction.execute machine.generator).2 := rfl

theorem ran_step (instruction : Instruction) (machine : Machine) :
    Ran [instruction] [(machine.step instruction).1] machine (machine.step instruction).2 where
  length_results := rfl
  rand i h hrand := by
    obtain rfl : i = 0 := Nat.lt_one_iff.1 h
    have hopcode : instruction.opcode = .rand := hrand
    rw [step_result, Instruction.execute_rand hopcode]
    rfl
  other i h hother fraction := by
    obtain rfl : i = 0 := Nat.lt_one_iff.1 h
    have hopcode : instruction.opcode ≠ .rand := hother
    rw [step_result, Instruction.execute_of_ne_rand hopcode machine.generator fraction]
    rfl
  executed := rfl
  faults := by
    have hfaults : (machine.step instruction).2.faults =
        if (machine.step instruction).1.isNone then machine.faults + 1 else machine.faults := rfl
    rw [hfaults]
    cases (machine.step instruction).1 with
    | none => rfl
    | some x => exact (UInt64.add_zero _).symm
  log := by
    have hlog : (machine.step instruction).2.log =
        if machine.config.trace then machine.log.push ⟨instruction, (machine.step instruction).1⟩
        else machine.log := rfl
    rw [hlog]
    split
    · exact Array.toList_push
    · exact (List.append_nil _).symm
  generator := by
    rw [step_generator, rands_singleton]
    split
    · rename_i hrand
      rw [Instruction.execute_rand hrand]
    · rename_i hother
      rw [Instruction.execute_of_ne_rand hother machine.generator 0]
      rfl
  config := rfl

theorem ran_run (program : List Instruction) (machine : Machine) :
    Ran program (machine.run program).1 machine (machine.run program).2 := by
  induction program generalizing machine with
  | nil => exact Ran.nil machine
  | cons instruction rest ih =>
    exact (ran_step instruction machine).append (ih (machine.step instruction).2)

inductive Call where
  | step (instruction : Instruction)
  | run (program : List Instruction)

def Call.program : Call → List Instruction
  | .step instruction => [instruction]
  | .run program => program

def call : Call → Machine → List (Option Binary64) × Machine
  | .step instruction, machine =>
    let (result?, machine) := machine.step instruction
    ([result?], machine)
  | .run program, machine => machine.run program

/-- Makes calls in order and collects their results. -/
def calls : List Call → Machine → List (Option Binary64) × Machine
  | [], machine => ([], machine)
  | next :: rest, machine =>
    let (results, machine) := machine.call next
    let (more, machine) := machine.calls rest
    (results ++ more, machine)

theorem ran_call (next : Call) (machine : Machine) :
    Ran next.program (machine.call next).1 machine (machine.call next).2 := by
  cases next with
  | step instruction => exact ran_step instruction machine
  | run program => exact ran_run program machine

/-- Calls run the instructions of all of them as one program. -/
theorem ran_calls (sequence : List Call) (machine : Machine) :
    Ran (sequence.flatMap Call.program) (machine.calls sequence).1 machine
      (machine.calls sequence).2 := by
  induction sequence generalizing machine with
  | nil => exact Ran.nil machine
  | cons next rest ih =>
    rw [List.flatMap_cons]
    exact (ran_call next machine).append (ih (machine.call next).2)

/-- A new machine with a seed, whatever it is asked to run, gives the `rand`s the fractions of a
fresh generator's stream in order and evaluates every other instruction by itself. It counts the
instructions and the refusals, logs the steps if it traces, and has drawn from its generator as
often as there were `rand`s. -/
theorem calls_new (seed : Binary64) (trace : Bool) (entropy : UInt32) (context : SeedContext)
    (sequence : List Call) (hcount : (sequence.flatMap Call.program).length < 2 ^ 64) :
    let program := sequence.flatMap Call.program
    let start := (Machine.new ⟨some seed, trace⟩ entropy context).1
    let results := (start.calls sequence).1
    let finish := (start.calls sequence).2
    results.length = program.length ∧
      (∀ i (h : i < program.length), program[i].opcode = .rand → results[i]? =
        some (some ((Generator.ofValue seed).fractionAt (rands (program.take i))))) ∧
      (∀ i (h : i < program.length), program[i].opcode ≠ .rand → ∀ fraction,
        results[i]? = some (program[i].evaluate fraction).toOption) ∧
      finish.executed.toNat = program.length ∧
      finish.faults.toNat = results.count none ∧
      finish.log.toList = (if trace then program.zipWith Step.mk results else []) ∧
      finish.generator = (Generator.ofValue seed).after (rands program) := by
  intro program start results finish
  have hran : Ran program results start finish := ran_calls sequence start
  have hlength := hran.length_results
  have hexecuted : program.length < 2 ^ 64 := hcount
  have hfaults : results.count none < 2 ^ 64 := by
    have hle : results.count none ≤ results.length := List.count_le_length
    omega
  refine ⟨hlength, hran.rand, hran.other, ?_, ?_, ?_, hran.generator⟩
  · rw [hran.executed]
    change (0 + UInt64.ofNat program.length).toNat = program.length
    rw [UInt64.zero_add, UInt64.toNat_ofNat_of_lt' hexecuted]
  · rw [hran.faults]
    change (0 + UInt64.ofNat (results.count none)).toNat = results.count none
    rw [UInt64.zero_add, UInt64.toNat_ofNat_of_lt' hfaults]
  · rw [hran.log]
    exact List.nil_append _

/-- Between two draws a shift of an infinite value is refused, and the generator is left alone. -/
theorem calls_draws_around_refusal :
    let draw : Instruction := ⟨.rand, Vector.replicate 4 0⟩
    let refused : Instruction := ⟨.sll, Vector.replicate 4 (.infinity false)⟩
    let sequence : List Call := [.step draw, .run [refused, draw]]
    let start := (Machine.new ⟨some 1, true⟩ 0 .empty).1
    (sequence.flatMap Call.program).length < 2 ^ 64 ∧ (start.calls sequence).1[1]? = some none ∧
      (start.calls sequence).2.executed.toNat = 3 ∧
      (start.calls sequence).2.generator = (Generator.ofValue 1).after 2 := by
  intro draw refused sequence start
  have hcount : (sequence.flatMap Call.program).length < 2 ^ 64 := by decide
  obtain ⟨_, _, hother, hexecuted, _, _, hgenerator⟩ := calls_new 1 true 0 .empty sequence hcount
  have hrefused : (refused.evaluate 0).toOption = none := rfl
  have hresult := hother 1 (by decide) (by decide) 0
  exact ⟨hcount, hresult.trans (congrArg some hrefused), hexecuted, hgenerator⟩

end Machine

end LogicChip

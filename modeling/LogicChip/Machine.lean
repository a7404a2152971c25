import LogicChip.Execution
import LogicChip.Generator.SeedContext

namespace LogicChip

namespace Machine

/-- How a machine is set up. -/
structure Config where
  /-- The seed of the machine's generator; without one a seed is drawn from a context. -/
  seed? : Option Binary64
  /-- Whether steps are logged. -/
  trace : Bool
deriving DecidableEq

/-- An instruction that was run, and its value unless it was refused. -/
structure Step where
  instruction : Instruction
  result? : Option Binary64
deriving DecidableEq

end Machine

/-- A machine between two instructions, with a generator of its own. The log holds the steps of a
machine that traces them. -/
structure Machine where
  config : Machine.Config
  generator : Generator
  /-- The number of instructions run, refused ones included. -/
  executed : UInt64
  /-- The number of instructions refused. -/
  faults : UInt64
  log : Array Machine.Step
deriving DecidableEq

namespace Machine

/-- A new machine. A seed is drawn from the context only where the setup has none. -/
def new (config : Config) (entropy : UInt32) (context : SeedContext) : Machine × SeedContext :=
  let (generator, context) :=
    match config.seed? with
    | some seed => (.ofValue seed, context)
    | none => context.nextGenerator entropy
  ({ config, generator, executed := 0, faults := 0, log := #[] }, context)

/-- Runs one instruction. One that is refused yields no value and is counted. -/
def step (instruction : Instruction) (machine : Machine) : Option Binary64 × Machine :=
  let (outcome, generator) := instruction.execute machine.generator
  let result? := outcome.toOption
  (result?,
    { machine with
      generator
      executed := machine.executed + 1
      faults := if result?.isNone then machine.faults + 1 else machine.faults
      log := if machine.config.trace then machine.log.push ⟨instruction, result?⟩ else machine.log })

/-- Runs the instructions of a program in order. -/
def run : List Instruction → Machine → List (Option Binary64) × Machine
  | [], machine => ([], machine)
  | instruction :: rest, machine =>
    let (result?, machine) := machine.step instruction
    let (results, machine) := machine.run rest
    (result? :: results, machine)

end Machine

end LogicChip

import LogicChip.Machine
import LogicChip.Proofs.Generator.Cursors
import LogicChip.Proofs.Machine.Run

namespace LogicChip

open Binary64 (Saturates truncates_iff)
open Generator (ofSeed ofValue seedOf intAt fractionAt after IsResidue)

/-- Something with a generator of its own. -/
inductive Member where
  | generator (g : Generator)
  | machine (m : Machine)

inductive Member.Kind where
  | generator
  | machine

/-- What a member is asked for. -/
inductive Use where
  | int
  | fraction
  | step (instruction : Instruction)

/-- What is done with a population. The entropies are what the surroundings would provide. -/
inductive Action where
  | nextSeed (entropy : UInt32)
  | makeGenerator (entropy : UInt32)
  | makeMachine (config : Machine.Config) (entropy : UInt32)
  | reset (seed : Binary64)
  /-- The use of a member by its place in the order in which members were made. -/
  | use (place : Nat) (how : Use)

/-- The seed that an action gives to the root. -/
def Action.seeding? : Action → Option Binary64
  | reset seed => some seed
  | _ => none

/-- Actions that take a seed from the root. A machine with a seed of its own takes none. -/
def Action.takesSeed : Action → Bool
  | nextSeed _ | makeGenerator _ | makeMachine ⟨none, _⟩ _ => true
  | _ => false

/-- What an action is answered with. A new member answers with its seed. -/
inductive Answer where
  | nothing
  | seed (seed : Int32)
  | int (draw : Int32)
  | value (x? : Option Binary64)

/-- Takes actions in order and collects the answers. -/
def answersAfter {σ : Type} (perform : Action → σ → Answer × σ) :
    List Action → σ → List Answer × σ
  | [], state => ([], state)
  | action :: rest, state =>
    let (answer, state) := perform action state
    let (answers, state) := answersAfter perform rest state
    (answer :: answers, state)

theorem answersAfter_append {σ : Type} (perform : Action → σ → Answer × σ)
    (first second : List Action) (state : σ) : (answersAfter perform (first ++ second) state).2 =
      (answersAfter perform second (answersAfter perform first state).2).2 := by
  induction first generalizing state with
  | nil => rfl
  | cons action rest ih => exact ih (perform action state).2

/-- A step that keeps two states related and answers alike makes a run do so. -/
theorem answersAfter_related {σ τ : Type} {performFirst : Action → σ → Answer × σ}
    {performSecond : Action → τ → Answer × τ} {Related : σ → τ → Prop}
    (hstep : ∀ action s t, Related s t → (performFirst action s).1 = (performSecond action t).1 ∧
      Related (performFirst action s).2 (performSecond action t).2)
    (actions : List Action) {s : σ} {t : τ} (h : Related s t) :
    (answersAfter performFirst actions s).1 = (answersAfter performSecond actions t).1 ∧
      Related (answersAfter performFirst actions s).2 (answersAfter performSecond actions t).2 := by
  induction actions generalizing s t with
  | nil => exact ⟨rfl, h⟩
  | cons action rest ih =>
    obtain ⟨hanswer, hnext⟩ := hstep action s t h
    obtain ⟨hanswers, hfinish⟩ := ih hnext
    exact ⟨congrArg₂ List.cons hanswer hanswers, hfinish⟩

namespace Member

def kind : Member → Kind
  | generator _ => .generator
  | machine _ => .machine

/-- The generator that a member draws from. -/
def source : Member → Generator
  | generator g => g
  | machine m => m.generator

/-- Generators are drawn from and machines run instructions. Anything else is without effect. -/
def use : Use → Member → Answer × Member
  | .int, generator g =>
    let (draw, g) := g.nextInt
    (.int draw, generator g)
  | .fraction, generator g =>
    let (x, g) := g.nextFraction
    (.value (some x), generator g)
  | .step instruction, machine m =>
    let (x?, m) := m.step instruction
    (.value x?, machine m)
  | _, member => (.nothing, member)

end Member

/-- A seed context with the members made from it. -/
structure Population where
  context : SeedContext
  members : List Member

namespace Population

def seeded (seed : Binary64) : Population := ⟨.seeded seed, []⟩

def perform : Action → Population → Answer × Population
  | .nextSeed entropy, population =>
    let (seed, context) := population.context.nextSeed entropy
    (.seed seed, { population with context })
  | .makeGenerator entropy, population =>
    let (g, context) := population.context.nextGenerator entropy
    (.seed g.seed, ⟨context, population.members ++ [.generator g]⟩)
  | .makeMachine config entropy, population =>
    let (m, context) := Machine.new config entropy population.context
    (.seed m.generator.seed, ⟨context, population.members ++ [.machine m]⟩)
  | .reset seed, population =>
    (.nothing, { population with context := population.context.reset (some seed) })
  | .use place how, population =>
    match population.members[place]? with
    | none => (.nothing, population)
    | some member =>
      let (answer, member) := member.use how
      (answer, { population with members := population.members.set place member })

end Population

/-- What is on record of a member: its own seed and how often it was drawn from. -/
structure Entry where
  kind : Member.Kind
  seed : Int32
  drawn : Nat

namespace Entry

/-- How a member answers, told from a fresh generator with its seed. -/
def answer : Use → Entry → Answer
  | .int, ⟨.generator, seed, drawn⟩ => .int (intAt drawn (ofSeed seed))
  | .fraction, ⟨.generator, seed, drawn⟩ => .value (some (fractionAt drawn (ofSeed seed)))
  | .step instruction, ⟨.machine, seed, drawn⟩ =>
    .value (if instruction.opcode = .rand then some (fractionAt drawn (ofSeed seed))
      else (instruction.evaluate 0).toOption)
  | _, _ => .nothing

/-- The number of draws that a use takes. -/
def draws : Use → Member.Kind → Nat
  | .int, .generator | .fraction, .generator => 1
  | .step instruction, .machine => if instruction.opcode = .rand then 1 else 0
  | _, _ => 0

end Entry

/-- What is on record of a population: the seed that its root was last given, how many seeds were
taken from the root since, and its members. -/
structure Ledger where
  seeding : Binary64
  taken : Nat
  entries : List Entry

namespace Ledger

def start (seed : Binary64) : Ledger := ⟨seed, 0, []⟩

/-- The seed that the root gives next. -/
def nextSeed (ledger : Ledger) : Int32 := intAt ledger.taken (ofValue ledger.seeding)

def perform : Action → Ledger → Answer × Ledger
  | .nextSeed _, ledger => (.seed ledger.nextSeed, { ledger with taken := ledger.taken + 1 })
  | .makeGenerator _, ledger =>
    (.seed ledger.nextSeed,
      { ledger with
        taken := ledger.taken + 1
        entries := ledger.entries ++ [⟨.generator, ledger.nextSeed, 0⟩] })
  | .makeMachine ⟨none, _⟩ _, ledger =>
    (.seed ledger.nextSeed,
      { ledger with
        taken := ledger.taken + 1
        entries := ledger.entries ++ [⟨.machine, ledger.nextSeed, 0⟩] })
  | .makeMachine ⟨some seed, _⟩ _, ledger =>
    (.seed (seedOf seed), { ledger with entries := ledger.entries ++ [⟨.machine, seedOf seed, 0⟩] })
  | .reset seed, ledger => (.nothing, { ledger with seeding := seed, taken := 0 })
  | .use place how, ledger =>
    match ledger.entries[place]? with
    | none => (.nothing, ledger)
    | some entry =>
      let drawn := entry.drawn + Entry.draws how entry.kind
      (entry.answer how, { ledger with entries := ledger.entries.set place { entry with drawn } })

end Ledger

/-- The state of a member that an entry is about. -/
def Entry.source (entry : Entry) : Generator := (ofSeed entry.seed).after entry.drawn

/-- A ledger that is right about a population. -/
structure Records (population : Population) (ledger : Ledger) : Prop where
  root : population.context.root? = some ((ofValue ledger.seeding).after ledger.taken)
  members : population.members.map (fun member => (member.kind, member.source)) =
    ledger.entries.map fun entry => (entry.kind, entry.source)

theorem Records.start (seed : Binary64) : Records (.seeded seed) (.start seed) := ⟨rfl, rfl⟩

/-- A member answers as its entry says and has drawn as often afterwards. -/
theorem Member.use_of_source {member : Member} {entry : Entry} (hkind : member.kind = entry.kind)
    (hsource : member.source = entry.source) (how : Use) :
    (member.use how).1 = entry.answer how ∧ (member.use how).2.kind = entry.kind ∧
      (member.use how).2.source = entry.source.after (Entry.draws how entry.kind) := by
  obtain ⟨kind, seed, drawn⟩ := entry
  cases member with
  | generator g =>
    cases hkind
    cases hsource
    cases how with
    | int => exact ⟨rfl, rfl, rfl⟩
    | fraction => exact ⟨rfl, rfl, rfl⟩
    | step instruction => exact ⟨rfl, rfl, rfl⟩
  | machine m =>
    cases hkind
    cases how with
    | int => exact ⟨rfl, rfl, hsource⟩
    | fraction => exact ⟨rfl, rfl, hsource⟩
    | step instruction =>
      change Answer.value (m.step instruction).1 = _ ∧ _ ∧ (m.step instruction).2.generator = _
      change m.generator = _ at hsource
      rw [Machine.step_result, Machine.step_generator, hsource]
      by_cases hrand : instruction.opcode = .rand
      · rw [Instruction.execute_rand hrand, Entry.answer, if_pos hrand, Entry.draws, if_pos hrand]
        exact ⟨rfl, rfl, rfl⟩
      · rw [Instruction.execute_of_ne_rand hrand _ 0, Entry.answer, if_neg hrand, Entry.draws,
          if_neg hrand]
        exact ⟨rfl, rfl, rfl⟩

namespace Records

variable {population : Population} {ledger : Ledger}

/-- The root gives the seed that the ledger expects and counts as drawn once more. -/
theorem nextSeed (h : Records population ledger) (entropy : UInt32) :
    population.context.nextSeed entropy =
      (ledger.nextSeed, ⟨some ((ofValue ledger.seeding).after (ledger.taken + 1))⟩) := by
  unfold SeedContext.nextSeed
  rw [h.root, Generator.after_succ]
  rfl

theorem nextGenerator (h : Records population ledger) (entropy : UInt32) :
    population.context.nextGenerator entropy = (ofSeed ledger.nextSeed,
      ⟨some ((ofValue ledger.seeding).after (ledger.taken + 1))⟩) := by
  unfold SeedContext.nextGenerator
  rw [h.nextSeed]

/-- A new member is one more entry that nothing was drawn from yet. -/
theorem append (h : Records population ledger) {context : SeedContext} {member : Member}
    {taken : Nat} {entry : Entry}
    (hroot : context.root? = some ((ofValue ledger.seeding).after taken))
    (hkind : member.kind = entry.kind) (hsource : member.source = entry.source) :
    Records ⟨context, population.members ++ [member]⟩
      { ledger with taken, entries := ledger.entries ++ [entry] } where
  root := hroot
  members := by
    rw [List.map_append, List.map_append, h.members, List.map_singleton, List.map_singleton, hkind,
      hsource]

theorem set (h : Records population ledger) {place : Nat} {member : Member} {entry : Entry}
    (hkind : member.kind = entry.kind) (hsource : member.source = entry.source) :
    Records { population with members := population.members.set place member }
      { ledger with entries := ledger.entries.set place entry } where
  root := h.root
  members := by rw [List.map_set, List.map_set, h.members, hkind, hsource]

/-- The member at a place is the one that the entry at this place is about. -/
theorem getElem? (h : Records population ledger) (place : Nat) :
    (population.members[place]? = none ∧ ledger.entries[place]? = none) ∨
      ∃ member entry, population.members[place]? = some member ∧
        ledger.entries[place]? = some entry ∧ member.kind = entry.kind ∧
          member.source = entry.source := by
  have hplace := congrArg (fun list => list[place]?) h.members
  simp only [List.getElem?_map] at hplace
  cases hmember : population.members[place]? with
  | none =>
    rw [hmember] at hplace
    exact .inl ⟨rfl, Option.map_eq_none_iff.1 hplace.symm⟩
  | some member =>
    rw [hmember] at hplace
    obtain ⟨entry, hentry, heq⟩ := Option.map_eq_some_iff.1 hplace.symm
    obtain ⟨hkind, hsource⟩ := Prod.mk.inj heq
    exact .inr ⟨member, entry, rfl, hentry, hkind.symm, hsource.symm⟩

/-- An action is answered as the ledger says, and the ledger stays right. -/
theorem perform (action : Action) (population : Population) (ledger : Ledger)
    (h : Records population ledger) :
    (population.perform action).1 = (ledger.perform action).1 ∧
      Records (population.perform action).2 (ledger.perform action).2 := by
  cases action with
  | nextSeed entropy =>
    simp only [Population.perform, h.nextSeed]
    exact ⟨rfl, rfl, h.members⟩
  | makeGenerator entropy =>
    simp only [Population.perform, h.nextGenerator]
    exact ⟨rfl, h.append rfl rfl rfl⟩
  | makeMachine config entropy =>
    obtain ⟨seed?, trace⟩ := config
    cases seed? with
    | none =>
      simp only [Population.perform, Machine.new, h.nextGenerator]
      exact ⟨rfl, h.append rfl rfl rfl⟩
    | some seed => exact ⟨rfl, h.append h.root rfl rfl⟩
  | reset seed => exact ⟨rfl, rfl, h.members⟩
  | use place how =>
    rcases h.getElem? place with
      ⟨hmember, hentry⟩ | ⟨member, entry, hmember, hentry, hkind, hsource⟩
    · simp only [Population.perform, Ledger.perform, hmember, hentry]
      exact ⟨trivial, h⟩
    · obtain ⟨hanswer, hkind, hdrawn⟩ := Member.use_of_source hkind hsource how
      simp only [Population.perform, Ledger.perform, hmember, hentry]
      refine ⟨hanswer, h.set hkind ?_⟩
      rw [hdrawn, Entry.source, Entry.source, Generator.after_add]

end Records

namespace Ledger

theorem seeding_perform {action : Action} (h : action.seeding? = none) (ledger : Ledger) :
    (ledger.perform action).2.seeding = ledger.seeding ∧
      (ledger.perform action).2.taken = ledger.taken + if action.takesSeed then 1 else 0 := by
  cases action with
  | nextSeed entropy => exact ⟨rfl, rfl⟩
  | makeGenerator entropy => exact ⟨rfl, rfl⟩
  | makeMachine config entropy =>
    obtain ⟨seed?, trace⟩ := config
    cases seed? with
    | none => exact ⟨rfl, rfl⟩
    | some seed => exact ⟨rfl, rfl⟩
  | reset seed => cases h
  | use place how =>
    unfold perform
    dsimp only
    split
    · exact ⟨rfl, rfl⟩
    · exact ⟨rfl, rfl⟩

/-- As long as the root is not given another seed, the seeds taken from it are counted. -/
theorem seeding_answersAfter {since : List Action} (h : ∀ action ∈ since, action.seeding? = none)
    (ledger : Ledger) :
    (answersAfter perform since ledger).2.seeding = ledger.seeding ∧
      (answersAfter perform since ledger).2.taken =
        ledger.taken + since.countP Action.takesSeed := by
  induction since generalizing ledger with
  | nil => exact ⟨rfl, rfl⟩
  | cons action rest ih =>
    obtain ⟨hseeding, htaken⟩ := seeding_perform (h action List.mem_cons_self) ledger
    obtain ⟨hseedings, htakens⟩ :=
      ih (fun a ha => h a (List.mem_cons_of_mem _ ha)) (ledger.perform action).2
    refine ⟨hseedings.trans hseeding, htakens.trans ?_⟩
    rw [htaken, List.countP_cons]
    omega

end Ledger

/-- Whatever is done with a seeded context and what is made from it is answered as the ledger says:
seeds are the draws of a fresh generator with the seed that the root was last given, counted since
then, and every member draws the stream of a fresh generator with its own seed. A seed that is given
as a value is cut to an integer and brought into 32 bits. -/
theorem answers_seeded (seed : Binary64) (actions : List Action) :
    let ran := answersAfter Population.perform actions (.seeded seed)
    let told := answersAfter Ledger.perform actions (.start seed)
    ran.1 = told.1 ∧ Records ran.2 told.2 ∧
      ran.2.context.rootSeed? = some (seedOf told.2.seeding) ∧
      (∀ x n, Saturates (-2 ^ 31) (2 ^ 31 - 1) x n ↔ n = (seedOf x).toInt) ∧
      IsResidue told.2.nextSeed ∧
      ∀ before s since, .reset seed :: actions = before ++ .reset s :: since →
        (∀ action ∈ since, action.seeding? = none) →
        told.2.seeding = s ∧ told.2.taken = since.countP Action.takesSeed := by
  intro ran told
  have hrun : ran.1 = told.1 ∧ Records ran.2 told.2 :=
    answersAfter_related Records.perform actions (Records.start seed)
  obtain ⟨hanswers, hrecords⟩ := hrun
  have hroot : ran.2.context.rootSeed? = some (seedOf told.2.seeding) := by
    rw [SeedContext.rootSeed?, hrecords.root, Option.map_some, Generator.seed_after]
    rfl
  refine ⟨hanswers, hrecords, hroot, fun _ _ => Generator.saturates_seedOf_iff, ?_, ?_⟩
  · exact Generator.isResidue_intAt (Generator.inRange_ofSeed _) _
  · intro before s since hsplit hsince
    -- The first seed counts as a reset, so that there is always a last one.
    have htold : told.2 =
        (answersAfter Ledger.perform (.reset seed :: actions) (.start seed)).2 := rfl
    rw [htold, hsplit, answersAfter_append]
    obtain ⟨hseeding, htaken⟩ := Ledger.seeding_answersAfter hsince
      ((answersAfter Ledger.perform before (.start seed)).2.perform (.reset s)).2
    exact ⟨hseeding, htaken.trans (Nat.zero_add _)⟩

/-- A generator goes on with its stream after the root that it was seeded from is given a seed. That
seed is too large and counts as the greatest; a machine with a seed of minus infinity has the
least. -/
theorem answers_seeded_around_reset :
    let before : List Action := [.makeGenerator 0, .use 0 .int]
    let since : List Action :=
      [.nextSeed 0, .use 0 .int, .makeMachine ⟨some (.infinity true), false⟩ 0]
    let great : Binary64 := .ofInt (2 ^ 40)
    let ran := answersAfter Population.perform (before ++ .reset great :: since) (.seeded 3)
    let first := intAt 0 (ofSeed 3)
    ran.1 = [.seed first, .int (intAt 0 (ofSeed first)), .nothing,
        .seed (intAt 0 (ofSeed 2147483647)), .int (intAt 1 (ofSeed first)),
        .seed (-2147483648)] ∧
      ran.2.context.rootSeed? = some 2147483647 := by
  intro before since great ran first
  obtain ⟨hanswers, -, hroot, hclamped, -, hlast⟩ :=
    answers_seeded 3 (before ++ .reset great :: since)
  have hsince : ∀ action ∈ since, action.seeding? = none := by simp [since, Action.seeding?]
  obtain ⟨hseeding, -⟩ := hlast (.reset 3 :: before) great since rfl hsince
  have hseed : ∀ {x : Binary64} {seed : Int32},
      Saturates (-2 ^ 31) (2 ^ 31 - 1) x seed.toInt → seedOf x = seed := fun h =>
    Int32.toInt_inj.1 ((hclamped _ _).1 h).symm
  have hsmall : seedOf 3 = 3 := hseed <|
    .within (truncates_iff.2 (Binary64.truncated?_ofInt (n := 3) (by decide))) (by decide)
      (by decide)
  have hgreat : seedOf great = 2147483647 := hseed <|
    .above (truncates_iff.2 (Binary64.truncated?_ofInt (n := 2 ^ 40) (by decide))) (by decide)
  have hleast : seedOf (.infinity true) = -2147483648 := hseed (.infinity true)
  refine ⟨hanswers.trans ?_, by rw [hroot, hseeding, hgreat]⟩
  simp [before, since, first, answersAfter, Ledger.perform, Ledger.start, Ledger.nextSeed,
    Entry.answer, Entry.draws, Generator.ofValue, hsmall, hgreat, hleast]

end LogicChip

import LogicChip.Generator.Seeding

namespace LogicChip

/-- A root generator whose draws seed other generators, if there is one yet. -/
structure SeedContext where
  root? : Option Generator
deriving DecidableEq

namespace SeedContext

/-- A context whose root is made of the surroundings' entropy on first use. -/
def empty : SeedContext := ⟨none⟩

/-- A context whose root has the given seed. -/
def seeded (seed : Binary64) : SeedContext := ⟨some (.ofValue seed)⟩

/-- The root generator made from a word of entropy. Its seed is not negative. -/
def rootOfEntropy (entropy : UInt32) : Generator := .ofSeed (entropy >>> 1).toInt32

/-- Draws the seed of a new generator. The entropy counts only if there is no root yet. -/
def nextSeed (entropy : UInt32) (context : SeedContext) : Int32 × SeedContext :=
  let (seed, root) := (context.root?.getD (rootOfEntropy entropy)).nextInt
  (seed, ⟨some root⟩)

/-- A new generator seeded from the root. -/
def nextGenerator (entropy : UInt32) (context : SeedContext) : Generator × SeedContext :=
  let (seed, context) := context.nextSeed entropy
  (.ofSeed seed, context)

/-- Replaces the root by one with the given seed, or discards it. Generators made so far keep their
states. -/
def reset (seed? : Option Binary64) (_ : SeedContext) : SeedContext := ⟨seed?.map .ofValue⟩

/-- The seed of the root. -/
def rootSeed? (context : SeedContext) : Option Int32 := context.root?.map Generator.seed

end SeedContext

end LogicChip

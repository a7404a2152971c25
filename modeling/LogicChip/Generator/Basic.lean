import LogicChip.Binary64.Arithmetic

namespace LogicChip

/-- The state of a subtractive lagged Fibonacci generator. The cursors of the last draw run around
slots 1 to 55; slot 0 is never reached from them. -/
structure Generator where
  /-- The seed that the generator was made from. -/
  seed : Int32
  /-- The slot that the last draw replaced. -/
  target : Fin 56
  /-- The slot that the last draw subtracted. -/
  partner : Fin 56
  slots : Vector Int32 56
  /-- The number of draws so far, modulo `2 ^ 64`. -/
  drawn : UInt64
deriving DecidableEq

namespace Generator

-- Slots are named by literals.
instance instNeZeroSlots : @NeZero Nat Zero.ofOfNat0 56 := ⟨Nat.succ_ne_zero 55⟩

/-- The modulus of the draws, `2 ^ 31 - 1`. -/
def modulus : Int32 := 2147483647

/-- Brings a difference of two residues back into range by adding the modulus to it if it is
negative. -/
def wrapUp (difference : Int32) : Int32 :=
  if difference < 0 then difference + modulus else difference

/-- The value that a draw makes of a difference. The modulus itself, which is no residue, first
gives way to the word below it. -/
def residue (difference : Int32) : Int32 :=
  wrapUp (if difference = modulus then difference - 1 else difference)

/-- The next position of a cursor: after slot 55 comes slot 1. -/
def advance (cursor : Fin 56) : Fin 56 :=
  if h : cursor.val + 1 < 56 then ⟨cursor.val + 1, h⟩ else 1

/-- Draws an integer. -/
def nextInt (g : Generator) : Int32 × Generator :=
  let target := advance g.target
  let partner := advance g.partner
  let value := residue (g.slots[target] - g.slots[partner])
  (value, { g with target, partner, slots := g.slots.set target value, drawn := g.drawn + 1 })

/-- A draw as a fraction of the modulus. -/
def fraction (draw : Int32) : Binary64 := .ofInt draw.toInt / .ofInt modulus.toInt

/-- Draws a fraction. -/
def nextFraction (g : Generator) : Binary64 × Generator :=
  let (draw, g) := g.nextInt
  (fraction draw, g)

/-- Draws a number of integers. -/
def ints : Nat → Generator → List Int32 × Generator
  | 0, g => ([], g)
  | n + 1, g =>
    let (draw, g) := g.nextInt
    let (rest, g) := ints n g
    (draw :: rest, g)

end Generator

end LogicChip

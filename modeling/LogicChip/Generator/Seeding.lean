import LogicChip.Binary64.Integral
import LogicChip.Generator.Basic

namespace LogicChip.Generator

/-- The constant that the magnitude of the seed is subtracted from. -/
def origin : Int32 := 161803398

/-- The magnitude of a seed. The least word has none; it counts as the greatest. -/
def magnitude (seed : Int32) : Int32 :=
  if seed = Int32.minValue then modulus else if seed < 0 then -seed else seed

-- Places of terms are named by literals.
instance instNeZeroPlaces : @NeZero Nat Zero.ofOfNat0 55 := ⟨Nat.succ_ne_zero 54⟩

/-- Writes the running subtraction of `a` and `b` into the slots, from `b` on: each term goes 21
places past the one before, around the first 55 slots. -/
def scatter : Nat → Fin 55 → Int32 → Int32 → Vector Int32 56 → Vector Int32 56
  | 0, _, _, _, slots => slots
  | n + 1, place, a, b, slots =>
    let place := place + 21
    scatter n place b (wrapUp (a - b)) (slots.set place.castSucc b)

/-- The slots with the start of the running subtraction in the last one, and zeros in the others. -/
def unfilled (start : Int32) : Vector Int32 56 := (Vector.replicate 56 0).set (Fin.last 55) start

/-- The slots before mixing. The running subtraction starts in the last slot and goes on through
slots 1 to 54; slot 0 holds zero. -/
def filled (seed : Int32) : Vector Int32 56 :=
  let start := origin - magnitude seed
  scatter 54 0 start 1 (unfilled start)

/-- Subtracts from slot `k + 1` the slot 31 places on, around the 55. -/
def mixSlot (slots : Vector Int32 56) (k : Fin 55) : Vector Int32 56 :=
  let target : Fin 56 := k.succ
  let other : Fin 56 := ⟨1 + (k.val + 31) % 55, by omega⟩
  slots.set target (wrapUp (slots[target] - slots[other]))

/-- One pass over slots 1 to 55, in place. -/
def mix (slots : Vector Int32 56) : Vector Int32 56 := (List.finRange 55).foldl mixSlot slots

/-- The generator with a 32-bit seed. The sign of the seed plays no part. -/
def ofSeed (seed : Int32) : Generator where
  seed
  target := 0
  partner := 21
  slots := mix (mix (mix (mix (filled seed))))
  drawn := 0

/-- A register value as a seed: its integer part, brought into the range of a 32-bit word. NaN seeds
as zero. -/
def seedOf (x : Binary64) : Int32 := Int32.ofInt (x.clamped (-2 ^ 31) (2 ^ 31 - 1))

/-- The generator seeded by a register value. -/
def ofValue (x : Binary64) : Generator := ofSeed (seedOf x)

end LogicChip.Generator

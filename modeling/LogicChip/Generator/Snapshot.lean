import LogicChip.Generator.Basic
import LogicChip.Text.Digits

namespace LogicChip.Generator

/-- The parts of a generator as plain data, without the bounds on them. -/
structure Snapshot where
  seed : Int32
  target : UInt64
  partner : UInt64
  slots : List Int32
  drawn : UInt64
deriving DecidableEq

/-- Why a snapshot is no generator. -/
inductive Snapshot.Error where
  | slotCount (found : Nat)
  | cursor (found : Nat)
deriving DecidableEq

/-- The characters of an error's message. -/
def Snapshot.Error.text : Snapshot.Error → List Char
  | slotCount found =>
    "generator snapshot has ".toList ++ Text.digits found ++ " slots, expected 56".toList
  | cursor found =>
    "generator cursor ".toList ++ Text.digits found ++ " is outside 0..56".toList

def Snapshot.Error.message (error : Snapshot.Error) : String := String.ofList error.text

/-- The parts of a generator. -/
def toSnapshot (g : Generator) : Snapshot where
  seed := g.seed
  target := UInt64.ofNat g.target
  partner := UInt64.ofNat g.partner
  slots := g.slots.toList
  drawn := g.drawn

/-- A cursor within the slots. -/
def cursor? (position : UInt64) : Except Snapshot.Error (Fin 56) :=
  if h : position.toNat < 56 then .ok ⟨position.toNat, h⟩ else .error (.cursor position.toNat)

/-- The generator with the given parts. The slots are counted first. -/
def ofSnapshot (snapshot : Snapshot) : Except Snapshot.Error Generator :=
  if h : snapshot.slots.length = 56 then do
    let target ← cursor? snapshot.target
    let partner ← cursor? snapshot.partner
    pure {
      seed := snapshot.seed
      target
      partner
      slots := ⟨snapshot.slots.toArray, by simpa using h⟩
      drawn := snapshot.drawn }
  else .error (.slotCount snapshot.slots.length)

end LogicChip.Generator

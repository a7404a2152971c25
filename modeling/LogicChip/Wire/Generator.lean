import LogicChip.Generator.Snapshot
import LogicChip.Wire.Basic

namespace LogicChip.Wire

open Generator (Snapshot)

/-- The seed, the cursors, the number of the slots, the slots and the number of draws. -/
def ofSnapshot (snapshot : Snapshot) : List UInt8 :=
  ofInt32 snapshot.seed ++ ofUInt64 snapshot.target ++ ofUInt64 snapshot.partner ++
    ofUInt64 (UInt64.ofNat snapshot.slots.length) ++ snapshot.slots.flatMap ofInt32 ++
    ofUInt64 snapshot.drawn

def snapshot : Reader Snapshot := do
  let seed ← int32
  let target ← uint64
  let partner ← uint64
  let count ← uint64
  let slots ← times int32 count.toNat
  let drawn ← uint64
  pure { seed, target, partner, slots, drawn }

def ofGenerator (g : Generator) : List UInt8 := ofSnapshot g.toSnapshot

/-- Why bytes are no generator. -/
inductive GeneratorError where
  /-- The bytes do not suffice. -/
  | tooShort
  /-- The bytes hold a snapshot that is no generator. -/
  | invalid (error : Snapshot.Error)
deriving DecidableEq

/-- The generator at the front of a list of bytes, and the bytes after it. The snapshot is checked
once all of it is there. -/
def generator (bytes : List UInt8) : Except GeneratorError (Generator × List UInt8) :=
  match snapshot bytes with
  | none => .error .tooShort
  | some (parts, rest) =>
    match Generator.ofSnapshot parts with
    | .ok g => .ok (g, rest)
    | .error error => .error (.invalid error)

end LogicChip.Wire

namespace LogicChip.Wire

/-- Reads a value from the front of a list of bytes and leaves the rest; fails where the bytes do
not suffice. -/
abbrev Reader := StateT (List UInt8) Option

/-- Reads one byte. -/
def byte : Reader UInt8
  | [] => none
  | b :: rest => some (b, rest)

/-- Refuses what was read. -/
def refuse {α : Type} : Reader α := fun _ => none

/-- The lowest bytes of a number, as many as given, the lowest first. -/
def ofNat : Nat → Nat → List UInt8
  | 0, _ => []
  | width + 1, n => UInt8.ofNat n :: ofNat width (n / 256)

/-- Reads a number of the given width in bytes. -/
def nat : Nat → Reader Nat
  | 0 => pure 0
  | width + 1 => do
    let low ← byte
    let high ← nat width
    pure (low.toNat + 256 * high)

def ofUInt32 (n : UInt32) : List UInt8 := ofNat 4 n.toNat

def uint32 : Reader UInt32 := UInt32.ofNat <$> nat 4

def ofInt32 (n : Int32) : List UInt8 := ofUInt32 n.toUInt32

def int32 : Reader Int32 := UInt32.toInt32 <$> uint32

def ofUInt64 (n : UInt64) : List UInt8 := ofNat 8 n.toNat

def uint64 : Reader UInt64 := UInt64.ofNat <$> nat 8

/-- Reads a value a number of times. -/
def times {α : Type} (reader : Reader α) : Nat → Reader (List α)
  | 0 => pure []
  | n + 1 => do
    let first ← reader
    let rest ← times reader n
    pure (first :: rest)

end LogicChip.Wire

import LogicChip.Long.Basic

namespace LogicChip.Packed

/-- The most characters that a register value holds. -/
def capacity : Nat := 6

/-- The most bytes that are unpacked: all that a long has. -/
def longBytes : Nat := 8

/-- Puts an ASCII character into the lowest byte of a long, and what the long held one byte up. -/
def push (packed : Long) (c : Char) : Except Fault Long :=
  if c.toNat < 128 then .ok ((packed <<< 8) ||| .ofNat c.toNat) else .error (.nonAscii c)

/-- Packs one to six ASCII characters, the first into the highest byte. The characters are looked at
one after the other, up to the first that is not ASCII. -/
def pack (s : String) : Except Fault Binary64 :=
  let characters := s.toList
  if characters.isEmpty then .error .emptyString
  else if capacity < characters.length then .error (.stringTooLong characters.length)
  else do
    let packed ← characters.foldlM push 0
    pure (.ofInt packed.toInt)

/-- Counts the bytes of a long from the highest that is not zero, up to a limit. What is not
positive has none. -/
def byteCount : Nat → Long → Nat
  | 0, _ => 0
  | limit + 1, rest => if 0 < rest then byteCount limit (rest >>> 8) + 1 else 0

/-- The byte of a long at a place as a character; the lowest byte is at place 0. -/
def byteAt (long : Long) (place : Nat) : Char :=
  .ofUInt8 ((long >>> .ofNat (8 * place)) &&& 0xff).toUInt64.toUInt8

/-- The bytes of a long as characters, from the highest that is not zero. -/
def bytes (long : Long) : List Char :=
  (List.range (byteCount longBytes long)).reverse.map (byteAt long)

/-- The characters of a register value's bytes. The value is cut to an integer, brought into the
range of a long and read as one. -/
def unpack (reading : Reading) (x : Binary64) : String :=
  let long := Long.encode reading (Int64.ofInt (x.clamped (-2 ^ 63) (2 ^ 63 - 1)))
  String.ofList (bytes long)

end LogicChip.Packed

import LogicChip.Binary64.Integral
import LogicChip.Fault

namespace LogicChip

/-- A 64-bit two's complement word, which the bitwise instructions work on. A register holds its low
54 bits, as an integer in `[-2 ^ 53, 2 ^ 53)`. -/
abbrev Long := Int64

/-- How the sign of an integer is taken into a long: kept, or folded into 54 bits. -/
inductive Reading where
  | signed | unsigned
deriving DecidableEq

namespace Long

/-- The magnitude at which the integers of a register end, `2 ^ 53`. -/
def boundary : Long := 0x20000000000000

/-- The number of words that a register tells apart, `2 ^ 54`. -/
def wrap : Long := 0x40000000000000

/-- The low 53 bits. -/
def mask53 : Long := boundary - 1

/-- The low 54 bits. -/
def mask54 : Long := wrap - 1

/-- The signed reading changes nothing but the boundary, which becomes zero. -/
def encodeSigned (n : Long) : Long := if n = boundary ∨ n = -boundary then 0 else n

/-- The unsigned reading adds `2 ^ 54` to a negative integer, apart from the boundary, which becomes
zero. -/
def encodeUnsigned (n : Long) : Long :=
  if n = -boundary then 0 else if n < 0 then n + wrap else n

def encode : Reading → Long → Long
  | .signed => encodeSigned
  | .unsigned => encodeUnsigned

/-- The register value of the low 54 bits, the upper half of which stands for negative integers. -/
def decode (n : Long) : Binary64 :=
  let low := n &&& mask54
  .ofInt (if low < boundary then low else low - wrap).toInt

/-- The integer part of an operand. NaN reads as zero. -/
def integerPart (x : Binary64) : Except Fault Int :=
  match x.truncated? with
  | some n => .ok n
  | none => if x.isNaN then .ok 0 else .error (.notFinite x)

/-- An operand as a long. Integer parts beyond `2 ^ 63` are refused; that magnitude itself is read
as zero. -/
def ofOperand (reading : Reading) (x : Binary64) : Except Fault Long := do
  let n ← integerPart x
  if 2 ^ 63 < n.natAbs then throw (.outOfRange x 64)
  else if n.natAbs = 2 ^ 63 then pure 0
  else pure (encode reading (Int64.ofInt n))

/-- An operand as a 32-bit integer. -/
def int32OfOperand (x : Binary64) : Except Fault Int32 := do
  let n ← integerPart x
  if n < -2 ^ 31 ∨ 2 ^ 31 ≤ n then throw (.outOfRange x 32)
  else pure (Int32.ofInt n)

end Long

end LogicChip

import LogicChip.Binary64.Arithmetic
import LogicChip.Binary64.Bits
import LogicChip.Binary64.Order
import LogicChip.Long.BitField

namespace LogicChip.Bitwise

/-- An operand as the amount of a shift: its remainder by 64, which keeps its sign. -/
def shiftAmount (x : Binary64) : Except Fault Int32 := do
  let n ← Long.int32OfOperand x
  pure (n % 64)

/-- Shifts to the left, or by a negative amount to the right. -/
def shiftLeft (n : Long) (amount : Int32) : Long :=
  if 0 ≤ amount then n <<< amount.toInt64 else n >>> (-amount).toInt64

/-- Shifts to the right and keeps the sign, or by a negative amount to the left. -/
def shiftRight (n : Long) (amount : Int32) : Long :=
  if 0 ≤ amount then n >>> amount.toInt64 else n <<< (-amount).toInt64

/-- A shift of an operand by an operand. -/
def shiftOperand (reading : Reading) (move : Long → Int32 → Long) (a b : Binary64) :
    Except Fault Binary64 := do
  let n ← Long.ofOperand reading a
  let amount ← shiftAmount b
  pure (Long.decode (move n amount))

def sll : Binary64 → Binary64 → Except Fault Binary64 := shiftOperand .signed shiftLeft

/-- The arithmetic shift to the left is the logical one. -/
def sla : Binary64 → Binary64 → Except Fault Binary64 := sll

def srl : Binary64 → Binary64 → Except Fault Binary64 := shiftOperand .unsigned shiftRight

def sra : Binary64 → Binary64 → Except Fault Binary64 := shiftOperand .signed shiftRight

/-- An operation on the bits of two operands. -/
def combineBits (combine : Long → Long → Long) (a b : Binary64) : Except Fault Binary64 := do
  let m ← Long.ofOperand .signed a
  let n ← Long.ofOperand .signed b
  pure (Long.decode (combine m n))

def and : Binary64 → Binary64 → Except Fault Binary64 := combineBits (· &&& ·)
def or : Binary64 → Binary64 → Except Fault Binary64 := combineBits (· ||| ·)
def xor : Binary64 → Binary64 → Except Fault Binary64 := combineBits (· ^^^ ·)
def nor : Binary64 → Binary64 → Except Fault Binary64 := combineBits fun m n => ~~~(m ||| n)

def not (a : Binary64) : Except Fault Binary64 := do
  let n ← Long.ofOperand .signed a
  pure (Long.decode (~~~n))

/-- Reads a field of an operand. -/
def ext (a start length : Binary64) : Except Fault Binary64 := do
  let field ← BitField.ofOperands start length
  let n ← Long.ofOperand .unsigned a
  pure (Long.decode (field.extract n))

/-- The magnitude of an integral value modulo `2 ^ 54`. Below `2 ^ 53` it is taken as it is; from
there on the value is a significand shifted to the left by at least one place. -/
def lowMagnitude (integral : Binary64) : Long :=
  if Binary64.lt integral.abs (.ofInt Long.boundary.toInt) then
    Int64.ofInt (integral.truncated?.getD 0).natAbs
  else
    let exponent := Binary64.exponentField integral.toBits - 1075
    if 54 ≤ exponent then 0
    else (Binary64.significandField integral.toBits <<< exponent).toInt64 &&& Long.mask54

/-- The integer part of any register value modulo `2 ^ 54`. What is not finite reads as zero. -/
def lowWord (x : Binary64) : Long :=
  if x.isFinite then
    let magnitude := lowMagnitude x.trunc
    if Binary64.lt x.trunc 0 then (Long.wrap - magnitude) &&& Long.mask54 else magnitude
  else 0

/-- Replaces a field of the target by the low bits of a value. The target is a register's current
content, so it is read whatever it is. -/
def ins (target start length value : Binary64) : Except Fault Binary64 := do
  let field ← BitField.ofOperands start length
  let n ← Long.ofOperand .unsigned value
  pure (Long.decode (field.insert (lowWord target) n))

end LogicChip.Bitwise

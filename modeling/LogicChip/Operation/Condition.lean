import LogicChip.Binary64.Arithmetic
import LogicChip.Binary64.Bits
import LogicChip.Binary64.Order

namespace LogicChip.Condition

/-- The register value of a truth value. -/
def flag (holds : Bool) : Binary64 := if holds then 1 else 0

/-- The constant `1e-45`, of which eight times is the least tolerance. -/
def epsilon : Binary64 := .ofBits 0x3696d601ad376ab9

/-- How far apart two values that are approximately equal may be: `c` times the greater magnitude,
but never less than `8 * epsilon`. -/
def tolerance (a b c : Binary64) : Binary64 :=
  (c * Binary64.maxNumber a.abs b.abs).maxNumber (epsilon * 8)

def seq (a b : Binary64) : Binary64 := flag (a.eqv b)
def sne (a b : Binary64) : Binary64 := flag !(a.eqv b)
def slt (a b : Binary64) : Binary64 := flag (a.lt b)
def sle (a b : Binary64) : Binary64 := flag (a.le b)
def sgt (a b : Binary64) : Binary64 := flag (b.lt a)
def sge (a b : Binary64) : Binary64 := flag (b.le a)

/-- Approximately equal. -/
def sap (a b c : Binary64) : Binary64 := flag ((a - b).abs.le (tolerance a b c))

/-- Not approximately equal. Where a difference is not a number, neither condition holds. -/
def sna (a b c : Binary64) : Binary64 := flag ((tolerance a b c).lt (a - b).abs)

def snan (a : Binary64) : Binary64 := flag a.isNaN
def snanz (a : Binary64) : Binary64 := flag !a.isNaN

/-- The second value where the first is not zero, else the third. -/
def select (a b c : Binary64) : Binary64 := if a.eqv 0 then c else b

end LogicChip.Condition

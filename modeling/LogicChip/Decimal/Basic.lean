import LogicChip.Binary64.Rounding

namespace LogicChip

/-- The number `coefficient * 10 ^ exponent` with a sign, which zero has as well. -/
structure Decimal where
  negative : Bool
  coefficient : Nat
  exponent : Int
deriving DecidableEq

namespace Decimal

/-- A decimal exponent that no finite register value comes near, on either side of zero: the least
magnitude is above `10 ^ (-324)` and the greatest below `10 ^ 309`. -/
def cutoff : Int := 400

/-- The register value nearest to a decimal, ties to even. The two cut-offs settle numbers far
outside the range of register values without building their powers of ten: such a number is at most
`10 ^ (-cutoff)`, since `coefficient < 2 ^ (log2 coefficient + 1)`, or above `10 ^ cutoff`. -/
def value (d : Decimal) : Binary64 :=
  if d.coefficient = 0 ∨ d.exponent + d.coefficient.log2 + 1 ≤ -cutoff then .zero d.negative
  else if cutoff < d.exponent then .infinity d.negative
  else if 0 ≤ d.exponent then
    .ofMagnitude d.negative (d.coefficient * 10 ^ d.exponent.toNat)
  else
    .ofRatio d.negative (d.coefficient * Binary64.scale) (10 ^ (-d.exponent).toNat)

end Decimal

end LogicChip

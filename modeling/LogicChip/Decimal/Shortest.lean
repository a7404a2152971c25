import LogicChip.Decimal.Basic

namespace LogicChip.Decimal

open Binary64 (unitExponent)

/-- A magnitude in units of `10 ^ (-unitExponent)`. It is a whole number of them, since
`2 ^ (-1074) = 5 ^ 1074 / 10 ^ 1074`. -/
def expansion (magnitude : Nat) : Nat := magnitude * 5 ^ unitExponent

/-- The number of decimal digits of a positive number below `2 ^ 10000`. The estimate is the decimal
logarithm of a power of two below `n`, rounded down, so it is too low by at most one. -/
def digitCount (n : Nat) : Nat :=
  let estimate := n.log2 * 30102 / 100000
  if n < 10 ^ (estimate + 1) then estimate + 1 else estimate + 2

/-- Moves trailing zeros of the coefficient into the exponent. -/
def trimmed (d : Decimal) : Decimal :=
  if d.coefficient ≠ 0 ∧ d.coefficient % 10 = 0 then
    trimmed { d with coefficient := d.coefficient / 10, exponent := d.exponent + 1 }
  else d
termination_by d.coefficient

/-- The neighbours of a value on the grid of multiples of `10 ^ dropped` units, of which the one is
chosen that reads back as the value. Of two that do it is the nearer, and the upper one of two that
are equally near. -/
def onGrid? (x : Binary64) (negative : Bool) (units dropped : Nat) : Option Decimal :=
  let step := 10 ^ dropped
  let exponent : Int := dropped - unitExponent
  let lower := trimmed ⟨negative, units / step, exponent⟩
  let upper := trimmed ⟨negative, units / step + 1, exponent⟩
  if lower.value = x then
    if upper.value = x ∧ step ≤ 2 * (units % step) then some upper else some lower
  else if upper.value = x then some upper
  else none

/-- The shortest decimal of a finite value with the given sign and magnitude: of the decimals with
the fewest digits that read back, the nearest to it. If some decimal with a number of digits reads
back, so does a neighbour of the value on their grid, and only neighbours are tried. Seventeen
digits always suffice; the exact decimal stands in for a proof of that. -/
def shortest (x : Binary64) (negative : Bool) (magnitude : Nat) : Decimal :=
  if magnitude = 0 then ⟨negative, 0, 0⟩
  else
    let units := expansion magnitude
    let count := digitCount units
    ((List.range 17).findSome? fun i => onGrid? x negative units (count - (i + 1))).getD
      ⟨negative, units, -unitExponent⟩

end LogicChip.Decimal

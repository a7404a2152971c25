import LogicChip.Decimal.Basic
import LogicChip.Text.Digits

namespace LogicChip.Decimal

open Text (isDigit ofDigits)

/-- The digits of a fraction that a text begins with; none without a point and a digit. -/
def fractionDigits : List Char → List Char
  | '.' :: rest => rest.takeWhile isDigit
  | _ => []

/-- The number of characters of a fraction with the given digits. -/
def fractionLength (digits : List Char) : Nat := if digits.isEmpty then 0 else digits.length + 1

/-- The sign of an exponent that a text begins with, and how many characters it takes. -/
def exponentSign : List Char → Bool × Nat
  | '-' :: _ => (true, 1)
  | '+' :: _ => (false, 1)
  | _ => (false, 0)

/-- The exponent that a text begins with, and how many characters it takes. -/
def scanExponent : List Char → Int × Nat
  | mark :: rest =>
    if mark = 'e' ∨ mark = 'E' then
      let (negative, signLength) := exponentSign rest
      let digits := (rest.drop signLength).takeWhile isDigit
      if digits.isEmpty then (0, 0)
      else
        let magnitude : Int := ofDigits 10 digits
        (if negative then -magnitude else magnitude, 1 + signLength + digits.length)
    else (0, 0)
  | [] => (0, 0)

/-- The unsigned literal that a text begins with, and how many characters it takes. -/
def scanMagnitude? (negative : Bool) (text : List Char) : Option (Decimal × Nat) :=
  let whole := text.takeWhile isDigit
  if whole.isEmpty then none
  else
    let afterWhole := text.drop whole.length
    let fraction := fractionDigits afterWhole
    let (exponent, exponentLength) := scanExponent (afterWhole.drop (fractionLength fraction))
    some (⟨negative, ofDigits 10 (whole ++ fraction), exponent - fraction.length⟩,
      whole.length + fractionLength fraction + exponentLength)

/-- The longest literal that a text begins with, and how many characters it takes. A point or an
exponent mark that no digits follow is not part of it. -/
def scan? : List Char → Option (Decimal × Nat)
  | '-' :: rest => (scanMagnitude? true rest).map fun (d, length) => (d, length + 1)
  | text => scanMagnitude? false text

end LogicChip.Decimal

import LogicChip.Decimal.Shortest
import LogicChip.Text.Digits

namespace LogicChip.Decimal

/-- How the digits of a register value are laid out. -/
structure Layout where
  /-- The exponents of the leading digit, from the first up to but excluding the second, that are
  written positionally; none if all are. -/
  positional? : Option (Int × Int)
  /-- Whether a whole number is given a fraction `.0`. -/
  keepsPoint : Bool

/-- Operands are written positionally, and whole numbers without a point. -/
def Layout.plain : Layout := ⟨none, false⟩

/-- Numbers in a description of a token are positional from `0.0001` up to `10 ^ 16`, and whole
numbers have a fraction. -/
def Layout.described : Layout := ⟨some (-4, 16), true⟩

/-- Digits with a point `places` from the end; zeros stand in for digits that are missing. -/
def withPoint (ds : List Char) (places : Nat) : List Char :=
  if places < ds.length then
    ds.take (ds.length - places) ++ '.' :: ds.drop (ds.length - places)
  else '0' :: '.' :: List.replicate (places - ds.length) '0' ++ ds

/-- The digits written out in full, without an exponent. -/
def positional (keepsPoint : Bool) (coefficient : Nat) (exponent : Int) : List Char :=
  let ds := Text.digits coefficient
  if 0 ≤ exponent then
    ds ++ List.replicate exponent.toNat '0' ++ (if keepsPoint then ['.', '0'] else [])
  else withPoint ds (-exponent).toNat

/-- One digit before the point, the others after it, and the exponent of the leading digit. -/
def scientific (coefficient : Nat) (leading : Int) : List Char :=
  match Text.digits coefficient with
  | [] => []
  | d :: [] => d :: 'e' :: Text.integer leading
  | d :: rest => d :: '.' :: rest ++ 'e' :: Text.integer leading

/-- The text of a decimal that is the shortest for some value. -/
def Layout.decimal (layout : Layout) (d : Decimal) : List Char :=
  let leading : Int := d.exponent + (Text.digits d.coefficient).length - 1
  let magnitude :=
    match layout.positional? with
    | none => positional layout.keepsPoint d.coefficient d.exponent
    | some (least, limit) =>
      if d.coefficient = 0 ∨ (least ≤ leading ∧ leading < limit) then
        positional layout.keepsPoint d.coefficient d.exponent
      else scientific d.coefficient leading
  if d.negative then '-' :: magnitude else magnitude

/-- The text of a register value. -/
def Layout.text (layout : Layout) : Binary64 → List Char
  | .nan => ['N', 'a', 'N']
  | .infinity negative => if negative then ['-', 'i', 'n', 'f'] else ['i', 'n', 'f']
  | .finite negative magnitude h =>
    layout.decimal (shortest (.finite negative magnitude h) negative magnitude)

end LogicChip.Decimal

namespace LogicChip.Binary64

/-- A register value as an operand is written. -/
def text (x : Binary64) : List Char := Decimal.Layout.plain.text x

instance : ToString Binary64 := ⟨fun x => String.ofList x.text⟩

end LogicChip.Binary64

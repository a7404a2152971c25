import LogicChip.Binary64.Basic

namespace LogicChip.Binary64

/-- The place of a value on the line, in units; none for NaN. The two zeros have the same place, and
the infinities lie beyond all finite values. -/
def position : Binary64 → Option Int
  | nan => none
  | infinity negative => some (signed negative bound)
  | finite negative magnitude _ => some (signed negative magnitude)

/-- Compares two positions; false where either is missing. -/
def compareWith (relation : Int → Int → Bool) (a b : Binary64) : Bool :=
  match a.position, b.position with
  | some p, some q => relation p q
  | _, _ => false

def lt (a b : Binary64) : Bool := compareWith (fun p q => p < q) a b

def le (a b : Binary64) : Bool := compareWith (fun p q => p ≤ q) a b

/-- Numeric equality: the zeros are equal, and NaN equals nothing. -/
def eqv (a b : Binary64) : Bool := compareWith (fun p q => p = q) a b

/-- The greater value; where only one is a number, that one. -/
def maxNumber (a b : Binary64) : Binary64 :=
  if a.isNaN then b else if b.isNaN then a else if lt a b then b else a

/-- The lesser value, or NaN if either is NaN. -/
def minimum (a b : Binary64) : Binary64 :=
  if a.isNaN || b.isNaN then nan else if lt b a then b else a

/-- The greater value, or NaN if either is NaN. -/
def maximum (a b : Binary64) : Binary64 :=
  if a.isNaN || b.isNaN then nan else if lt a b then b else a

end LogicChip.Binary64

import LogicChip.Binary64.Rounding

namespace LogicChip.Binary64

/-- The integer part, cut toward zero; none for NaN and the infinities. -/
def truncated? : Binary64 → Option Int
  | finite negative magnitude _ => some (signed negative (magnitude / scale))
  | _ => none

/-- Replaces the magnitude of a finite value by a whole number that depends on its sign. The sign is
kept, even where the number is zero. -/
def mapIntegral (whole : Bool → Nat → Nat) : Binary64 → Binary64
  | finite negative magnitude _ => ofMagnitude negative (whole negative magnitude)
  | other => other

/-- The least natural number not below a magnitude. -/
def ceilUnits (magnitude : Nat) : Nat := (magnitude + (scale - 1)) / scale

def trunc : Binary64 → Binary64 := mapIntegral fun _ m => m / scale

def floor : Binary64 → Binary64 :=
  mapIntegral fun negative m => if negative then ceilUnits m else m / scale

def ceil : Binary64 → Binary64 :=
  mapIntegral fun negative m => if negative then m / scale else ceilUnits m

/-- The nearest integral value; a half goes to the even neighbour. -/
def roundEven : Binary64 → Binary64 := mapIntegral fun _ m => roundDiv m scale

/-- The integer part brought into `[least, greatest]`; NaN counts as zero. -/
def clamped (least greatest : Int) : Binary64 → Int
  | nan => 0
  | infinity negative => if negative then least else greatest
  | finite negative magnitude _ => max least (min greatest (signed negative (magnitude / scale)))

end LogicChip.Binary64

import LogicChip.Binary64.Arithmetic
import LogicChip.Binary64.Order

namespace LogicChip.Arithmetic

/-- The remainder of `a` by `b`, moved up by `b` where it is negative. -/
def mod (a b : Binary64) : Binary64 :=
  let remainder := a % b
  if Binary64.lt remainder 0 then remainder + b else remainder

/-- The value between `a` and `b` at the fraction `t` of the way, which is brought into `[0, 1]`. -/
def lerp (a b t : Binary64) : Binary64 := a + (b - a) * Binary64.minimum (Binary64.maximum t 0) 1

end LogicChip.Arithmetic

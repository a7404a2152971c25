import LogicChip.Binary64.Bits

namespace LogicChip.Binary64

def toFloat (x : Binary64) : Float := Float.ofBits x.toBits

def ofFloat (x : Float) : Binary64 := ofBits x.toBits

/-- Applies a function of the machine's own floating point to a register value. -/
private def lift (f : Float → Float) (x : Binary64) : Binary64 := ofFloat (f x.toFloat)

/-- Applies a function of the machine's own floating point to two register values. -/
private def lift₂ (f : Float → Float → Float) (x y : Binary64) : Binary64 :=
  ofFloat (f x.toFloat y.toFloat)

def sqrt : Binary64 → Binary64 := lift Float.sqrt
def exp : Binary64 → Binary64 := lift Float.exp
/-- The natural logarithm. -/
def log : Binary64 → Binary64 := lift Float.log
def sin : Binary64 → Binary64 := lift Float.sin
def cos : Binary64 → Binary64 := lift Float.cos
def tan : Binary64 → Binary64 := lift Float.tan
def asin : Binary64 → Binary64 := lift Float.asin
def acos : Binary64 → Binary64 := lift Float.acos
def atan : Binary64 → Binary64 := lift Float.atan
/-- The angle of the point with ordinate `y` and abscissa `x`. -/
def atan2 : Binary64 → Binary64 → Binary64 := lift₂ Float.atan2
def pow : Binary64 → Binary64 → Binary64 := lift₂ Float.pow

end LogicChip.Binary64

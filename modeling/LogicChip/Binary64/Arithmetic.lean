import LogicChip.Binary64.Rounding

namespace LogicChip.Binary64

def neg : Binary64 → Binary64
  | nan => nan
  | infinity negative => infinity !negative
  | finite negative magnitude h => finite (!negative) magnitude h

def abs : Binary64 → Binary64
  | nan => nan
  | infinity _ => infinity false
  | finite _ magnitude h => finite false magnitude h

/-- The value nearest to a whole number of units; an exact zero takes the given sign. -/
def ofSum (zeroNegative : Bool) (units : Int) : Binary64 :=
  if units = 0 then zero zeroNegative else ofUnits (decide (units < 0)) units.natAbs

/-- The exact sum rounded once. An exact zero sum is negative only if both terms are, and opposite
infinities have none. -/
def add : Binary64 → Binary64 → Binary64
  | nan, _ | _, nan => nan
  | infinity s, infinity t => if s = t then infinity s else nan
  | infinity s, finite .. => infinity s
  | finite .., infinity t => infinity t
  | finite s m _, finite t n _ => ofSum (s && t) (signed s m + signed t n)

def sub (a b : Binary64) : Binary64 := add a b.neg

def mul : Binary64 → Binary64 → Binary64
  | nan, _ | _, nan => nan
  | infinity s, infinity t => infinity (s ^^ t)
  | infinity s, finite t n _ => if n = 0 then nan else infinity (s ^^ t)
  | finite s m _, infinity t => if m = 0 then nan else infinity (s ^^ t)
  | finite s m _, finite t n _ => ofRatio (s ^^ t) (m * n) scale

def div : Binary64 → Binary64 → Binary64
  | nan, _ | _, nan => nan
  | infinity _, infinity _ => nan
  | infinity s, finite t _ _ => infinity (s ^^ t)
  | finite s _ _, infinity t => zero (s ^^ t)
  | finite s m _, finite t n _ =>
    if n = 0 then if m = 0 then nan else infinity (s ^^ t)
    else ofRatio (s ^^ t) (m * scale) n

/-- The remainder of the quotient truncated toward zero, with the sign of the dividend. It is
exact: a remainder needs no more significant bits than its operands have. -/
def rem : Binary64 → Binary64 → Binary64
  | nan, _ | _, nan => nan
  | infinity _, _ => nan
  | finite s m h, infinity _ => finite s m h
  | finite s m _, finite _ n _ => if n = 0 then nan else ofUnits s (m % n)

instance : Neg Binary64 := ⟨neg⟩
instance : Add Binary64 := ⟨add⟩
instance : Sub Binary64 := ⟨sub⟩
instance : Mul Binary64 := ⟨mul⟩
instance : Div Binary64 := ⟨div⟩
instance : Mod Binary64 := ⟨rem⟩

end LogicChip.Binary64

import LogicChip.Long.Basic

namespace LogicChip

/-- A range of adjacent bits of a long, which `ext` reads and `ins` replaces, by its lowest bit and
its length. -/
structure BitField where
  start : UInt32
  length : UInt32
deriving DecidableEq

namespace BitField

/-- The number of bits in which fields lie. -/
def width : Nat := 53

/-- What is asked of a start and a length. The sum is one of words without sign; the bounds on both
keep it from wrapping. -/
def Admits (start length : Int32) : Prop :=
  0 < length ∧ 0 ≤ start ∧ start.toUInt32 < .ofNat width ∧ length.toUInt32 ≤ .ofNat width ∧
    start.toUInt32 + length.toUInt32 ≤ .ofNat width

instance (start length : Int32) : Decidable (Admits start length) :=
  inferInstanceAs (Decidable (_ ∧ _ ∧ _ ∧ _ ∧ _))

/-- The field with the given start and length. -/
def new (start length : Int32) : Except Fault BitField :=
  if Admits start length then .ok ⟨start.toUInt32, length.toUInt32⟩
  else .error (.invalidField start length)

/-- The field that two operands describe. -/
def ofOperands (start length : Binary64) : Except Fault BitField := do
  let start ← Long.int32OfOperand start
  let length ← Long.int32OfOperand length
  new start length

/-- A number of bits as the amount of a shift. -/
def shiftCount (bits : UInt32) : Long := bits.toUInt64.toInt64

/-- As many low bits as the field is long. -/
def widthMask (field : BitField) : Long :=
  if field.length.toNat = width then Long.mask53 else (1 <<< shiftCount field.length) - 1

/-- The bits of the field. -/
def regionMask (field : BitField) : Long := field.widthMask <<< shiftCount field.start

/-- The bits of the field, moved down to bit 0. -/
def extract (field : BitField) (word : Long) : Long :=
  ((word &&& Long.mask53) &&& field.regionMask) >>> shiftCount field.start

/-- The low 53 bits of a word with the field replaced by the low bits of a value. -/
def insert (field : BitField) (word value : Long) : Long :=
  let cleared := (word &&& Long.mask53) &&& ~~~field.regionMask
  let moved :=
    ((value &&& Long.mask53 &&& field.widthMask) <<< shiftCount field.start) &&& field.regionMask
  (cleared ||| moved) &&& Long.mask53

/-- The half-open range of the field's bits. -/
def text (field : BitField) : List Char :=
  '[' :: Text.digits field.start.toNat ++ ['.', '.'] ++
    Text.digits (field.start + field.length).toNat ++ [')']

end BitField

end LogicChip

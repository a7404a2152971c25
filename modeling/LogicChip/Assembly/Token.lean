import LogicChip.Decimal.Layout
import LogicChip.Text.Quoted

namespace LogicChip.Assembly

/-- What a stretch of a program's text stands for. -/
inductive Token where
  | identifier (name : String)
  | number (value : Binary64)
  /-- A literal with hexadecimal digits. -/
  | hex (value : UInt64)
  /-- A literal with binary digits. -/
  | binary (value : UInt64)
  | nan
  | infinity (negative : Bool)
  /-- The constant that is the hash of a name. -/
  | hash (name : String)
  /-- The constant that is a packed string. -/
  | packed (characters : String)
deriving DecidableEq

namespace Token

/-- A kind of token with what it holds. -/
private def described (kind : String) (content : List Char) : List Char :=
  kind.toList ++ '(' :: content ++ [')']

/-- A token as error messages describe it. -/
def description : Token → List Char
  | identifier name => described "Identifier" (Text.quotedString name)
  | number value => described "Number" (Decimal.Layout.described.text value)
  | hex value => described "Hex" (Text.digits value.toNat)
  | binary value => described "Binary" (Text.digits value.toNat)
  | nan => "Nan".toList
  | infinity negative => described "Infinity" (Decimal.Layout.described.text (.infinity negative))
  | hash name => described "Hash" (Text.quotedString name)
  | packed characters => described "Str" (Text.quotedString characters)

end Token

end LogicChip.Assembly

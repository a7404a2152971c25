import LogicChip.Text.DefaultIgnorable
import LogicChip.Text.GraphemeExtend
import LogicChip.Text.Unprintable

namespace LogicChip.Text

/-- The hexadecimal digits of a number, in lower case. -/
def hexDigits (n : Nat) : List Char := Nat.toDigits 16 n

/-- Whether a character cannot be seen on its own: it joins the one before it, is not drawn by
default, or has no visible form. -/
def isHidden (c : Char) : Bool :=
  (isGraphemeExtend c && !isHalfwidthSoundMark c) || isDefaultIgnorable c || isUnprintable c

/-- A character between the given quotes. The quote and the backslash are escaped, common control
characters have letters, and a hidden character is written by its code point. -/
def escape (quote : Char) (c : Char) : List Char :=
  if c = quote || c = '\\' then ['\\', c]
  else if c = '\x00' then ['\\', '0']
  else if c = '\t' then ['\\', 't']
  else if c = '\n' then ['\\', 'n']
  else if c = '\r' then ['\\', 'r']
  else if isHidden c then
    '\\' :: 'u' :: '\x7b' :: hexDigits c.toNat ++ ['\x7d']
  else [c]

/-- Text between the given quotes. -/
def quoted (quote : Char) (text : List Char) : List Char :=
  quote :: text.flatMap (escape quote) ++ [quote]

/-- A string as messages show it. -/
def quotedString (s : String) : List Char := quoted '"' s.toList

/-- A character as messages show it. -/
def quotedChar (c : Char) : List Char := quoted '\'' [c]

end LogicChip.Text

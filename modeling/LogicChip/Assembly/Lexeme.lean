import LogicChip.Assembly.Token
import LogicChip.Decimal.Scan

namespace LogicChip.Assembly

/-- A stretch of text with its token, if it has one. -/
structure Lexeme where
  token? : Option Token
  text : List Char
deriving DecidableEq

namespace Lexeme

/-- Characters between lexemes. A line feed is not one of them. -/
def isBlank (c : Char) : Bool := c = ' ' || c = '\t' || c = '\r'

/-- Characters that identifiers begin with. -/
def isNameStart (c : Char) : Bool :=
  ('a' ≤ c && c ≤ 'z') || ('A' ≤ c && c ≤ 'Z') || c = '_'

/-- Characters that identifiers go on with. -/
def isNamePart (c : Char) : Bool := isNameStart c || Text.isDigit c

/-- The digits of `0` and `1`. -/
def isBinaryDigit (c : Char) : Bool := c = '0' || c = '1'

/-- What follows the start of a lexeme: the token, and how many characters more it takes. -/
abbrev Munch := Option Token × Nat

/-- The digits of an integer literal, among which underscores do not count. There must be a digit,
and the number must fit into 64 bits. -/
def integer? (radix : Nat) (digits : List Char) : Option UInt64 :=
  let digits := digits.filter (· ≠ '_')
  let value := Text.ofDigits radix digits
  if digits.isEmpty ∨ 2 ^ 64 ≤ value then none else some (UInt64.ofNat value)

/-- An integer literal after its mark. -/
def munchInteger (radix : Nat) (isRadixDigit : Char → Bool) (token : UInt64 → Token)
    (rest : List Char) : Munch :=
  let digits := rest.takeWhile fun c => isRadixDigit c || c = '_'
  ((integer? radix digits).map token, digits.length)

/-- The argument of a macro after its opening quote. It ends at a quote that is followed by a
closing parenthesis; a line feed, a quote that is not, or the end of the text spoils the macro. -/
def munchArgument (token : String → Token) (rest : List Char) : Munch :=
  let argument := rest.takeWhile fun c => c ≠ '"' && c ≠ '\n'
  match rest.drop argument.length with
  | '"' :: ')' :: _ => (some (token (String.ofList argument)), argument.length + 2)
  | _ => (none, argument.length)

/-- A macro after the first letter of its name. -/
def munchConstant? (name : List Char) (token : String → Token) (rest : List Char) : Option Munch :=
  let opening := name ++ ['(', '"']
  if opening.isPrefixOf rest then
    let (token?, length) := munchArgument token (rest.drop opening.length)
    some (token?, opening.length + length)
  else none

/-- The token of a word: some words stand for values. -/
def wordToken (word : List Char) : Token :=
  if word = ['i', 'n', 'f'] then .infinity false
  else if word = ['n', 'a', 'n'] ∨ word = ['N', 'a', 'N'] then .nan
  else .identifier (String.ofList word)

/-- A word that begins with the given letter. -/
def munchWord (c : Char) (rest : List Char) : Munch :=
  let part := rest.takeWhile isNamePart
  (some (wordToken (c :: part)), part.length)

/-- A number that begins with the given character. -/
def munchNumber (c : Char) (rest : List Char) : Munch :=
  match Decimal.scan? (c :: rest) with
  | some (d, length) => (some (.number d.value), length - 1)
  | none => (none, 0)

/-- The lexeme that begins with the given character, which is not a blank. -/
def munch (c : Char) (rest : List Char) : Munch :=
  if isNameStart c then
    let constant? :=
      if c = 'H' then munchConstant? ['A', 'S', 'H'] .hash rest
      else if c = 'S' then munchConstant? ['T', 'R'] .packed rest
      else none
    constant?.getD (munchWord c rest)
  else if Text.isDigit c then munchNumber c rest
  else if c = '-' then
    if ['i', 'n', 'f'].isPrefixOf rest then (some (.infinity true), 3) else munchNumber c rest
  else if c = '$' then munchInteger 16 Text.isHexDigit .hex rest
  else if c = '%' then munchInteger 2 isBinaryDigit .binary rest
  else (none, 0)

/-- The text after a comment: from the next line feed on. -/
def afterComment (rest : List Char) : List Char := rest.dropWhile (· ≠ '\n')

theorem length_afterComment_le (rest : List Char) : (afterComment rest).length ≤ rest.length :=
  (List.dropWhile_sublist _).length_le

/-- The lexemes of a text, without the blanks and comments between them. At each place the longest
token is taken; where there is none, the next character is a lexeme without a token. -/
def ofText : List Char → List Lexeme
  | [] => []
  | c :: rest =>
    if isBlank c then ofText rest
    else if c = '#' then ofText (afterComment rest)
    else
      let (token?, length) := munch c rest
      ⟨token?, c :: rest.take length⟩ :: ofText (rest.drop length)
termination_by text => text.length
decreasing_by
  · simp
  · have := length_afterComment_le rest
    simp only [List.length_cons]
    omega
  · simp only [List.length_cons, List.length_drop]
    omega

end Lexeme

end LogicChip.Assembly

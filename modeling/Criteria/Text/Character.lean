import Criteria.Text.Alphabetic
import Criteria.Text.Mark
import Criteria.Text.Number

/-!
# Classes of characters

Which characters a word is made of, which are blank, which are digits. The classes are those of the
Unicode standard; each is told for ASCII by a short rule and looked up in a table beyond it.
-/

namespace Criteria.Text

/-- The decimal digits `0` to `9`. -/
def isAsciiDigit (c : Char) : Bool := '0' ≤ c && c ≤ '9'

/-- The letters `a` to `z` and `A` to `Z`. -/
def isAsciiLetter (c : Char) : Bool := ('a' ≤ c && c ≤ 'z') || ('A' ≤ c && c ≤ 'Z')

/-- Decimal digits of any script. -/
def isDigit (c : Char) : Bool :=
  if c.toNat < 128 then isAsciiDigit c else decimalDigitRanges.contains c.toNat

/-- White space from U+0080 on: the next-line control, the no-break space and the spaces and
separators of general punctuation. -/
def blankRanges : Ranges :=
  [(0x85, 0x85), (0xA0, 0xA0), (0x1680, 0x1680), (0x2000, 0x200A), (0x2028, 0x2029),
   (0x202F, 0x202F), (0x205F, 0x205F), (0x3000, 0x3000)]

/-- White space, six blanks of it in ASCII. -/
def isBlank (c : Char) : Bool :=
  if c.toNat < 128 then c == ' ' || ('\t' ≤ c && c ≤ '\r') else blankRanges.contains c.toNat

/-- Connector punctuation from U+0080 on. -/
def connectorRanges : Ranges :=
  [(0x203F, 0x2040), (0x2054, 0x2054), (0xFE33, 0xFE34), (0xFE4D, 0xFE4F), (0xFF3F, 0xFF3F)]

/-- Connector punctuation, such as the underscore. -/
def isConnector (c : Char) : Bool := c == '_' || connectorRanges.contains c.toNat

/-- The zero-width joiner and non-joiner. -/
def isJoiner (c : Char) : Bool := c == '\u200C' || c == '\u200D'

/-- Word characters: letters, marks, decimal digits, connectors and joiners. -/
def isWord (c : Char) : Bool :=
  if c.toNat < 128 then isAsciiLetter c || isAsciiDigit c || c == '_'
  else alphabeticRanges.contains c.toNat || markRanges.contains c.toNat || isDigit c ||
    isConnector c || isJoiner c

/-- Letters and numbers of any kind; unlike a word character, an underscore is neither. -/
def isAlphanumeric (c : Char) : Bool :=
  if c.toNat < 128 then isAsciiLetter c || isAsciiDigit c
  else alphabeticRanges.contains c.toNat || isDigit c || otherNumberRanges.contains c.toNat

/-- The small letter of an ASCII capital; every other character is left alone. -/
def asciiLower (c : Char) : Char := if 'A' ≤ c && c ≤ 'Z' then Char.ofNat (c.toNat + 32) else c

end Criteria.Text

import Criteria.Pattern.Matching
import Criteria.Value.Basic

/-!
# Literals

Which texts denote values. The families of literals are tried in a fixed order on the whole text,
ignoring case, and the first family whose pattern matches and whose text can be read decides: so a
number too large for an integer becomes a long, and one too large for a long a double. A list is the
last family; its items are literals again, and an item that is none is a string.

`Literal.classify` is the reading. A text that it does not read is the name of a field.
-/

namespace Criteria.Literal

/-! ### Patterns -/

/-- One character of a set, case variants included. -/
def anyOf (s : CharSet) : Pattern := .one (.folded s)

/-- The given characters, case variants included. -/
def word (s : String) : Pattern := .seqAll (s.toList.map fun c => anyOf (.only c))

/-- A decimal digit. -/
def decimalDigit : Pattern := anyOf (.range '0' '9')

/-- A hexadecimal digit. -/
def hexDigit : Pattern := anyOf (.unionAll [.range '0' '9', .range 'a' 'f'])

/-- A sign, or none. -/
def sign : Pattern := .opt true (anyOf (.unionAll [.only '-', .only '+']))

/-- Decimal digits, one at least. -/
def digits : Pattern := .plus true decimalDigit

/-- Digits with a point in, before or behind them, or without a point. -/
def magnitude : Pattern :=
  .altAll [.seqAll [digits, anyOf (.only '.'), .star true decimalDigit],
    .seqAll [anyOf (.only '.'), digits], digits]

/-- Year, month and day with hyphens between them. -/
def dateParts : List Pattern :=
  [decimalDigit.times 4, anyOf (.only '-'), decimalDigit.times 2, anyOf (.only '-'),
    decimalDigit.times 2]

/-- Hour and minute, and perhaps second and fraction. -/
def timeParts : List Pattern :=
  [decimalDigit.times 2, anyOf (.only ':'), decimalDigit.times 2,
    .opt true (.seqAll [anyOf (.only ':'), decimalDigit.times 2,
      .opt true (.seqAll [anyOf (.only '.'), digits])])]

/-- A text in quotes, in which quotes are written twice. -/
def quoted : Pattern :=
  .seqAll [anyOf (.only '\x27'),
    .star true (.alt (.one (.compl (.folded (.only '\x27')))) (word "''")), anyOf (.only '\x27')]

/-- The families of literals other than lists. -/
inductive Family where
  | null
  | boolean
  | long
  | integer
  | guid
  | text
  | double
  | date
  | dateTime
  deriving DecidableEq, Repr

namespace Family

/-- The families in the order in which they are tried. -/
def all : List Family := [null, boolean, long, integer, guid, text, double, date, dateTime]

/-- What the literals of a family look like. -/
def pattern : Family → Pattern
  | null => word "null"
  | boolean => .alt (word "true") (word "false")
  | long => .seqAll [sign, digits, anyOf (.only 'L')]
  | integer => .seqAll [sign, digits]
  | guid => .seqAll [hexDigit.times 8, anyOf (.only '-'), hexDigit.times 4, anyOf (.only '-'),
      hexDigit.times 4, anyOf (.only '-'), hexDigit.times 4, anyOf (.only '-'), hexDigit.times 12]
  | text => quoted
  | double => .seqAll [sign, magnitude, .opt true (.seqAll [anyOf (.only 'e'), sign, digits]),
      .opt true (anyOf (.unionAll [.only 'd', .only 'f']))]
  | date => .seqAll dateParts
  | dateTime => .seqAll (.opt true (word "datetime'") :: dateParts ++ anyOf (.only 't') ::
      timeParts ++ [.opt true (anyOf (.only '\x27'))])

end Family

/-- Lists in brackets, on one line. -/
def listPattern : Pattern :=
  .seqAll [anyOf (.only '['), .star true (.one .notLineFeed), anyOf (.only ']')]

/-- Whether the whole text matches a pattern. -/
def matchesWhole (p : Pattern) (text : List Char) : Bool :=
  (Pattern.seqAll [.anchor .textStart, p, .anchor .textEnd]).isMatch text

/-! ### Reading -/

/-- Splits off a sign. -/
def splitSign : List Char → Bool × List Char
  | '-' :: cs => (true, cs)
  | '+' :: cs => (false, cs)
  | cs => (false, cs)

/-- The integer that a sign and digits stand for. -/
def readInt (cs : List Char) : Int :=
  let (negative, digits) := splitSign cs
  if negative then -(Text.decimalNumber digits : Int) else Text.decimalNumber digits

/-- The long value of an integer, if it fits. -/
def toLong? (n : Int) : Option Int64 :=
  if Int64.minValue.toInt ≤ n ∧ n ≤ Int64.maxValue.toInt then some (Int64.ofInt n) else none

/-- The integer value of an integer, if it fits. -/
def toInteger? (n : Int) : Option Int32 :=
  if Int32.minValue.toInt ≤ n ∧ n ≤ Int32.maxValue.toInt then some (Int32.ofInt n) else none

/-- The narrowest value for an integer, if it fits 64 bits. -/
def integral? (n : Int) : Option Value :=
  match toInteger? n with
  | some m => some (.integer m)
  | none => (toLong? n).map .long

/-- Undoes the doubling of quotes. -/
def undoubleQuotes : List Char → List Char
  | '\x27' :: '\x27' :: cs => '\x27' :: undoubleQuotes cs
  | c :: cs => c :: undoubleQuotes cs
  | [] => []

/-- The text between the first and the last character. -/
def inner (cs : List Char) : List Char := (cs.drop 1).dropLast

/-- The number that a sign, digits with a point, and an exponent stand for. -/
def readDouble (cs : List Char) : Binary64 :=
  let (negative, cs) := splitSign cs
  let whole := cs.takeWhile Text.isAsciiDigit
  let cs := cs.drop whole.length
  let (fraction, cs) :=
    match cs with
    | '.' :: cs => (cs.takeWhile Text.isAsciiDigit, cs.dropWhile Text.isAsciiDigit)
    | _ => ([], cs)
  let exponent := match cs with
    | [] => 0
    | _ :: cs => readInt cs
  Binary64.ofDecimal negative (Text.decimalNumber (whole ++ fraction))
    (exponent - fraction.length)

/-- Whether a character marks a number as a double. -/
def isDoubleMark (c : Char) : Bool := c == 'd' || c == 'D' || c == 'f' || c == 'F'

/-- The date that ten characters stand for. -/
def readDate? (cs : List Char) : Option Date :=
  Date.ofParts? (Text.decimalNumber (cs.take 4)) (Text.decimalNumber ((cs.drop 5).take 2))
    (Text.decimalNumber ((cs.drop 8).take 2))

/-- The nanoseconds that the digits of a fraction stand for; those after the ninth are dropped. -/
def readNanos (cs : List Char) : Nat :=
  let digits := cs.take 9
  Text.decimalNumber digits * Nat.pow 10 (9 - digits.length)

/-- The date and time of a text without prefix and quotes. -/
def readDateTime? (cs : List Char) : Option DateTime := do
  let date ← readDate? cs
  let part (i : Nat) : Nat := Text.decimalNumber ((cs.drop i).take 2)
  DateTime.ofParts? date (part 11) (part 14) (part 17) (readNanos (cs.drop 20))

/-- Reads a text that matches the pattern of a family. -/
def Family.read? (cs : List Char) : Family → Option Value
  | null => some .null
  | boolean => some (.boolean (cs.map Text.asciiLower == "true".toList))
  | long => (toLong? (readInt cs.dropLast)).map .long
  | integer => integral? (readInt cs)
  | guid => (Guid.ofDigits? cs).map .guid
  | text => some (.string (String.ofList (undoubleQuotes (inner cs))))
  | double =>
    let x := readDouble (Text.dropEndWhile isDoubleMark cs)
    if x.isFinite then some (.double x) else none
  | date => (readDate? cs).map .date
  | dateTime =>
    let lower := cs.map Text.asciiLower
    let bare := (Text.after? "datetime'".toList lower).getD lower
    (readDateTime? (Text.dropEndWhile (· == '\x27') bare)).map .dateTime

/-- The value of a text that is a literal but no list. -/
def scalar? (cs : List Char) : Option Value :=
  Family.all.findSome? fun f => if matchesWhole f.pattern cs then f.read? cs else none

/-- The texts of the items of a list. -/
def listItems (cs : List Char) : List (List Char) :=
  let body := inner cs
  if Text.trim body = [] then [] else (Text.splitAt (· == ',') body).map Text.trim

theorem length_of_mem_listItems {cs item : List Char} (h : item ∈ listItems cs) :
    item.length < cs.length := by
  unfold listItems at h
  dsimp only at h
  split at h
  · simp at h
  · next hne =>
    obtain ⟨piece, hp, rfl⟩ := List.mem_map.1 h
    have h₁ := Text.length_of_mem_splitAt hp
    have h₂ := Text.length_trim_le piece
    have h₃ : cs ≠ [] := fun h => hne (by rw [h]; rfl)
    have h₄ := List.length_pos_iff.2 h₃
    simp only [inner, List.length_dropLast, List.length_drop] at h₁
    omega

/-- The value that a text denotes. -/
def classifyChars (cs : List Char) : Option Value :=
  match scalar? cs with
  | some v => some v
  | none =>
    if matchesWhole listPattern cs then
      some (.list ((listItems cs).attach.map fun ⟨item, _⟩ =>
        (classifyChars item).getD (.string (String.ofList item))))
    else none
termination_by cs.length
decreasing_by exact length_of_mem_listItems ‹_›

/-- The value that a text denotes. -/
def classify (text : String) : Option Value := classifyChars text.toList

end Criteria.Literal

import Criteria.Json.Basic

/-!
# Reading JSON

`Json.read?` reads a document strictly: blanks may surround it and its parts, and anything else
that the grammar of JSON does not allow makes it unreadable, as do a surrogate without its partner,
nesting beyond `maxDepth` and a number beyond the range of binary numbers. Of two members with one
name the later one counts.

An integer keeps its value as long as it has at most 64 bits. Any other number is computed in binary
from its leading digits, as many as fit 64 bits, by one multiplication or division by a power of
ten; `JsonNumber.ofParts?` says which digits count.
-/

namespace Criteria

/-! ### Numbers -/

namespace JsonNumber

/-- The largest integer of 64 bits without sign. -/
def maxUnsigned : Nat := UInt64.size - 1

/-- The largest magnitude of a negative integer of 64 bits. -/
def maxNegative : Nat := UInt64.size / 2

/-- The largest magnitude of an exponent as it is written. -/
def maxExponent : Nat := UInt32.size / 2 - 1

/-- Takes digits behind a number as long as the result has 64 bits: the number, and the digits that
are left. -/
def absorb : Nat → List Char → Nat × List Char
  | n, [] => (n, [])
  | n, c :: cs =>
    let m := 10 * n + (c.toNat - '0'.toNat)
    if m ≤ maxUnsigned then absorb m cs else (n, c :: cs)

/-- A power of ten up to the largest one. -/
def power (k : Nat) : Binary64 := Binary64.ofNat (Nat.pow 10 k)

/-- Divides by the largest power of ten until the exponent is in range; a handful of divisions
makes every number zero. -/
def scaleDown : Nat → Binary64 → Nat → Binary64
  | 0, x, _ => x
  | n + 1, x, k => if k ≤ 308 then x.div (power k) else scaleDown n (x.div (power 308)) (k - 308)

/-- The magnitude `n * 10 ^ e`, if it is in range. -/
def scaled? (n : Nat) (e : Int) : Option Binary64 :=
  let x := Binary64.ofNat n
  if e < 0 then some (scaleDown 4 x (-e).toNat)
  else if e ≤ 308 then
    let y := x.mul (power e.toNat)
    if y.isInfinite then none else some y
  else if n = 0 then some x
  else none

/-- An exponent kept within 32 bits. -/
def saturate (e : Int) : Int := max Int32.minValue.toInt (min Int32.maxValue.toInt e)

/-- The magnitude of a number with the given digits before and behind the point and the given
exponent. Of the digits that the number cannot take in any more, those before the point count for
the exponent. -/
def magnitude? (whole fraction : List Char) (exponent : Int) : Option Binary64 :=
  let (n, unread) := absorb 0 whole
  let (m, ignored) := absorb n fraction
  let taken := fraction.length - ignored.length
  let e : Int := unread.length - taken
  if exponent.natAbs ≤ maxExponent then scaled? m (saturate (e + exponent))
  else if m = 0 ∨ exponent < 0 then some .zero
  else none

/-- The number with the given parts. Without fraction and exponent it is an integer if it fits 64
bits; minus zero does not. -/
def ofParts? (negative : Bool) (whole : List Char) (fraction : Option (List Char))
    (exponent : Option Int) : Option JsonNumber :=
  let n := Text.decimalNumber whole
  let fits := if negative then 0 < n ∧ n ≤ maxNegative else n ≤ maxUnsigned
  if fraction.isNone ∧ exponent.isNone ∧ fits then
    some (.integer (if negative then -(n : Int) else n))
  else
    (magnitude? whole (fraction.getD []) (exponent.getD 0)).map fun x =>
      .float (x.withSign negative)

end JsonNumber

namespace Json

/-- Splits off decimal digits; there must be one. -/
def readDigits? (cs : List Char) : Option (List Char × List Char) :=
  match cs.span Text.isAsciiDigit with
  | ([], _) => none
  | (digits, rest) => some (digits, rest)

/-- Reads the digits before the point; a zero in front stands alone. -/
def readWhole? : List Char → Option (List Char × List Char)
  | '0' :: rest => if rest.head?.any Text.isAsciiDigit then none else some (['0'], rest)
  | cs => readDigits? cs

/-- Reads a point with digits, if there is one. -/
def readFraction? : List Char → Option (Option (List Char) × List Char)
  | '.' :: cs => (readDigits? cs).map fun (digits, rest) => (some digits, rest)
  | cs => some (none, cs)

/-- Reads the digits of an exponent with their sign. -/
def readSigned? : List Char → Option (Int × List Char)
  | '-' :: cs => (readDigits? cs).map fun (ds, rest) => (-(Text.decimalNumber ds : Int), rest)
  | '+' :: cs => (readDigits? cs).map fun (ds, rest) => (Text.decimalNumber ds, rest)
  | cs => (readDigits? cs).map fun (ds, rest) => (Text.decimalNumber ds, rest)

/-- Reads an exponent, if there is one. -/
def readExponent? : List Char → Option (Option Int × List Char)
  | 'e' :: cs | 'E' :: cs => (readSigned? cs).map fun (e, rest) => (some e, rest)
  | cs => some (none, cs)

/-- Reads a number. -/
def readNumber? (cs : List Char) : Option (JsonNumber × List Char) := do
  let (negative, cs) := match cs with
    | '-' :: cs => (true, cs)
    | cs => (false, cs)
  let (whole, cs) ← readWhole? cs
  let (fraction, cs) ← readFraction? cs
  let (exponent, cs) ← readExponent? cs
  return (← JsonNumber.ofParts? negative whole fraction exponent, cs)

/-! ### Strings -/

/-- The number that four hexadecimal digits stand for. -/
def hex4? (a b c d : Char) : Option Nat := Text.hexNumber? [a, b, c, d]

/-- The character of an escape sequence with one letter. -/
def unescape? : Char → Option Char
  | '\x22' => some '\x22'
  | '\\' => some '\\'
  | '/' => some '/'
  | 'b' => some '\x08'
  | 'f' => some '\x0c'
  | 'n' => some '\n'
  | 'r' => some '\r'
  | 't' => some '\t'
  | _ => none

/-- The character of a pair of surrogates. -/
def ofSurrogates? (high low : Nat) : Option Char :=
  if 0xD800 ≤ high ∧ high < 0xDC00 ∧ 0xDC00 ≤ low ∧ low < 0xE000 then
    some (Char.ofNat (0x10000 + (high - 0xD800) * 0x400 + (low - 0xDC00)))
  else none

/-- Reads a string behind its opening quote. -/
def readString? : List Char → Option (List Char × List Char)
  | [] => none
  | '\x22' :: rest => some ([], rest)
  | '\\' :: 'u' :: a :: b :: c :: d :: rest =>
    match hex4? a b c d with
    | none => none
    | some n =>
      if n.isValidChar then
        (readString? rest).map fun (cs, rest) => (Char.ofNat n :: cs, rest)
      else
        match rest with
        | '\\' :: 'u' :: e :: f :: g :: h :: rest =>
          match (hex4? e f g h).bind (ofSurrogates? n) with
          | none => none
          | some c => (readString? rest).map fun (cs, rest) => (c :: cs, rest)
        | _ => none
  | '\\' :: c :: rest =>
    match unescape? c with
    | none => none
    | some d => (readString? rest).map fun (cs, rest) => (d :: cs, rest)
  | c :: rest =>
    if c.toNat < 32 ∨ c = '\\' then none
    else (readString? rest).map fun (cs, rest) => (c :: cs, rest)

/-! ### Documents -/

/-- The blanks of JSON. -/
def isBlank (c : Char) : Bool := c == ' ' || c == '\t' || c == '\n' || c == '\r'

/-- The text without blanks in front. -/
def skipBlanks (cs : List Char) : List Char := cs.dropWhile isBlank

/-- How deep arrays and objects may be nested. -/
def maxDepth : Nat := 127

/-- Reads the name of a member with its colon. -/
def readName? (cs : List Char) : Option (String × List Char) :=
  match skipBlanks cs with
  | '\x22' :: cs => do
    let (name, rest) ← readString? cs
    match skipBlanks rest with
    | ':' :: rest => return (String.ofList name, rest)
    | _ => none
  | _ => none

mutual

/-- Reads a document in at most `n` steps, with arrays and objects nested at most `room` deep. -/
def readValue? : Nat → Nat → List Char → Option (Json × List Char)
  | 0, _, _ => none
  | n + 1, room, cs =>
    match skipBlanks cs with
    | 'n' :: 'u' :: 'l' :: 'l' :: rest => some (.null, rest)
    | 't' :: 'r' :: 'u' :: 'e' :: rest => some (.bool true, rest)
    | 'f' :: 'a' :: 'l' :: 's' :: 'e' :: rest => some (.bool false, rest)
    | '\x22' :: rest => (readString? rest).map fun (s, rest) => (.string (String.ofList s), rest)
    | '[' :: rest =>
      if room = 0 then none
      else
        match skipBlanks rest with
        | ']' :: rest => some (.array [], rest)
        | _ => (readItems? n (room - 1) rest).map fun (items, rest) => (.array items, rest)
    | '\x7b' :: rest =>
      if room = 0 then none
      else
        match skipBlanks rest with
        | '\x7d' :: rest => some (.object [], rest)
        | _ =>
          (readMembers? n (room - 1) rest).map fun (members, rest) =>
            (.object (Record.ofList members), rest)
    | cs => (readNumber? cs).map fun (n, rest) => (.number n, rest)

/-- Reads the items of an array up to its closing bracket. -/
def readItems? : Nat → Nat → List Char → Option (List Json × List Char)
  | 0, _, _ => none
  | n + 1, room, cs => do
    let (item, rest) ← readValue? n room cs
    match skipBlanks rest with
    | ',' :: rest => (readItems? n room rest).map fun (items, rest) => (item :: items, rest)
    | ']' :: rest => some ([item], rest)
    | _ => none

/-- Reads the members of an object up to its closing brace. -/
def readMembers? : Nat → Nat → List Char → Option (List (String × Json) × List Char)
  | 0, _, _ => none
  | n + 1, room, cs => do
    let (name, rest) ← readName? cs
    let (value, rest) ← readValue? n room rest
    match skipBlanks rest with
    | ',' :: rest =>
      (readMembers? n room rest).map fun (members, rest) => ((name, value) :: members, rest)
    | '\x7d' :: rest => some ([(name, value)], rest)
    | _ => none

end

/-- Reads a text as one document. Every character takes two steps at most. -/
def read? (text : String) : Option Json :=
  let cs := text.toList
  match readValue? (2 * cs.length + 2) maxDepth cs with
  | some (j, rest) => if skipBlanks rest = [] then some j else none
  | none => none

end Json

end Criteria

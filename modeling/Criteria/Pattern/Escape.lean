import Criteria.Pattern.Basic

/-!
# Escaped characters

In the text of a pattern a backslash takes a punctuation character literally, gives a control
character a letter, or names a class or a place. `Pattern.escape` is the other direction: the text
that stands for given characters literally.
-/

namespace Criteria.Pattern

/-- The characters with a meaning of their own in the text of a pattern. -/
def isMeta (c : Char) : Bool :=
  "\\.+*?()|[]\x7b\x7d^$#&-~".toList.contains c

/-- The text of a pattern that matches exactly the given characters. -/
def escape : List Char → List Char
  | [] => []
  | c :: cs => if isMeta c then '\\' :: c :: escape cs else c :: escape cs

@[simp] theorem escape_nil : escape [] = [] := rfl

theorem escape_cons (c : Char) (cs : List Char) :
    escape (c :: cs) = if isMeta c then '\\' :: c :: escape cs else c :: escape cs := rfl

/-- What an escape sequence stands for. -/
inductive Escaped where
  | char (c : Char)
  | set (s : CharSet)
  | anchor (a : Anchor)

/-- Whether a backslash in front takes the character literally: so it does with every ASCII
character but letters, digits and angle brackets. -/
def isEscapable (c : Char) : Bool :=
  c.toNat < 128 && !Text.isAsciiLetter c && !Text.isAsciiDigit c && c != '<' && c != '>'

/-- The character with the given code point. -/
def charOfCode? (n : Nat) : Option Char := if n.isValidChar then some (Char.ofNat n) else none

/-- Reads a code point of `digits` hexadecimal digits, or of any number of them in braces. -/
def readCodePoint (digits : Nat) : List Char → Option (Char × List Char)
  | '\x7b' :: cs =>
    let body := cs.takeWhile (· != '\x7d')
    match cs.drop body.length with
    | _ :: rest => do return (← charOfCode? (← Text.hexNumber? body), rest)
    | [] => none
  | cs =>
    if cs.length < digits then none
    else do return (← charOfCode? (← Text.hexNumber? (cs.take digits)), cs.drop digits)

/-- Reads an escape sequence behind its backslash. -/
def readEscape : List Char → Option (Escaped × List Char)
  | [] => none
  | c :: cs =>
    match c with
    | 'd' => some (.set .digit, cs)
    | 'D' => some (.set (.compl .digit), cs)
    | 's' => some (.set .blank, cs)
    | 'S' => some (.set (.compl .blank), cs)
    | 'w' => some (.set .word, cs)
    | 'W' => some (.set (.compl .word), cs)
    | 'x' => (readCodePoint 2 cs).map fun (d, rest) => (.char d, rest)
    | 'u' => (readCodePoint 4 cs).map fun (d, rest) => (.char d, rest)
    | 'U' => (readCodePoint 8 cs).map fun (d, rest) => (.char d, rest)
    | 'a' => some (.char '\x07', cs)
    | 'f' => some (.char '\x0c', cs)
    | 't' => some (.char '\t', cs)
    | 'n' => some (.char '\n', cs)
    | 'r' => some (.char '\r', cs)
    | 'v' => some (.char '\x0b', cs)
    | 'A' => some (.anchor .textStart, cs)
    | 'z' => some (.anchor .textEnd, cs)
    | 'b' => some (.anchor .wordEdge, cs)
    | 'B' => some (.anchor .noWordEdge, cs)
    | c => if isEscapable c then some (.char c, cs) else none

end Criteria.Pattern

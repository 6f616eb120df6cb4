import Criteria.Number.Shortest
import Criteria.Record
import Criteria.Text.Basic

/-!
# JSON documents

A document with its numbers as integers or binary numbers, and how it is written: on one line by
`Json.render`, or with indentation by `Json.renderPretty`.
-/

namespace Criteria

/-- A number of a document: an integer, or a binary number if it has a fraction or an exponent. -/
inductive JsonNumber where
  | integer (n : Int)
  | float (x : Binary64)
  deriving DecidableEq, Repr

/-- A JSON document. -/
inductive Json where
  | null
  | bool (b : Bool)
  | number (n : JsonNumber)
  | string (s : String)
  | array (items : List Json)
  | object (members : List (String × Json))
  deriving Repr, Inhabited

namespace Json

/-- Binary numbers are positional from 0.00001 up to 10^16, and have a sign in the exponent beyond;
of two shortest forms equally near the even one is written. -/
def numberFormat : Number.NumberFormat := ⟨-5, 16, true, false⟩

/-- Writes a number. -/
def renderNumber : JsonNumber → String
  | .integer n => toString n
  | .float x => numberFormat.write x

/-- The letter that escapes a control character, for those that have one. -/
def escapeLetter? : Char → Option Char
  | '\x08' => some 'b'
  | '\t' => some 't'
  | '\n' => some 'n'
  | '\x0c' => some 'f'
  | '\r' => some 'r'
  | _ => none

/-- The hexadecimal digit with the given value, in lower case. -/
def hexDigit (n : Nat) : Char :=
  if n < 10 then Char.ofNat ('0'.toNat + n) else Char.ofNat ('a'.toNat + (n - 10))

/-- Writes a character of a string: quotes, backslashes and control characters are escaped. -/
def escapeChar (c : Char) : List Char :=
  if c = '\x22' ∨ c = '\\' then ['\\', c]
  else if c.toNat < 32 then
    match escapeLetter? c with
    | some letter => ['\\', letter]
    | none => ['\\', 'u', '0', '0', hexDigit (c.toNat / 16), hexDigit (c.toNat % 16)]
  else [c]

/-- Writes a string in quotes. -/
def quote (s : String) : String :=
  "\x22" ++ String.ofList (s.toList.flatMap escapeChar) ++ "\x22"

mutual

/-- Writes a document without any blanks. -/
def render : Json → String
  | null => "null"
  | bool b => if b then "true" else "false"
  | number n => renderNumber n
  | string s => quote s
  | array items => "[" ++ renderItems items ++ "]"
  | object members => "\x7b" ++ renderMembers members ++ "\x7d"

/-- Writes items with commas between them. -/
def renderItems : List Json → String
  | [] => ""
  | [j] => render j
  | j :: rest => render j ++ "," ++ renderItems rest

/-- Writes members with commas between them. -/
def renderMembers : List (String × Json) → String
  | [] => ""
  | [(name, j)] => quote name ++ ":" ++ render j
  | (name, j) :: rest => quote name ++ ":" ++ render j ++ "," ++ renderMembers rest

end

/-- A new line at a given depth, two spaces to a level. -/
def newLine (depth : Nat) : String := String.ofList ('\n' :: List.replicate (2 * depth) ' ')

mutual

/-- Writes a document at a given depth, with every item and member on a line of its own; an empty
array or object stays on one line. -/
def renderAt (depth : Nat) : Json → String
  | array [] => "[]"
  | array (j :: rest) =>
    "[" ++ newLine (depth + 1) ++ renderItemsAt (depth + 1) (j :: rest) ++ newLine depth ++ "]"
  | object [] => "\x7b\x7d"
  | object (m :: rest) =>
    "\x7b" ++ newLine (depth + 1) ++ renderMembersAt (depth + 1) (m :: rest) ++ newLine depth ++
      "\x7d"
  | null => "null"
  | bool b => if b then "true" else "false"
  | number n => renderNumber n
  | string s => quote s

/-- Writes items on lines of their own. -/
def renderItemsAt (depth : Nat) : List Json → String
  | [] => ""
  | [j] => renderAt depth j
  | j :: rest => renderAt depth j ++ "," ++ newLine depth ++ renderItemsAt depth rest

/-- Writes members on lines of their own. -/
def renderMembersAt (depth : Nat) : List (String × Json) → String
  | [] => ""
  | [(name, j)] => quote name ++ ": " ++ renderAt depth j
  | (name, j) :: rest =>
    quote name ++ ": " ++ renderAt depth j ++ "," ++ newLine depth ++ renderMembersAt depth rest

end

/-- Writes a document with indentation. -/
def renderPretty (j : Json) : String := renderAt 0 j

end Json

end Criteria

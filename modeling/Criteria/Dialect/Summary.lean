import Criteria.Dialect.Basic
import Criteria.Text.Hidden

/-!
# Summaries of dialects

`Dialect.summary` names a dialect and counts its spellings on one line, for logs.
-/

namespace Criteria

namespace Text

/-- A number in hexadecimal digits of lower case. -/
def hexadecimal (n : Nat) : List Char := Nat.toDigits 16 n

/-- Writes a character so that it shows on a line of text: quotes and backslashes behind a
backslash, other characters that do not show on their own by letter or number. -/
def visible (c : Char) : List Char :=
  match c with
  | '\x22' | '\\' => ['\\', c]
  | '\x00' => ['\\', '0']
  | '\t' => ['\\', 't']
  | '\n' => ['\\', 'n']
  | '\x0d' => ['\\', 'r']
  | c =>
    if hiddenRanges.contains c.toNat then
      ['\\', 'u', '\x7b'] ++ hexadecimal c.toNat ++ ['\x7d']
    else [c]

end Text

/-- Name, treatment of case and number of spellings. -/
def Dialect.summary (d : Dialect) : String :=
  "Dialect \x7b name: \x22" ++ String.ofList (d.name.toList.flatMap Text.visible) ++
    "\x22, case_sensitive: " ++ (if d.caseSensitive then "true" else "false") ++
    ", operators: " ++ toString d.spellings.length ++ " \x7d"

end Criteria

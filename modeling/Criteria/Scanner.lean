import Criteria.Pattern.Matching
import Criteria.Pattern.Reader
import Criteria.SyntaxError
import Criteria.Token

/-!
# Scanning

A scanner splits a text into tokens by an ordered list of definitions. At every offset it skips one
match of the boundary and then takes the first definition that matches and is accepted; there is no
preference for the longest match. A definition may carry a guard, a second pattern that has to match
the text behind the token. A match of no characters is none, so every token moves the scan on, and
the length of the text bounds it.

Acceptance is asked of a function with a state of its own, which sees every candidate in order.
`Scan` records what came of a scan: the tokens, the state at the end, and where the scan stopped if
it did not reach the end of the text.
-/

namespace Criteria

/-- A pattern of tokens of one category, with an optional guard on what follows. -/
structure Definition (κ : Type) where
  kind : κ
  pattern : Pattern
  follow : Option Pattern := none

/-- A candidate for the next token: its category and its number of characters. -/
structure Candidate (κ : Type) where
  kind : κ
  size : Nat
  size_pos : 0 < size
  deriving DecidableEq

namespace Candidate

variable {κ : Type}

/-- The text of a candidate at the start of `rest`. -/
def text (c : Candidate κ) (rest : List Char) : String := String.ofList (rest.take c.size)

theorem drop_length_lt (c : Candidate κ) {rest : List Char} (h : rest ≠ []) :
    (rest.drop c.size).length < rest.length := by
  have := c.size_pos
  have := List.length_pos_iff.2 h
  simp only [List.length_drop]
  omega

end Candidate

namespace Definition

variable {κ : Type}

/-- Makes a definition from the texts of its patterns. -/
def ofText? (kind : κ) (ignoreCase : Bool) (source : String) (follow : Option String := none) :
    Except SyntaxError (Definition κ) :=
  match Pattern.anchored? ignoreCase source with
  | none => .error (.invalidPattern source)
  | some pattern =>
    match follow with
    | none => .ok { kind, pattern }
    | some guardSource =>
      match Pattern.anchored? ignoreCase guardSource with
      | none => .error (.invalidPattern guardSource)
      | some guard => .ok { kind, pattern, follow := some guard }

/-- The token that the definition finds at the start of `rest`. -/
def candidate? (d : Definition κ) (rest : List Char) : Option (Candidate κ) :=
  match d.pattern.matchEnd? rest with
  | none | some 0 => none
  | some (n + 1) =>
    if d.follow.all fun guard => guard.isMatch (rest.drop (n + 1)) then
      some ⟨d.kind, n + 1, Nat.succ_pos n⟩
    else none

end Definition

/-- What decides on candidates: from a state, the category and the text, the verdict and the next
state. -/
abbrev Acceptor (σ κ : Type) := σ → κ → String → Bool × σ

/-- Where a scan stopped before the end of its text. -/
structure Stop where
  offset : Nat
  remainder : String
  deriving DecidableEq, Repr

/-- The outcome of a scan. -/
structure Scan (σ κ : Type) where
  tokens : List (Token κ)
  stop : Option Stop
  state : σ

namespace Scan

variable {σ κ : Type}

/-- The scan with one more token in front. -/
def cons (t : Token κ) (s : Scan σ κ) : Scan σ κ := { s with tokens := t :: s.tokens }

/-- The tokens of a scan that reached the end of its text. -/
def result (s : Scan σ κ) : Except SyntaxError (List (Token κ)) :=
  match s.stop with
  | none => .ok s.tokens
  | some stop => .error (.unexpectedInput stop.offset stop.remainder)

end Scan

/-- An ordered list of token definitions, and the pattern that is skipped between tokens. -/
structure Scanner (κ : Type) where
  definitions : List (Definition κ)
  boundary : Pattern

namespace Scanner

variable {σ κ : Type}

/-- The usual boundary: white space, line breaks included. -/
def blanks : Pattern := .seq (.anchor .textStart) (.plus true (.one .blank))

/-- The scanner with the usual boundary. -/
def ofDefinitions (definitions : List (Definition κ)) : Scanner κ := ⟨definitions, blanks⟩

/-- The scanner with another boundary, given as the text of a pattern. -/
def withBoundary (s : Scanner κ) (source : String) : Except SyntaxError (Scanner κ) :=
  match Pattern.anchored? false source with
  | some boundary => .ok { s with boundary }
  | none => .error (.invalidPattern source)

/-- The number of characters that the boundary covers at the start of a text. -/
def gap (s : Scanner κ) (text : List Char) : Nat := (s.boundary.matchEnd? text).getD 0

/-- The first candidate at the start of `rest` that is accepted. -/
def choose (accept : Acceptor σ κ) : List (Definition κ) → List Char → σ →
    Option (Candidate κ) × σ
  | [], _, state => (none, state)
  | d :: definitions, rest, state =>
    match d.candidate? rest with
    | none => choose accept definitions rest state
    | some c =>
      match accept state c.kind (c.text rest) with
      | (true, state) => (some c, state)
      | (false, state) => choose accept definitions rest state

/-- Scans a text that starts at a byte offset of the whole input. -/
def scanFrom (s : Scanner κ) (accept : Acceptor σ κ) (offset : Nat) (text : List Char)
    (state : σ) : Scan σ κ :=
  let rest := text.drop (s.gap text)
  let start := offset + Text.byteLength (text.take (s.gap text))
  if _ : rest = [] then ⟨[], none, state⟩
  else
    match choose accept s.definitions rest state with
    | (none, state) => ⟨[], some ⟨start, String.ofList rest⟩, state⟩
    | (some c, state) =>
      (scanFrom s accept (start + Text.byteLength (rest.take c.size)) (rest.drop c.size)
        state).cons ⟨c.kind, c.text rest, start⟩
termination_by text.length
decreasing_by
  exact Nat.lt_of_lt_of_le (c.drop_length_lt ‹_›) (by simp)

/-- Scans a whole input. -/
def scan (s : Scanner κ) (accept : Acceptor σ κ) (input : String) (state : σ) : Scan σ κ :=
  s.scanFrom accept 0 input.toList state

/-- The tokens of an input when every candidate is accepted. -/
def tokenize (s : Scanner κ) (input : String) : Except SyntaxError (List (Token κ)) :=
  (s.scan (fun _ _ _ => (true, ())) input ()).result

end Scanner

end Criteria

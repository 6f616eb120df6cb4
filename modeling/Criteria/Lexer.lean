import Criteria.Grammar.Description

/-!
# Lexers

A lexer is a scanner whose candidates are filtered by a grammar: a candidate is accepted when the
present state has a transition for its category. So the same text can fall into one category after
an operand and into another where an operand is expected.
-/

namespace Criteria

/-- A scanner and the grammar that filters its candidates. -/
structure Lexer (κ : Type) where
  scanner : Scanner κ
  grammar : Grammar κ

/-- Consecutive tokens that were accepted in the same state. -/
structure Segment (κ : Type) where
  state : Nat
  tokens : List (Token κ)
  deriving DecidableEq, Repr

namespace Lexer

variable {κ : Type} [DecidableEq κ]

/-- Makes a lexer from a description that gives both the grammar and the patterns. -/
def ofDescription [Labelled κ] (resolve : String → Option κ) (ignoreCase : Bool) (text : String) :
    Except SyntaxError (Lexer κ) := do
  let (grammar, patterns) ← Description.load resolve true text
  let definitions ← patterns.mapM fun (kind, source) => Definition.ofText? kind ignoreCase source
  return ⟨.ofDefinitions definitions, grammar⟩

/-- Scans an input from a state of the grammar. -/
def scanFrom (l : Lexer κ) (state : Nat) (input : String) : Scan Nat κ :=
  l.scanner.scan (fun state kind _ => l.grammar.advance state kind) input state

/-- The tokens of an input, and the state after it or after the tokens before an error. -/
def tokenizeFrom (l : Lexer κ) (state : Nat) (input : String) :
    Except SyntaxError (List (Token κ)) × Nat :=
  let outcome := l.scanFrom state input
  (outcome.result, outcome.state)

/-- The tokens of an input. -/
def tokenize (l : Lexer κ) (input : String) : Except SyntaxError (List (Token κ)) :=
  (l.scanFrom l.grammar.initial input).result

/-- Puts a token that was accepted in `state` in front of the segments behind it. -/
def pushFront (state : Nat) (t : Token κ) : List (Segment κ) → List (Segment κ)
  | [] => [⟨state, [t]⟩]
  | s :: rest =>
    if s.state = state then ⟨state, t :: s.tokens⟩ :: rest else ⟨state, [t]⟩ :: s :: rest

/-- Groups tokens by the state in which each is accepted, from a given state on. -/
def segmentsFrom (g : Grammar κ) : Nat → List (Token κ) → Except SyntaxError (List (Segment κ))
  | _, [] => .ok []
  | state, t :: ts =>
    match g.next? state t.kind with
    | none => .error (.unexpectedInput t.start t.text)
    | some target => do return pushFront state t (← segmentsFrom g target ts)

/-- Groups tokens by the state in which each is accepted. -/
def segments (l : Lexer κ) (tokens : List (Token κ)) : Except SyntaxError (List (Segment κ)) :=
  segmentsFrom l.grammar l.grammar.initial tokens

end Lexer

end Criteria

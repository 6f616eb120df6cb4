import Criteria.Grammar.Basic
import Criteria.Scanner

/-!
# Descriptions of grammars

A grammar can be written as text, one item to a line:

* `name:` declares a state and opens it;
* `KIND|KIND:target` adds a transition from the open state, and declares the target;
* `KIND=pattern`, in the extended form, gives the pattern of a category.

Spaces, tabs and carriage returns may stand between the elements of a line. The description is
scanned and checked like any other text: `elements` is its scanner and `lineGrammar` the grammar of
its lines. `readLines` makes the list of lines out of the elements and `Line.apply` carries
a line out; a fault in the text is reported after the lines before it have been carried out.
-/

namespace Criteria.Description

/-- The elements of a description. -/
inductive Element where
  /-- A state with its colon. -/
  | state
  /-- The name of a category. -/
  | category
  | bar
  /-- A target with the colon in front. -/
  | target
  /-- A pattern with the equals sign in front. -/
  | pattern
  | lineBreak
  deriving DecidableEq, Repr

/-- The pattern of texts that start right here with the given patterns. -/
def here (ps : List Pattern) : Pattern := .seqAll (.anchor .textStart :: ps)

/-- Small letters and the underscore. -/
def lower : CharSet := .unionAll [.range 'a' 'z', .only '_']

/-- The characters of the name of a state. -/
def lowerOrDigit : CharSet := .unionAll [.range '0' '9', .range 'a' 'z', .only '_']

/-- The characters of the name of a category. -/
def upperOrDigit : CharSet := .unionAll [.range '0' '9', .range 'A' 'Z', .only '_']

/-- The scanner of descriptions. -/
def elements : Scanner Element where
  definitions :=
    [ ⟨.state, here [.one lower, .star true (.one lowerOrDigit), .char ':'], none⟩,
      ⟨.category, here [.plus true (.one upperOrDigit)], none⟩,
      ⟨.bar, here [.char '|'], none⟩,
      ⟨.target, here [.char ':', .plus true (.one lowerOrDigit)], none⟩,
      ⟨.pattern, here [.char '=', .plus true (.one .notLineFeed)], none⟩,
      ⟨.lineBreak, here [.char '\n'], none⟩ ]
  boundary := here [.plus true (.one (.unionAll [.only ' ', .only '\t', .only '\r']))]

/-- The grammar of the lines of a description. -/
def lineGrammar : Grammar Element where
  states :=
    [ ⟨"line", [⟨[.lineBreak, .state], 0⟩, ⟨[.category], 1⟩]⟩,
      ⟨"names", [⟨[.bar], 2⟩, ⟨[.target, .pattern], 3⟩]⟩,
      ⟨"chain", [⟨[.category], 1⟩]⟩,
      ⟨"end", [⟨[.lineBreak], 0⟩]⟩ ]
  initial := 0

/-- The elements of a description, as far as its lines are well formed. -/
def scan (text : String) : Except SyntaxError (List (Token Element)) :=
  let outcome := elements.scan (fun state kind _ => lineGrammar.advance state kind) text 0
  match outcome.stop with
  | none => .ok outcome.tokens
  | some stop =>
    let line := String.ofList (Text.firstLine stop.remainder.toList)
    .error (.invalidGrammar stop.offset s!"unexpected '{line}'")

/-- A line of a description. -/
inductive Line (κ : Type) where
  /-- Declares and opens a state. -/
  | state (name : String)
  /-- A transition of the open state `source`. -/
  | rule (source : String) (kinds : List κ) (target : String)
  | pattern (kind : κ) (source : String)
  deriving DecidableEq, Repr

/-- The lines of a description, in order, and the fault that ends them if there is one. -/
structure Lines (κ : Type) where
  lines : List (Line κ)
  fault : Option SyntaxError

/-- The lines with one more in front. -/
def Lines.cons {κ : Type} (l : Line κ) (ls : Lines κ) : Lines κ :=
  { ls with lines := l :: ls.lines }

section

variable {κ : Type}

/-- Reads the elements of a description from the state that is open and the categories that wait
for a target. `resolve` finds the category with a name; `size` is the length of the whole text. -/
def readLines (resolve : String → Option κ) (extended : Bool) (size : Nat) :
    Option String → List κ → List (Token Element) → Lines κ
  | _, [], [] => ⟨[], none⟩
  | _, _ :: _, [] => ⟨[], some (.invalidGrammar size "token list without a target")⟩
  | current, pending, t :: ts =>
    match t.kind with
    | .state =>
      let name := String.ofList (Text.dropEndWhile (· == ':') t.text.toList)
      (readLines resolve extended size (some name) pending ts).cons (.state name)
    | .category =>
      match resolve t.text with
      | some kind => readLines resolve extended size current (pending ++ [kind]) ts
      | none => ⟨[], some (.invalidGrammar t.start s!"unknown token '{t.text}'")⟩
    | .bar | .lineBreak => readLines resolve extended size current pending ts
    | .target =>
      match current with
      | none => ⟨[], some (.invalidGrammar t.start "transition outside of a state")⟩
      | some source =>
        (readLines resolve extended size current [] ts).cons
          (.rule source pending (String.ofList (t.text.toList.drop 1)))
    | .pattern =>
      if extended then
        match pending with
        | [kind] =>
          (readLines resolve extended size current [] ts).cons
            (.pattern kind (String.ofList (Text.trimEnd (t.text.toList.drop 1))))
        | _ => ⟨[], some (.invalidGrammar t.start "a pattern belongs to exactly one token")⟩
      else ⟨[], some (.invalidGrammar t.start "token patterns need the extended form")⟩

variable [DecidableEq κ] [Labelled κ]

/-- Carries out one line on a draft. -/
def Line.apply (d : GrammarDraft κ) : Line κ → Except SyntaxError (GrammarDraft κ)
  | .state name => .ok (d.addState name).2
  | .rule source kinds target => (d.addState target).2.transition source target kinds
  | .pattern _ _ => .ok d

/-- The category and the source of a line that gives a pattern. -/
def Line.pattern? : Line κ → Option (κ × String)
  | .pattern kind source => some (kind, source)
  | _ => none

/-- The grammar and the patterns that lines describe. -/
def Lines.load (ls : Lines κ) : Except SyntaxError (Grammar κ × List (κ × String)) := do
  let draft ← ls.lines.foldlM Line.apply {}
  match ls.fault with
  | some fault => throw fault
  | none => return (← draft.build, ls.lines.filterMap Line.pattern?)

/-- Reads a description: the grammar, and in the extended form the patterns in order. -/
def load (resolve : String → Option κ) (extended : Bool) (text : String) :
    Except SyntaxError (Grammar κ × List (κ × String)) := do
  let elements ← scan text
  (readLines resolve extended (Text.byteLength text.toList) none [] elements).load

end

end Criteria.Description

namespace Criteria

/-- The grammar that a text describes. -/
def Grammar.ofDescription {κ : Type} [DecidableEq κ] [Labelled κ] (resolve : String → Option κ)
    (text : String) : Except SyntaxError (Grammar κ) := do
  return (← Description.load resolve false text).1

end Criteria

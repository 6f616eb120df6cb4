import Criteria.SyntaxError
import Criteria.Token

/-!
# Grammars of token categories

A grammar is a finite automaton over token categories with named states: it says which categories
may come next. A position in it is the index of a state, so that one grammar serves any number of
scans. `GrammarDraft` puts a grammar together state by state and transition by transition; it
refuses a second transition for a category, so that a built grammar has at most one next state.
-/

namespace Criteria

/-- A transition to one target on any of several categories. -/
structure Transition (κ : Type) where
  kinds : List κ
  target : Nat
  deriving DecidableEq, Repr

/-- A named state with its transitions. -/
structure GrammarState (κ : Type) where
  name : String
  transitions : List (Transition κ) := []
  deriving DecidableEq, Repr

namespace GrammarState

variable {κ : Type} [DecidableEq κ]

/-- The index of the state that a category leads to. -/
def target? (s : GrammarState κ) (kind : κ) : Option Nat :=
  (s.transitions.find? fun t => t.kinds.contains kind).map (·.target)

/-- The categories that lead out of the state. -/
def expected (s : GrammarState κ) : List κ := s.transitions.flatMap (·.kinds)

end GrammarState

/-- Named states, of which one is the first. -/
structure Grammar (κ : Type) where
  states : List (GrammarState κ)
  initial : Nat
  deriving DecidableEq, Repr

namespace Grammar

variable {κ : Type}

/-- The index of the state with the given name. -/
def stateIndex? (g : Grammar κ) (name : String) : Option Nat :=
  g.states.findIdx? fun s => s.name == name

/-- The name of a state. -/
def stateName? (g : Grammar κ) (state : Nat) : Option String := g.states[state]?.map (·.name)

variable [DecidableEq κ]

/-- The state that a category leads to from another. -/
def next? (g : Grammar κ) (state : Nat) (kind : κ) : Option Nat :=
  g.states[state]?.bind (·.target? kind)

/-- The categories that may come next in a state. -/
def expected (g : Grammar κ) (state : Nat) : List κ :=
  (g.states[state]?.map (·.expected)).getD []

/-- Moves along the transition for a category; without one, the state stays and the answer is
no. -/
def advance (g : Grammar κ) (state : Nat) (kind : κ) : Bool × Nat :=
  match g.next? state kind with
  | some target => (true, target)
  | none => (false, state)

end Grammar

/-- A grammar under construction. -/
structure GrammarDraft (κ : Type) where
  states : List (GrammarState κ) := []
  initial : Option Nat := none
  deriving DecidableEq, Repr

namespace GrammarDraft

variable {κ : Type}

/-- The index of the state with the given name. -/
def stateIndex? (d : GrammarDraft κ) (name : String) : Option Nat :=
  d.states.findIdx? fun s => s.name == name

/-- The index of a state, which has to be declared. -/
def find (d : GrammarDraft κ) (name : String) : Except SyntaxError Nat :=
  match d.stateIndex? name with
  | some i => .ok i
  | none => .error (.unknownState name)

/-- Declares a state unless there is one with its name, and gives its index. -/
def addState (d : GrammarDraft κ) (name : String) : Nat × GrammarDraft κ :=
  match d.stateIndex? name with
  | some i => (i, d)
  | none => (d.states.length, { d with states := d.states ++ [{ name }] })

/-- Makes a declared state the first one; otherwise that is the one declared first. -/
def setInitial (d : GrammarDraft κ) (name : String) : Except SyntaxError (GrammarDraft κ) := do
  let i ← d.find name
  return { d with initial := some i }

variable [DecidableEq κ]

/-- The given categories without repetitions, unless one of them already has a target. -/
def newKinds (s : GrammarState κ) (label : κ → String) : List κ → List κ →
    Except SyntaxError (List κ)
  | [], chosen => .ok chosen
  | kind :: kinds, chosen =>
    if (s.target? kind).isSome then .error (.ambiguousTransition s.name (label kind))
    else newKinds s label kinds (if kind ∈ chosen then chosen else chosen ++ [kind])

/-- Adds a transition between declared states on any of the given categories. -/
def transition [Labelled κ] (d : GrammarDraft κ) (source target : String) (kinds : List κ) :
    Except SyntaxError (GrammarDraft κ) := do
  let i ← d.find source
  let j ← d.find target
  match d.states[i]? with
  | none => throw (.unknownState source)
  | some s =>
    let kinds ← newKinds s Labelled.label kinds []
    let s := { s with transitions := s.transitions ++ [⟨kinds, j⟩] }
    return { d with states := d.states.set i s }

/-- The finished grammar; it needs a state. -/
def build (d : GrammarDraft κ) : Except SyntaxError (Grammar κ) :=
  if d.states.isEmpty then .error .noInitialState
  else .ok ⟨d.states, d.initial.getD 0⟩

end GrammarDraft

end Criteria

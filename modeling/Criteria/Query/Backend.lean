import Criteria.Evaluation

/-!
# Query backends

A term can be compiled into an expression of a query language. What the query language offers is a
`Backend`: how to join along a field, how to read an attribute, how to write a literal, and one
builder for each kind of operation. A builder may fail, and may change the state of the backend even
so. Joins are remembered in an `EdgeMemo`, so that a path used twice is joined once.
-/

namespace Criteria.Query

/-- How an edge of the graph of paths is joined. -/
inductive EdgeKind where
  | inner
  | left
  deriving DecidableEq, Repr

/-- A cause for which compilation fails. -/
inductive CompileError where
  /-- A failure of the backend, in its own words. -/
  | backend (message : String)
  /-- A part that has to be evaluated for the query has no value. -/
  | evaluation (e : EvalError)
  /-- An operator that the backend does not have, or has not for such operands. -/
  | unsupported (operator : String)
  deriving DecidableEq, Repr

/-- The wording of an error. -/
def CompileError.message : CompileError → String
  | backend message => message
  | evaluation e =>
    let text := e.message
    s!"compile-time evaluation failed: {text}"
  | unsupported operator => s!"operator '{operator}' is not supported by this backend"

/-- An edge: its source, the field it follows and its kind. -/
structure Edge (ν : Type) where
  source : ν
  field : String
  kind : EdgeKind
  deriving DecidableEq, Repr

/-- The edges created so far with the nodes they lead to, each edge once. -/
structure EdgeMemo (ν : Type) where
  entries : List (Edge ν × ν) := []
  deriving Repr

namespace EdgeMemo

variable {ν : Type} [DecidableEq ν]

/-- The node that an edge leads to. -/
def get? (m : EdgeMemo ν) (e : Edge ν) : Option ν :=
  (m.entries.find? fun entry => entry.1 = e).map (·.2)

/-- Remembers where an edge leads, in place of what was remembered for it. -/
def insert (m : EdgeMemo ν) (e : Edge ν) (target : ν) : EdgeMemo ν :=
  ⟨(e, target) :: m.entries.filter fun entry => entry.1 ≠ e⟩

/-- The number of edges. -/
def size (m : EdgeMemo ν) : Nat := m.entries.length

@[simp] theorem get?_insert_self (m : EdgeMemo ν) (e : Edge ν) (target : ν) :
    (m.insert e target).get? e = some target := by
  simp [get?, insert]

theorem get?_insert_of_ne {m : EdgeMemo ν} {e e' : Edge ν} (h : e' ≠ e) (target : ν) :
    (m.insert e target).get? e' = m.get? e' := by
  have h' : ¬ e = e' := fun he => h he.symm
  simp only [get?, insert, List.find?_cons, decide_eq_false h']
  congr 1
  induction m.entries with
  | nil => rfl
  | cons entry rest ih =>
    by_cases hd : entry.1 = e
    · rw [List.filter_cons_of_neg (by simpa using hd), ih, List.find?_cons_of_neg]
      simpa [hd] using h'
    · rw [List.filter_cons_of_pos (by simpa using hd)]
      by_cases he : entry.1 = e'
      · rw [List.find?_cons_of_pos (by simpa using he), List.find?_cons_of_pos (by simpa using he)]
      · rw [List.find?_cons_of_neg (by simpa using he), List.find?_cons_of_neg (by simpa using he),
          ih]

end EdgeMemo

/-- A call of a backend with the state `σ`; the state may change even if the call fails. -/
abbrev Call (σ α : Type) := ExceptT CompileError (StateM σ) α

/-- A query language: `ν` are the nodes of the graph of paths and `ε` the expressions. The root is one
node in every state `σ`. The edges that are remembered stand beside the state, where no builder sees
or changes them, and paths are resolved in one way for all backends. -/
structure Backend (σ ν ε : Type) where
  /-- The node from which paths start. -/
  root : ν
  createEdge : ν → String → EdgeKind → Call σ ν
  readField : ν → String → Call σ ε
  /-- A constant, typed after the other side of an operator if that has a type. -/
  literal : Value → Option ValueType → Call σ ε
  nullLiteral : Option ValueType → Call σ ε
  external : Nat → Call σ ε
  /-- The type of an expression, as far as it is known. -/
  declaredType : σ → ε → Option ValueType
  /-- Marks the query as in need of the elimination of duplicates. -/
  requireDistinct : σ → σ
  conjunction : ε → ε → Call σ ε
  disjunction : ε → ε → Call σ ε
  negation : ε → Call σ ε
  equal : ε → ε → Call σ ε
  isNull : ε → Call σ ε
  isEmpty : ε → Call σ ε
  alwaysTrue : Call σ ε
  compare : Comparison → ε → ε → Call σ ε
  arithmetic : Arithmetic → ε → ε → Call σ ε
  concat : ε → ε → Call σ ε
  /-- A match against a pattern in which `%` stands for any characters. -/
  like : ε → String → Call σ ε
  inList : ε → List ε → Call σ ε
  conditional : ε → ε → ε → Call σ ε
  /-- The number of elements, or of different elements. -/
  count : ε → Bool → Call σ ε
  named : ε → String → Call σ ε

end Criteria.Query

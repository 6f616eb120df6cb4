import Criteria.Proofs.Evaluation.Operands
import Criteria.Query.Compile

/-!
# Steps of compilation

How steps of compilation run one after the other, and what the compilation of a term consists of:

* `bind_of_ok`, `bind_of_error`, `bind_cases`: a step and what comes behind it;
* `walk_cons`, `compile_reference`, `compile_apply`: the equations of walks and terms, in which what
  is done with the session has a name;
* `sessionBehind`: the session behind several terms, compiled one after the other.
-/

namespace Criteria

open Query

namespace Query

variable {σ ν ε α β : Type}

/-! ### Sequences of steps -/

theorem bind_of_ok {m : Compiling σ ν α} {f : α → Compiling σ ν β} {s s' : Session σ ν} {a : α}
    (h : m s = (.ok a, s')) : (m >>= f) s = f a s' := by
  change (ExceptT.bindCont f (m s).1) (m s).2 = _
  rw [h]
  rfl

theorem bind_of_error {m : Compiling σ ν α} {f : α → Compiling σ ν β} {s s' : Session σ ν}
    {e : CompileError} (h : m s = (.error e, s')) : (m >>= f) s = (.error e, s') := by
  change (ExceptT.bindCont f (m s).1) (m s).2 = _
  rw [h]
  rfl

/-- Either a step succeeds and what is behind it runs, or its failure is that of the whole. -/
theorem bind_cases (m : Compiling σ ν α) (f : α → Compiling σ ν β) (s : Session σ ν) :
    (∃ a s', m s = (.ok a, s') ∧ (m >>= f) s = f a s') ∨
      ∃ e s', m s = (.error e, s') ∧ (m >>= f) s = (.error e, s') := by
  rcases h : m s with ⟨_ | a, s'⟩
  · exact .inr ⟨_, s', rfl, bind_of_error h⟩
  · exact .inl ⟨a, s', rfl, bind_of_ok h⟩

/-- A sequence of steps succeeds if both parts do. -/
theorem bind_eq_ok_iff {m : Compiling σ ν α} {f : α → Compiling σ ν β} {s s' : Session σ ν} {b : β} :
    (m >>= f) s = (.ok b, s') ↔ ∃ a s₁, m s = (.ok a, s₁) ∧ f a s₁ = (.ok b, s') := by
  constructor
  · intro h
    obtain ⟨a, s₁, hm, hf⟩ | ⟨e, s₁, -, hf⟩ := bind_cases m f s
    · exact ⟨a, s₁, hm, hf ▸ h⟩
    · rw [hf] at h
      cases h
  · rintro ⟨a, s₁, hm, hf⟩
    rw [bind_of_ok hm, hf]

theorem map_snd (f : α → β) (m : Compiling σ ν α) (s : Session σ ν) : ((f <$> m) s).2 = (m s).2 := by
  rw [map_eq_pure_bind]
  obtain ⟨a, s', hm, hb⟩ | ⟨e, s', hm, hb⟩ := bind_cases m (fun a => pure (f a)) s <;> rw [hb, hm]
  rfl

/-! ### Accesses to the session -/

/-- Where an edge leads, if it has been created. -/
def lookUp [DecidableEq ν] (e : Edge ν) : Compiling σ ν (Option ν) := fun s => (.ok (s.memo.get? e), s)

/-- Remembers where an edge leads. -/
def remember [DecidableEq ν] (e : Edge ν) (target : ν) : Compiling σ ν Unit := fun s =>
  (.ok (), { s with memo := s.memo.insert e target })

/-- The number of joined references so far. -/
def countJoins : Compiling σ ν Nat := fun s => (.ok s.joins, s)

/-- Sets the number of joined references. -/
def setJoins (n : Nat) : Compiling σ ν Unit := fun s => (.ok (), { s with joins := n })

/-- Counts a reference if it joined. -/
def counted (m : Compiling σ ν (Compiled ε)) : Compiling σ ν (Compiled ε) := do
  let c ← m
  if c.joined then setJoins ((← countJoins) + 1)
  return c

/-- Tells of an expression whether references were counted below it. -/
def noticed (m : Compiling σ ν ε) : Compiling σ ν (Compiled ε) := do
  let before ← countJoins
  let expr ← m
  return ⟨expr, before < (← countJoins)⟩

/-- Forgets the references counted in a step that succeeds. -/
def uncounted (m : Compiling σ ν α) : Compiling σ ν α := do
  let before ← countJoins
  let a ← m
  setJoins before
  return a

/-- Asks for the elimination of duplicates. -/
def eliminateDuplicates (b : Backend σ ν ε) : Compiling σ ν Unit := fun s =>
  (.ok (), { s with backend := b.requireDistinct s.backend })

/-! ### A small backend -/

/-- The backend whose expressions are the names of the calls that made them. -/
def Backend.naming : Backend Unit String String where
  root := "root"
  createEdge source field _ := pure (source ++ "_" ++ field)
  readField _ _ := pure "field"
  literal _ _ := pure "literal"
  nullLiteral _ := pure "null"
  external _ := pure "external"
  declaredType _ _ := none
  requireDistinct _ := ()
  conjunction _ _ := pure "and"
  disjunction _ _ := pure "or"
  negation _ := pure "not"
  equal _ _ := pure "equal"
  isNull _ := pure "is_null"
  isEmpty _ := pure "is_empty"
  alwaysTrue := pure "always_true"
  compare _ _ _ := pure "compare"
  arithmetic _ _ _ := pure "arithmetic"
  concat _ _ := pure "concat"
  like _ _ := pure "like"
  inList _ _ := pure "in_list"
  conditional _ _ _ := pure "conditional"
  count _ _ := pure "count"
  named _ _ := pure "alias"

/-! ### Equations -/

theorem walk_cons [DecidableEq ν] (b : Backend σ ν ε) (node : ν) (field : String)
    (rest : List String) : walk b node (field :: rest) = (do
      match ← lookUp ⟨node, field, .left⟩ with
      | some next => walk b next rest
      | none =>
        let next ← call (b.createEdge node field .left)
        remember ⟨node, field, .left⟩ next
        walk b next rest) := by
  funext s
  rw [walk]
  rfl

theorem flagJoins_eq (b : Backend σ ν ε) (op : Operator) (operands : List (Compiled ε)) :
    flagJoins b op operands =
      if op.isComparison ∧ ∃ c ∈ operands, c.joined then eliminateDuplicates b else pure () := by
  simp only [flagJoins, Bool.and_eq_true, List.any_eq_true]
  rfl

theorem compileCount_eq (b : Backend σ ν ε) (distinct : Bool)
    (compileOperand : Option ValueType → Compiling σ ν (Compiled ε)) :
    compileCount b distinct compileOperand = (do
      let c ← uncounted (compileOperand none)
      call (b.count c.expr distinct)) := by
  simp only [uncounted, bind_assoc, pure_bind]
  rfl

end Query

variable {σ ν ε α β : Type} [DecidableEq ν]

theorem Term.compile_reference (b : Backend σ ν ε) (path : FieldPath) (target : Option ValueType) :
    (Term.reference path).compile b target = counted (resolvePath b path) := by
  rw [Term.compile]
  rfl

theorem Term.compile_apply (b : Backend σ ν ε) (op : Operator) (operands : List Term)
    (target : Option ValueType) :
    (Term.apply op operands).compile b target = noticed (op.compile b operands) := by
  rw [Term.compile]
  rfl

namespace Query

/-! ### Several terms -/

/-- The session behind the compilation of terms one after the other. -/
def sessionAfter (b : Backend σ ν ε) (ts : List Term) (s : Session σ ν) : Session σ ν :=
  ts.foldl (fun s t => (t.compile b none s).2) s

@[simp] theorem sessionAfter_nil (b : Backend σ ν ε) (s : Session σ ν) : sessionAfter b [] s = s := rfl

@[simp] theorem sessionAfter_cons (b : Backend σ ν ε) (t : Term) (ts : List Term) (s : Session σ ν) :
    sessionAfter b (t :: ts) s = sessionAfter b ts (t.compile b none s).2 := rfl

theorem compileEach_snd (b : Backend σ ν ε) (ts : List Term) (s : Session σ ν) :
    (compileEach b ts s).2 = sessionAfter b ts { s with joins := 0 } := by
  have each (ts : List Term) (s : Session σ ν) :
      (ts.mapM (fun t => ((·.expr) <$> t.compile b none).run) s).2 = sessionAfter b ts s := by
    induction ts generalizing s with
    | nil => rfl
    | cons t ts ih =>
      rw [List.mapM_cons, sessionAfter_cons, ← map_snd (·.expr), ← ih]
      rfl
  exact each ts _

/-- The session behind several lists of terms, each compiled with a counter of its own. -/
def sessionBehind (b : Backend σ ν ε) (batches : List (List Term)) (s : Session σ ν) : Session σ ν :=
  batches.foldl (fun s ts => (compileEach b ts s).2) s

@[simp] theorem sessionBehind_nil (b : Backend σ ν ε) (s : Session σ ν) :
    sessionBehind b [] s = s := rfl

@[simp] theorem sessionBehind_cons (b : Backend σ ν ε) (ts : List Term) (batches : List (List Term))
    (s : Session σ ν) : sessionBehind b (ts :: batches) s =
      sessionBehind b batches (sessionAfter b ts { s with joins := 0 }) := by
  rw [← compileEach_snd]
  rfl

end Query

namespace Operator

theorem compile_pair (b : Backend σ ν ε) (op : Operator) (left right : Term) :
    op.compile b [left, right] = compilePair b op left right (left.compile b) (right.compile b) := by
  cases op <;> rw [Operator.compile]

/-- With a wrong number of operands nothing is compiled. -/
theorem compile_of_not_fits (b : Backend σ ν ε) {op : Operator} {operands : List Term}
    (h : ¬ Fits op operands) :
    op.compile b operands = throw (.evaluation (.malformed op operands.length)) := by
  rw [fits_iff] at h
  match operands with
  | [] => cases op <;> rfl
  | [_] => cases op <;> first | rfl | exact absurd rfl h
  | [_, _] =>
    rw [compile_pair]
    cases op <;> first | rfl | exact absurd rfl h
  | [_, _, _] => cases op <;> first | rfl | exact absurd rfl h
  | _ :: _ :: _ :: _ :: _ => cases op <;> rfl

end Operator

theorem Term.isNullLiteral_iff {t : Term} : t.isNullLiteral = true ↔ t = .literal .null := by
  unfold Term.isNullLiteral
  split <;> simp_all

end Criteria

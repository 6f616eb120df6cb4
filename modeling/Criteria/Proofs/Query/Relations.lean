import Criteria.Proofs.Query.Steps
import Mathlib.Tactic.SplitIfs

/-!
# Related compilations

Two backends with the same nodes and expressions compile a term by the same steps, up to what their
calls do. A relation between steps that holds of the calls and is kept by what compilation does with
them therefore holds of whole terms.

* `Term.references`: the references in a term that are compiled, in the order in which they are;
* `RelatesAlong.compile`: the relation may depend on the references resolved in a step;
* `Relates.compile`: or it may not.
-/

namespace Criteria

open Query

/-! ### The references in a term -/

/-- The number of operands that are compiled. The pattern of an operator on texts and the name in an
alias are not, since they become texts. -/
def Operator.compiledOperands (op : Operator) : Nat :=
  match op with
  | .contains | .startsWith | .endsWith | .named => 1
  | op => op.arity

mutual

/-- The references in a term that are compiled. -/
def Term.references : Term → List FieldPath
  | .reference path => [path]
  | .literal _ | .external _ => []
  | .apply op operands => ((referencesEach operands).take op.compiledOperands).flatten

/-- The references in each of several terms. -/
def Term.referencesEach : List Term → List (List FieldPath)
  | [] => []
  | t :: ts => t.references :: referencesEach ts

end

/-- The references in the operands of an operator. -/
def Operator.references (op : Operator) (operands : List Term) : List FieldPath :=
  ((operands.map Term.references).take op.compiledOperands).flatten

theorem Term.references_apply (op : Operator) (operands : List Term) :
    (Term.apply op operands).references = op.references operands := by
  have hmap (ts : List Term) : referencesEach ts = ts.map references := by
    induction ts with
    | nil => rfl
    | cons t ts ih => rw [referencesEach, ih, List.map_cons]
  rw [Term.references, hmap, Operator.references]

theorem Term.references_of_isLiteral {t : Term} (h : t.isLiteral = true) : t.references = [] := by
  cases t <;> first | rfl | cases h

theorem Term.references_of_isNullLiteral {t : Term} (h : t.isNullLiteral = true) :
    t.references = [] := by
  rw [Term.isNullLiteral_iff.1 h]
  rfl

namespace Operator

variable {op : Operator} (left right : Term)

theorem references_first (rest : List Term) (h : op.compiledOperands = 1) :
    op.references (left :: rest) = left.references := by
  simp [references, h]

theorem references_pair (h : op.compiledOperands = 2) :
    op.references [left, right] = left.references ++ right.references := by
  simp [references, h]

end Operator

namespace Query

variable {σ₁ σ₂ ν ε α β : Type}

/-! ### Related backends -/

/-- Whether the builders of two backends are related one by one. -/
structure Backend.Related (C : ∀ {α : Type}, Call σ₁ α → Call σ₂ α → Prop) (b₁ : Backend σ₁ ν ε)
    (b₂ : Backend σ₂ ν ε) : Prop where
  literal v target : C (b₁.literal v target) (b₂.literal v target)
  nullLiteral target : C (b₁.nullLiteral target) (b₂.nullLiteral target)
  external handle : C (b₁.external handle) (b₂.external handle)
  conjunction l r : C (b₁.conjunction l r) (b₂.conjunction l r)
  disjunction l r : C (b₁.disjunction l r) (b₂.disjunction l r)
  negation e : C (b₁.negation e) (b₂.negation e)
  equal l r : C (b₁.equal l r) (b₂.equal l r)
  isNull e : C (b₁.isNull e) (b₂.isNull e)
  isEmpty e : C (b₁.isEmpty e) (b₂.isEmpty e)
  alwaysTrue : C b₁.alwaysTrue b₂.alwaysTrue
  compare c l r : C (b₁.compare c l r) (b₂.compare c l r)
  arithmetic f l r : C (b₁.arithmetic f l r) (b₂.arithmetic f l r)
  concat l r : C (b₁.concat l r) (b₂.concat l r)
  like e pattern : C (b₁.like e pattern) (b₂.like e pattern)
  inList e items : C (b₁.inList e items) (b₂.inList e items)
  conditional c l r : C (b₁.conditional c l r) (b₂.conditional c l r)
  count e distinct : C (b₁.count e distinct) (b₂.count e distinct)
  named e name : C (b₁.named e name) (b₂.named e name)

theorem Backend.Related.imp {C D : ∀ {α : Type}, Call σ₁ α → Call σ₂ α → Prop}
    {b₁ : Backend σ₁ ν ε} {b₂ : Backend σ₂ ν ε} (h : b₁.Related C b₂)
    (hcd : ∀ {α : Type} {c₁ : Call σ₁ α} {c₂ : Call σ₂ α}, C c₁ c₂ → D c₁ c₂) :
    b₁.Related D b₂ := by
  cases h
  constructor <;> intros <;> exact hcd (by solve_by_elim)

variable [DecidableEq ν]

/-- Whether a relation between steps in which references are resolved is one for each thing that
compilation does, against `b₁` on the left and `b₂` on the right. -/
structure RelatesAlong
    (P : ∀ {α : Type}, List FieldPath → Compiling σ₁ ν α → Compiling σ₂ ν α → Prop)
    (b₁ : Backend σ₁ ν ε) (b₂ : Backend σ₂ ν ε) : Prop where
  calls : b₁.Related (fun c₁ c₂ => P [] (call c₁) (call c₂)) b₂
  pure {α : Type} (a : α) : P [] (pure a) (pure a)
  /-- What is behind a failure is not reached. -/
  throw {α : Type} (paths : List FieldPath) (e : CompileError) : P (α := α) paths (throw e) (throw e)
  bind {α β : Type} {paths more : List FieldPath} {m₁ : Compiling σ₁ ν α} {m₂ : Compiling σ₂ ν α}
    {f₁ : α → Compiling σ₁ ν β} {f₂ : α → Compiling σ₂ ν β} : P paths m₁ m₂ →
      (∀ a, P more (f₁ a) (f₂ a)) → P (paths ++ more) (m₁ >>= f₁) (m₂ >>= f₂)
  typeOf e : P [] (typeOf b₁ e) (typeOf b₂ e)
  eliminateDuplicates : P [] (eliminateDuplicates b₁) (eliminateDuplicates b₂)
  reference path : P [path] (counted (resolvePath b₁ path)) (counted (resolvePath b₂ path))
  noticed {paths : List FieldPath} {m₁ : Compiling σ₁ ν ε} {m₂ : Compiling σ₂ ν ε} :
    P paths m₁ m₂ → P paths (noticed m₁) (noticed m₂)
  uncounted {paths : List FieldPath} {m₁ : Compiling σ₁ ν (Compiled ε)}
    {m₂ : Compiling σ₂ ν (Compiled ε)} : P paths m₁ m₂ → P paths (uncounted m₁) (uncounted m₂)

namespace RelatesAlong

variable {P : ∀ {α : Type}, List FieldPath → Compiling σ₁ ν α → Compiling σ₂ ν α → Prop}
  {b₁ : Backend σ₁ ν ε} {b₂ : Backend σ₂ ν ε} (h : RelatesAlong P b₁ b₂)

include h

/-- A step with one behind it in which nothing is resolved. -/
theorem bind_silent {paths : List FieldPath} {m₁ : Compiling σ₁ ν α} {m₂ : Compiling σ₂ ν α}
    {f₁ : α → Compiling σ₁ ν β} {f₂ : α → Compiling σ₂ ν β} (hm : P paths m₁ m₂)
    (hf : ∀ a, P [] (f₁ a) (f₂ a)) : P paths (m₁ >>= f₁) (m₂ >>= f₂) :=
  List.append_nil paths ▸ h.bind hm hf

/-- A step behind one in which nothing is resolved. -/
theorem silent_bind {paths : List FieldPath} {m₁ : Compiling σ₁ ν α} {m₂ : Compiling σ₂ ν α}
    {f₁ : α → Compiling σ₁ ν β} {f₂ : α → Compiling σ₂ ν β} (hm : P [] m₁ m₂)
    (hf : ∀ a, P paths (f₁ a) (f₂ a)) : P paths (m₁ >>= f₁) (m₂ >>= f₂) :=
  h.bind hm hf

theorem constant (v : Value) (target : Option ValueType) :
    P [] (constant b₁ v target) (constant b₂ v target) := by
  cases v <;> first | exact h.calls.nullLiteral target | exact h.calls.literal ..

theorem constants (items : List Value) (target : Option ValueType) :
    P [] (items.mapM fun v => Query.constant b₁ v target)
      (items.mapM fun v => Query.constant b₂ v target) := by
  induction items with
  | nil => exact h.pure []
  | cons v items ih =>
    rw [List.mapM_cons, List.mapM_cons]
    exact h.silent_bind (h.constant v target) fun _ => h.silent_bind ih fun _ => h.pure _

theorem flagJoins (op : Operator) (operands : List (Compiled ε)) :
    P [] (flagJoins b₁ op operands) (flagJoins b₂ op operands) := by
  rw [flagJoins_eq, flagJoins_eq]
  split_ifs
  · exact h.eliminateDuplicates
  · exact h.pure ()

theorem evaluated (r : Except EvalError α) : P [] (evaluated r) (evaluated r) := by
  cases r with
  | ok a => exact h.pure a
  | error e => exact h.throw [] _

section Operands

variable {left right : Term} {l₁ r₁ : Option ValueType → Compiling σ₁ ν (Compiled ε)}
  {l₂ r₂ : Option ValueType → Compiling σ₂ ν (Compiled ε)}
  (hl : ∀ target, P left.references (l₁ target) (l₂ target))
  (hr : ∀ target, P right.references (r₁ target) (r₂ target))

include hl hr

theorem both : P (left.references ++ right.references) (both b₁ left right l₁ r₁)
    (both b₂ left right l₂ r₂) := by
  unfold Query.both
  split
  · next hlit _ =>
    -- the literal that is compiled last has no references
    have hnil := Term.references_of_isLiteral hlit
    rw [hnil] at hl ⊢
    exact h.bind_silent (hr none) fun r => h.silent_bind (h.typeOf r.expr) fun target =>
      h.silent_bind (hl target) fun _ => h.pure _
  · exact h.bind (hl none) fun l => h.silent_bind (h.typeOf l.expr) fun target =>
      h.bind_silent (hr target) fun _ => h.pure _
  · exact h.bind (hl none) fun _ => h.bind_silent (hr none) fun _ => h.pure _

theorem pair (op : Operator) : P (left.references ++ right.references) (pair b₁ op left right l₁ r₁)
    (pair b₂ op left right l₂ r₂) :=
  h.bind_silent (h.both hl hr) fun _ => h.silent_bind (h.flagJoins op _) fun _ => h.pure _

omit hr in
theorem nullTest (op : Operator) : P left.references (nullTest b₁ op l₁) (nullTest b₂ op l₂) := by
  refine h.bind_silent (hl none) fun c => h.silent_bind (h.flagJoins op [c]) fun _ =>
    h.silent_bind (h.typeOf c.expr) fun type => ?_
  split_ifs
  · exact h.calls.isEmpty c.expr
  · exact h.calls.isNull c.expr

theorem equality (op : Operator) : P (left.references ++ right.references)
    (equality b₁ op left right l₁ r₁) (equality b₂ op left right l₂ r₂) := by
  unfold Query.equality
  split
  · next hnl hnr =>
    rw [Term.references_of_isNullLiteral hnl, Term.references_of_isNullLiteral hnr]
    exact h.calls.alwaysTrue
  · next hnl _ =>
    rw [Term.references_of_isNullLiteral hnl]
    exact h.nullTest hr op
  · next _ hnr =>
    rw [Term.references_of_isNullLiteral hnr, List.append_nil]
    exact h.nullTest hl op
  · exact h.bind_silent (h.pair hl hr op) fun _ => h.calls.equal ..

theorem membership (op : Operator) : P (left.references ++ right.references)
    (membership b₁ op left right l₁ r₁) (membership b₂ op left right l₂ r₂) := by
  unfold Query.membership
  split
  · exact h.bind (hl none) fun c => h.silent_bind (h.flagJoins op [c]) fun _ =>
      h.silent_bind (h.typeOf c.expr) fun target => h.silent_bind (h.constants _ target) fun _ =>
        h.calls.inList ..
  · exact h.bind_silent (h.pair hl hr op) fun _ => h.calls.equal ..

theorem compilePair (op : Operator) : P (op.references [left, right])
    (compilePair b₁ op left right l₁ r₁) (compilePair b₂ op left right l₂ r₂) := by
  unfold Query.compilePair
  cases op
  case count | countDistinct | not | conditional => exact h.throw _ _
  case contains | startsWith | endsWith =>
    rw [Operator.references_first _ _ rfl]
    exact h.bind_silent (hl none) fun c => h.silent_bind (h.flagJoins _ [c]) fun _ =>
      h.silent_bind (h.evaluated _) fun _ => h.calls.like ..
  case named =>
    rw [Operator.references_first _ _ rfl]
    refine h.bind_silent (hl none) fun c => ?_
    split
    · exact h.calls.named ..
    · exact h.throw _ _
  all_goals rw [Operator.references_pair _ _ rfl]
  case equals => exact h.equality hl hr _
  case notEquals => exact h.bind_silent (h.equality hl hr _) fun e => h.calls.negation e
  case isIn => exact h.membership hl hr _
  case and => exact h.bind_silent (h.pair hl hr _) fun _ => h.calls.conjunction ..
  case or => exact h.bind_silent (h.pair hl hr _) fun _ => h.calls.disjunction ..
  case concat => exact h.bind_silent (h.pair hl hr _) fun _ => h.calls.concat ..
  case greater | greaterOrEqual | less | lessOrEqual =>
    exact h.bind_silent (h.pair hl hr _) fun _ => h.calls.compare ..
  case add | subtract | multiply | divide | modulo =>
    exact h.bind_silent (h.pair hl hr _) fun _ => h.calls.arithmetic ..

omit hr in
theorem compileCount (distinct : Bool) :
    P left.references (compileCount b₁ distinct l₁) (compileCount b₂ distinct l₂) := by
  rw [compileCount_eq, compileCount_eq]
  exact h.bind_silent (h.uncounted (hl none)) fun _ => h.calls.count ..

end Operands

/-- Operators are related if their operands are. -/
theorem operator (op : Operator) (operands : List Term)
    (ih : ∀ t ∈ operands, ∀ target, P t.references (t.compile b₁ target) (t.compile b₂ target)) :
    P (op.references operands) (op.compile b₁ operands) (op.compile b₂ operands) := by
  by_cases hfits : Operator.Fits op operands
  case neg =>
    rw [Operator.compile_of_not_fits b₁ hfits, Operator.compile_of_not_fits b₂ hfits]
    exact h.throw _ _
  cases hfits with
  | not operand =>
    rw [Operator.compile, Operator.compile, Operator.references_first _ _ rfl]
    exact h.bind_silent (ih operand List.mem_cons_self none) fun c => h.calls.negation c.expr
  | count operand =>
    rw [Operator.compile, Operator.compile, Operator.references_first _ _ rfl]
    exact h.compileCount (ih operand List.mem_cons_self) false
  | countDistinct operand =>
    rw [Operator.compile, Operator.compile, Operator.references_first _ _ rfl]
    exact h.compileCount (ih operand List.mem_cons_self) true
  | conditional test yes no =>
    have hpaths : Operator.references .conditional [test, yes, no] =
        test.references ++ (yes.references ++ no.references) := by
      simp [Operator.references, Operator.compiledOperands, Operator.arity]
    rw [Operator.compile, Operator.compile, hpaths]
    exact h.bind (ih test (by simp) none) fun _ =>
      h.bind_silent (h.both (ih yes (by simp)) (ih no (by simp))) fun _ => h.calls.conditional ..
  | pair _ left right =>
    rw [Operator.compile_pair, Operator.compile_pair]
    exact h.compilePair (ih left (by simp)) (ih right (by simp)) op

/-- **Steps that are related call by call are related for whole terms.** -/
theorem compile (t : Term) (target : Option ValueType) :
    P t.references (t.compile b₁ target) (t.compile b₂ target) := by
  induction t using Term.induct generalizing target with
  | literal v =>
    rw [Term.compile, Term.compile]
    exact h.silent_bind (h.constant v target) fun _ => h.pure _
  | reference path =>
    rw [Term.compile_reference, Term.compile_reference]
    exact h.reference path
  | external handle =>
    rw [Term.compile, Term.compile]
    exact h.silent_bind (h.calls.external handle) fun _ => h.pure _
  | apply op operands ih =>
    rw [Term.compile_apply, Term.compile_apply, Term.references_apply]
    exact h.noticed (h.operator op operands ih)

end RelatesAlong

/-- Whether a relation between steps is one for each thing that compilation does, resolving
references included. -/
structure Relates (P : ∀ {α : Type}, Compiling σ₁ ν α → Compiling σ₂ ν α → Prop)
    (b₁ : Backend σ₁ ν ε) (b₂ : Backend σ₂ ν ε) : Prop where
  root : b₁.root = b₂.root
  calls : b₁.Related (fun c₁ c₂ => P (call c₁) (call c₂)) b₂
  createEdge source field kind :
    P (call (b₁.createEdge source field kind)) (call (b₂.createEdge source field kind))
  readField source name : P (call (b₁.readField source name)) (call (b₂.readField source name))
  pure {α : Type} (a : α) : P (pure a) (pure a)
  throw {α : Type} (e : CompileError) : P (α := α) (throw e) (throw e)
  bind {α β : Type} {m₁ : Compiling σ₁ ν α} {m₂ : Compiling σ₂ ν α} {f₁ : α → Compiling σ₁ ν β}
    {f₂ : α → Compiling σ₂ ν β} : P m₁ m₂ → (∀ a, P (f₁ a) (f₂ a)) → P (m₁ >>= f₁) (m₂ >>= f₂)
  typeOf e : P (typeOf b₁ e) (typeOf b₂ e)
  eliminateDuplicates : P (eliminateDuplicates b₁) (eliminateDuplicates b₂)
  lookUp e : P (lookUp e) (lookUp e)
  remember e target : P (remember e target) (remember e target)
  countJoins : P countJoins countJoins
  setJoins n : P (setJoins n) (setJoins n)

namespace Relates

variable {P : ∀ {α : Type}, Compiling σ₁ ν α → Compiling σ₂ ν α → Prop} {b₁ : Backend σ₁ ν ε}
  {b₂ : Backend σ₂ ν ε} (h : Relates P b₁ b₂)

include h

theorem walk (fields : List String) (node : ν) : P (walk b₁ node fields) (walk b₂ node fields) := by
  induction fields generalizing node with
  | nil => exact h.pure node
  | cons field rest ih =>
    rw [walk_cons, walk_cons]
    refine h.bind (h.lookUp _) fun next? => ?_
    cases next? with
    | some next => exact ih next
    | none => exact h.bind (h.createEdge ..) fun next => h.bind (h.remember ..) fun _ => ih next

theorem resolvePath (path : FieldPath) : P (resolvePath b₁ path) (resolvePath b₂ path) := by
  rw [Query.resolvePath, Query.resolvePath, h.root]
  exact h.bind (h.walk ..) fun node => h.bind (h.readField ..) fun _ => h.pure _

theorem along : RelatesAlong (fun _ => P) b₁ b₂ where
  calls := h.calls
  pure := h.pure
  throw _ := h.throw
  bind := h.bind
  typeOf := h.typeOf
  eliminateDuplicates := h.eliminateDuplicates
  reference path := h.bind (h.resolvePath path) fun c => by
    split
    · exact h.bind h.countJoins fun _ => h.bind (h.setJoins _) fun _ => h.pure c
    · exact h.pure c
  noticed hm := h.bind h.countJoins fun _ => h.bind hm fun _ => h.bind h.countJoins fun _ => h.pure _
  uncounted hm := h.bind h.countJoins fun n => h.bind hm fun a => h.bind (h.setJoins n) fun _ =>
    h.pure a

theorem compile (t : Term) (target : Option ValueType) :
    P (t.compile b₁ target) (t.compile b₂ target) :=
  h.along.compile t target

end Relates

end Query

end Criteria

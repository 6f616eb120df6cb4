import Criteria.Proofs.Evaluation.Failures
import Criteria.Proofs.Query.Indices
import Criteria.Proofs.Query.Relations

/-!
# How compilation fails

`Fails` says with which errors a step may fail. Beside the failures of the backend there are two: a
pattern of an operator on texts may have no value, and an alias may have no name (`Term.Unnamed`).
The compilation of a complete tree has no others (`fails_compile`).

Operations that are read (`Operation.Read`) are complete. So neither evaluation nor compilation finds
one of them malformed, and no tree at all, read or not, makes them look beyond its operands
(`Operation.never_malformed`).
-/

namespace Criteria

open Query

/-! ### Aliases without a name -/

namespace Term

/-- Whether a term in the place of a name names nothing. -/
def NoName : Term → Prop
  | literal .null | external _ | apply _ _ => True
  | literal _ | reference _ => False

theorem aliasName?_eq_none_iff {t : Term} : aliasName? t = none ↔ t.NoName := by
  cases t with
  | literal v => cases v <;> simp [aliasName?, NoName]
  | reference path => simp [aliasName?, NoName]
  | external handle => simp [aliasName?, NoName]
  | apply op operands => simp [aliasName?, NoName]

/-- Whether a term has an alias without a name in a part that is compiled. -/
inductive Unnamed : Term → Prop where
  | here {left right : Term} (h : right.NoName) : Unnamed (.apply .named [left, right])
  | operand {op : Operator} {operands : List Term} {t : Term}
    (ht : t ∈ operands.take op.compiledOperands) (h : t.Unnamed) : Unnamed (.apply op operands)

end Term

namespace Query

variable {σ ν ε α β τ : Type} {E : CompileError → Prop}

/-! ### Steps -/

/-- Whether a step fails only with some errors, from any state. -/
def Fails (E : CompileError → Prop) (m : ExceptT CompileError (StateM τ) α) : Prop :=
  ∀ s, FailsOnly E (m s).1

/-- Whether all calls of a backend fail only with some errors. -/
structure Backend.Fails (E : CompileError → Prop) (b : Backend σ ν ε) : Prop where
  builders : b.Related (fun c _ => Query.Fails E c) b
  createEdge source field kind : Query.Fails E (b.createEdge source field kind)
  readField source name : Query.Fails E (b.readField source name)

theorem Backend.Fails.imp {E' : CompileError → Prop} {b : Backend σ ν ε} (hb : b.Fails E)
    (h : ∀ e, E e → E' e) : b.Fails E' where
  builders := hb.builders.imp fun hc s => (hc s).imp h
  createEdge source field kind s := (hb.createEdge source field kind s).imp h
  readField source name s := (hb.readField source name s).imp h

namespace Fails

theorem pure (a : α) : Fails E (pure a : Compiling σ ν α) := fun _ => .ok a

theorem throw {e : CompileError} (h : E e) : Fails E (throw e : Compiling σ ν α) := fun _ => .error h

theorem bind {m : Compiling σ ν α} {f : α → Compiling σ ν β} (hm : Fails E m)
    (hf : ∀ a, Fails E (f a)) : Fails E (m >>= f) := by
  intro s
  have hs := hm s
  obtain ⟨a, s', hm', hb⟩ | ⟨e, s', hm', hb⟩ := bind_cases m f s <;> rw [hm'] at hs <;> rw [hb]
  · exact hf a s'
  · exact .error (hs e rfl)

/-- A step that does not fail. -/
theorem of_ok {m : Compiling σ ν α} (h : ∀ s, ∃ a, (m s).1 = .ok a) : Fails E m := by
  intro s
  obtain ⟨a, ha⟩ := h s
  rw [ha]
  exact .ok a

theorem call {c : Call σ α} (h : Fails E c) : Fails E (call c : Compiling σ ν α) :=
  fun s => h s.backend

theorem typeOf (b : Backend σ ν ε) (e : ε) : Fails E (typeOf b e) := of_ok fun _ => ⟨_, rfl⟩

theorem flagJoins (b : Backend σ ν ε) (op : Operator) (operands : List (Compiled ε)) :
    Fails E (flagJoins b op operands) := by
  rw [flagJoins_eq]
  split
  · exact of_ok fun _ => ⟨_, rfl⟩
  · exact .pure ()

theorem evaluated {r : Except EvalError α} (h : FailsOnly (fun e => E (.evaluation e)) r) :
    Fails E (evaluated r : Compiling σ ν α) := by
  cases r with
  | ok a => exact .pure a
  | error e => exact .throw (h e rfl)

section

variable {b : Backend σ ν ε} (hb : b.Fails E)

include hb

theorem constant (v : Value) (target : Option ValueType) : Fails E (constant b v target) := by
  cases v <;> first
    | exact call (hb.builders.nullLiteral target)
    | exact call (hb.builders.literal _ target)

theorem constants (items : List Value) (target : Option ValueType) :
    Fails E (items.mapM fun v => Query.constant b v target) := by
  induction items with
  | nil => exact .pure []
  | cons v items ih =>
    rw [List.mapM_cons]
    exact (constant hb v target).bind fun _ => ih.bind fun _ => .pure _

section Operands

variable {left right : Term}
  {compileLeft compileRight : Option ValueType → Compiling σ ν (Compiled ε)}
  (hl : ∀ target, Fails E (compileLeft target)) (hr : ∀ target, Fails E (compileRight target))

include hl

theorem nullTest (op : Operator) : Fails E (nullTest b op compileLeft) := by
  refine (hl none).bind fun c => (flagJoins b op [c]).bind fun _ => (typeOf b c.expr).bind fun _ => ?_
  split
  · exact call (hb.builders.isEmpty c.expr)
  · exact call (hb.builders.isNull c.expr)

include hr

omit hb in
theorem both : Fails E (both b left right compileLeft compileRight) := by
  unfold Query.both
  split
  · exact (hr none).bind fun r => (typeOf b r.expr).bind fun _ => (hl _).bind fun _ => .pure _
  · exact (hl none).bind fun l => (typeOf b l.expr).bind fun _ => (hr _).bind fun _ => .pure _
  · exact (hl none).bind fun _ => (hr none).bind fun _ => .pure _

omit hb in
theorem pair (op : Operator) : Fails E (pair b op left right compileLeft compileRight) :=
  (both hl hr).bind fun _ => (flagJoins b op _).bind fun _ => .pure _

theorem equality (op : Operator) : Fails E (equality b op left right compileLeft compileRight) := by
  unfold Query.equality
  split
  · exact call hb.builders.alwaysTrue
  · exact nullTest hb hr op
  · exact nullTest hb hl op
  · exact (pair hl hr op).bind fun _ => call (hb.builders.equal _ _)

theorem membership (op : Operator) :
    Fails E (membership b op left right compileLeft compileRight) := by
  unfold Query.membership
  split
  · exact (hl none).bind fun c => (flagJoins b op [c]).bind fun _ => (typeOf b c.expr).bind fun _ =>
      (constants hb _ _).bind fun _ => call (hb.builders.inList _ _)
  · exact (pair hl hr op).bind fun _ => call (hb.builders.equal _ _)

omit hr in
/-- An operator of two operands fails by itself only if a pattern has no value or an alias no name. -/
theorem compilePair {op : Operator} (harity : op.arity = 2)
    (hr : op.compiledOperands = 2 → ∀ target, Fails E (compileRight target))
    (hvalue : FailsOnly (fun e => E (.evaluation e)) (right.evaluate none))
    (hname : op = .named → right.NoName → E (.unsupported op.name)) :
    Fails E (compilePair b op left right compileLeft compileRight) := by
  unfold Query.compilePair
  cases op
  case count | countDistinct | not | conditional => cases harity
  case contains | startsWith | endsWith =>
    exact (hl none).bind fun c => (flagJoins b _ [c]).bind fun _ =>
      (evaluated hvalue).bind fun v => call (hb.builders.like _ _)
  case named =>
    refine (hl none).bind fun c => ?_
    split
    · exact call (hb.builders.named _ _)
    · next hnone => exact .throw (hname rfl (Term.aliasName?_eq_none_iff.1 hnone))
  all_goals have hr := hr rfl
  case equals => exact equality hb hl hr _
  case notEquals => exact (equality hb hl hr _).bind fun e => call (hb.builders.negation e)
  case isIn => exact membership hb hl hr _
  case and => exact (pair hl hr _).bind fun _ => call (hb.builders.conjunction _ _)
  case or => exact (pair hl hr _).bind fun _ => call (hb.builders.disjunction _ _)
  case concat => exact (pair hl hr _).bind fun _ => call (hb.builders.concat _ _)
  case greater | greaterOrEqual | less | lessOrEqual =>
    exact (pair hl hr _).bind fun _ => call (hb.builders.compare _ _ _)
  case add | subtract | multiply | divide | modulo =>
    exact (pair hl hr _).bind fun _ => call (hb.builders.arithmetic _ _ _)

omit hr in
theorem compileCount (distinct : Bool) : Fails E (compileCount b distinct compileLeft) := by
  refine bind (fun _ => .ok _) fun before => (hl none).bind fun c => ?_
  exact bind (fun _ => .ok _) fun _ => call (hb.builders.count _ _)

end Operands

end

end Fails

variable [DecidableEq ν] {b : Backend σ ν ε} (hb : b.Fails E)

include hb

theorem fails_walk (fields : List String) (node : ν) : Fails E (walk b node fields) := by
  induction fields generalizing node with
  | nil => exact .pure node
  | cons field rest ih =>
    rw [walk_cons]
    refine Fails.bind (fun _ => .ok _) fun next? => ?_
    cases next? with
    | some next => exact ih next
    | none => exact (Fails.call (hb.createEdge node field .left)).bind fun next =>
        Fails.bind (fun _ => .ok _) fun _ => ih next

theorem fails_reference (path : FieldPath) : Fails E (counted (resolvePath b path)) := by
  refine Fails.bind ?_ fun c => ?_
  · exact (fails_walk hb path.parents b.root).bind fun node =>
      (Fails.call (hb.readField node path.leaf)).bind fun _ => .pure _
  · split
    · exact fun _ => .ok _
    · exact .pure c

/-- An operator fails as its operands do, and as `compilePair` does. -/
theorem fails_operator (hvalue : ∀ e : EvalError, ¬ e.IsMalformed → E (.evaluation e))
    {op : Operator} {operands : List Term} (hcomplete : (Term.apply op operands).Complete)
    (ih : ∀ t ∈ operands, t.Complete → (t.Unnamed → E (.unsupported Operator.named.name)) →
      ∀ target, Fails E (t.compile b target))
    (hname : (Term.apply op operands).Unnamed → E (.unsupported Operator.named.name)) :
    Fails E (op.compile b operands) := by
  obtain ⟨hlength, hoperands⟩ := hcomplete
  rw [Term.completeList_iff] at hoperands
  replace ih : ∀ t ∈ operands.take op.compiledOperands, ∀ target, Fails E (t.compile b target) :=
    fun t ht => ih t (List.mem_of_mem_take ht) (hoperands t (List.mem_of_mem_take ht))
      fun h => hname (.operand ht h)
  cases Operator.fits_iff.2 hlength with
  | not operand =>
    rw [Operator.compile]
    exact (ih operand List.mem_cons_self none).bind fun c => .call (hb.builders.negation c.expr)
  | count operand =>
    rw [Operator.compile]
    exact .compileCount hb (ih operand List.mem_cons_self) false
  | countDistinct operand =>
    rw [Operator.compile]
    exact .compileCount hb (ih operand List.mem_cons_self) true
  | conditional test yes no =>
    have hall : [test, yes, no].take Operator.conditional.compiledOperands = [test, yes, no] := rfl
    rw [hall] at ih
    rw [Operator.compile]
    exact (ih test (by simp) none).bind fun c =>
      (Fails.both (ih yes (by simp)) (ih no (by simp))).bind fun _ =>
        .call (hb.builders.conditional _ _ _)
  | pair harity left right =>
    rw [Operator.compile_pair]
    refine .compilePair hb (ih left ?_) harity (fun hboth => ih right ?_) ?_ ?_
    · cases op <;> exact List.mem_cons_self
    · rw [hboth]
      simp
    · exact fun e he => hvalue e (Term.formed_evaluate (hoperands right (by simp)) e he)
    · rintro rfl hright
      exact hname (.here hright)

/-- **The compilation of a complete tree fails for no reason of its own but these two**: a pattern has
no value, or an alias no name. -/
theorem fails_compile (hvalue : ∀ e : EvalError, ¬ e.IsMalformed → E (.evaluation e)) {t : Term}
    (ht : t.Complete) (hname : t.Unnamed → E (.unsupported Operator.named.name))
    (target : Option ValueType) : Fails E (t.compile b target) := by
  induction t using Term.induct generalizing target with
  | literal v =>
    rw [Term.compile]
    exact (Fails.constant hb v target).bind fun _ => .pure _
  | reference path =>
    rw [Term.compile_reference]
    exact fails_reference hb path
  | external handle =>
    rw [Term.compile]
    exact (Fails.call (hb.builders.external handle)).bind fun _ => .pure _
  | apply op operands ih =>
    rw [Term.compile_apply]
    exact Fails.bind (fun _ => .ok _) fun _ => (fails_operator hb hvalue ht ih hname).bind fun _ =>
      Fails.bind (fun _ => .ok _) fun _ => .pure _

theorem fails_operation (hvalue : ∀ e : EvalError, ¬ e.IsMalformed → E (.evaluation e))
    {o : Operation} (ho : o.toTerm.Complete)
    (hname : o.toTerm.Unnamed → E (.unsupported Operator.named.name)) : Fails E (o.compile b) :=
  Fails.bind (fun _ => .ok _) fun _ => fails_operator hb hvalue ho
    (fun _ _ ht hname => fails_compile hb hvalue ht hname) hname

end Query

/-! ### Operations that are read -/

/-- Whether an error says that there is something wrong with an operator of the tree. -/
def Query.CompileError.BlamesTree : CompileError → Prop
  | evaluation e => e.IsMalformed
  | unsupported _ => True
  | backend _ => False

namespace Operation

variable {o : Operation}

/-- Whether an operation was read, from a text in some dialect or from a postfix sequence. -/
inductive Read (o : Operation) : Prop where
  | text {d : Dialect} {text : String} (h : d.parse text = .ok o)
  | sequence {items : List Postfix.Item} (h : Postfix.fold items = .ok o)

theorem Read.exists_fold (h : o.Read) : ∃ items, Postfix.fold items = .ok o := by
  cases h with
  | text h =>
    obtain ⟨_, -, h⟩ := bind_eq_ok_iff.1 h
    obtain ⟨items, -, h⟩ := bind_eq_ok_iff.1 h
    exact ⟨items, h⟩
  | sequence h => exact ⟨_, h⟩

/-- An operation that is read has as many operands as its operator takes, and so has every one in
it. -/
theorem Read.complete (h : o.Read) : o.toTerm.Complete := by
  obtain ⟨_, h⟩ := h.exists_fold
  exact ((leaves_of_foldlM_push (Postfix.fold_eq_ok_iff.1 h)).2 trivial).1

/-- With a backend that does not blame the tree, only an alias without a name is to blame. -/
theorem blamesTree_of_compile {σ ν ε : Type} [DecidableEq ν] {b : Backend σ ν ε}
    (hb : b.Fails fun e => ¬ e.BlamesTree) (ho : o.toTerm.Complete) {s : Session σ ν}
    {e : CompileError} (h : (o.compile b s).1 = .error e) (he : e.BlamesTree) :
    e = .unsupported Operator.named.name ∧ o.toTerm.Unnamed :=
  fails_operation
    (E := fun e => e.BlamesTree → e = .unsupported Operator.named.name ∧ o.toTerm.Unnamed)
    (hb.imp fun _ he hblames => absurd hblames he) (fun _ he hblames => absurd hblames he) ho
    (fun hname _ => ⟨rfl, hname⟩) s e h he

/-- **Operations that are read are never malformed**: they are complete, evaluation does not find them
malformed, and no more does compilation, which finds unsupported only aliases without a name. And
whatever a tree looks like, neither looks for operands that are not there. -/
theorem never_malformed :
    (∀ o : Operation, o.Read →
      o.toTerm.Complete ∧
      (∀ document op found, o.evaluate document ≠ .error (.malformed op found)) ∧
      ∀ {σ ν ε : Type} [DecidableEq ν] (b : Backend σ ν ε), (b.Fails fun e => ¬ e.BlamesTree) →
        ∀ s : Session σ ν,
          (∀ op found, (o.compile b s).1 ≠ .error (.evaluation (.malformed op found))) ∧
          ∀ name, (o.compile b s).1 = .error (.unsupported name) →
            name = Operator.named.name ∧ o.toTerm.Unnamed) ∧
    ∀ t : Term,
      (∀ document, t.evaluateByIndex document = some (t.evaluate document)) ∧
      ∀ {σ ν ε : Type} [DecidableEq ν] (b : Backend σ ν ε),
        t.compileByIndex b = some (t.compile b) ∧
        ∀ (op : Operator) (left right : Operand σ ν ε),
          compileTwo b op [left, right] = both b left.1 right.1 left.2 right.2 := by
  refine ⟨fun o hread => ?_, fun t => ⟨fun document => t.evaluateByIndex_eq document, fun b => ?_⟩⟩
  · have hcomplete := hread.complete
    refine ⟨hcomplete, fun document op found h => ?_, fun b hb s => ⟨fun op found h => ?_, ?_⟩⟩
    · exact Term.formed_evaluate hcomplete _ h trivial
    · exact nomatch (blamesTree_of_compile hb hcomplete h trivial).1
    · intro name h
      obtain ⟨hname, hunnamed⟩ := blamesTree_of_compile hb hcomplete h trivial
      exact ⟨CompileError.unsupported.inj hname, hunnamed⟩
  · exact ⟨Term.compileByIndex_eq b t, compileTwo_eq b⟩

/-- The alias `null` of `null`, which names nothing. -/
theorem never_malformed_nullAlias :
    let o : Operation := ⟨.named, [.literal .null, .literal .null]⟩
    let s : Session Unit String := ⟨(), {}, 0⟩
    o.Read ∧ (Backend.naming.Fails fun e => ¬ e.BlamesTree) ∧
      (o.compile Backend.naming s).1 = .error (.unsupported "as") ∧ o.toTerm.Unnamed := by
  intro o s
  have hread : o.Read := .sequence (show Postfix.fold [.value ⟨.null, "null", 0⟩,
    .value ⟨.null, "null", 8⟩, .operator .named] = .ok o from rfl)
  have hnaming : Backend.naming.Fails fun e => ¬ e.BlamesTree :=
    ⟨by constructor <;> intros <;> exact fun _ => .ok _, fun _ _ _ _ => .ok _, fun _ _ _ => .ok _⟩
  have hcompile : (o.compile Backend.naming s).1 = .error (.unsupported "as") := rfl
  exact ⟨hread, hnaming, hcompile,
    (((never_malformed.1 o hread).2.2 Backend.naming hnaming s).2 "as" hcompile).2⟩

end Operation

end Criteria

import Criteria.Proofs.Query.Duplicates

/-!
# One counter for several terms

Terms that are compiled one after the other share the counter of joined references. Nothing depends
on where it stands: a step that is `Detached` does the same with any number of references counted
before, in sessions that differ by that number throughout, and never counts back behind where it
started. Compilation is made of such steps (`detached_compile`), failures included, since it compares
the counter only with what it was before and sets it back only to that.

* `compileAlone`: the compilation of one term with no references counted before;
* `Term.joinsAt`: the counter in the course of a compilation;
* `compileEach_alone`: what is compiled on one counter could as well be compiled on several.
-/

namespace Criteria

open Query

namespace Query

variable {σ ν ε α β : Type}

/-! ### Counting from anywhere -/

/-- The session with `n` more references counted. -/
def Session.ahead (n : Nat) (s : Session σ ν) : Session σ ν := { s with joins := s.joins + n }

/-- The session with no references counted. -/
def Session.uncounted (s : Session σ ν) : Session σ ν := { s with joins := 0 }

theorem Session.ahead_uncounted (s : Session σ ν) : s.uncounted.ahead s.joins = s := by
  simp [Session.ahead, Session.uncounted]

section

variable {m : Compiling σ ν α} {s s' : Session σ ν}

theorem noticed_of_ok {m : Compiling σ ν ε} {e : ε} (h : m s = (.ok e, s')) :
    noticed m s = (.ok ⟨e, s.joins < s'.joins⟩, s') := (bind_of_ok h :)

theorem noticed_of_error {m : Compiling σ ν ε} {e : CompileError} (h : m s = (.error e, s')) :
    noticed m s = (.error e, s') := (bind_of_error h :)

theorem uncounted_of_ok {a : α} (h : m s = (.ok a, s')) :
    uncounted m s = (.ok a, { s' with joins := s.joins }) := (bind_of_ok h :)

/-- A failure leaves the counter as it is. -/
theorem uncounted_of_error {e : CompileError} (h : m s = (.error e, s')) :
    uncounted m s = (.error e, s') := (bind_of_error h :)

end

/-- Whether a step does the same wherever the counter stands, and does not count back. -/
structure Detached (m : Compiling σ ν α) : Prop where
  ahead (n : Nat) (s : Session σ ν) : m (s.ahead n) = ((m s).1, (m s).2.ahead n)
  joins_le (s : Session σ ν) : s.joins ≤ (m s).2.joins

namespace Detached

/-- A step that does not touch the counter. -/
theorem of_same {m : Compiling σ ν α} (ahead : ∀ n s, m (s.ahead n) = ((m s).1, (m s).2.ahead n))
    (h : ∀ s, (m s).2.joins = s.joins) : Detached m :=
  ⟨ahead, fun s => Nat.le_of_eq (h s).symm⟩

theorem pure (a : α) : Detached (pure a : Compiling σ ν α) := of_same (fun _ _ => rfl) fun _ => rfl

theorem throw (e : CompileError) : Detached (throw e : Compiling σ ν α) :=
  of_same (fun _ _ => rfl) fun _ => rfl

theorem call (c : Call σ α) : Detached (call c : Compiling σ ν α) :=
  of_same (fun _ _ => rfl) fun _ => rfl

variable {m : Compiling σ ν α}

theorem bind {f : α → Compiling σ ν β} (hm : Detached m) (hf : ∀ a, Detached (f a)) :
    Detached (m >>= f) where
  ahead n s := by
    have hs := hm.ahead n s
    obtain ⟨a, s', hm', hb⟩ | ⟨e, s', hm', hb⟩ := bind_cases m f s <;> rw [hm'] at hs <;> rw [hb]
    · rw [bind_of_ok hs, (hf a).ahead]
    · exact bind_of_error hs
  joins_le s := by
    have hs := hm.joins_le s
    obtain ⟨a, s', hm', hb⟩ | ⟨e, s', hm', hb⟩ := bind_cases m f s <;> rw [hm'] at hs <;> rw [hb]
    · exact Nat.le_trans hs ((hf a).joins_le s')
    · exact hs

/-- Of the counter it is only told whether it moved. -/
theorem noticed {m : Compiling σ ν ε} (h : Detached m) : Detached (noticed m) where
  ahead n s := by
    have hs := h.ahead n s
    rcases hm : m s with ⟨e | e, s'⟩ <;> rw [hm] at hs
    · rw [noticed_of_error hs, noticed_of_error hm]
    · rw [noticed_of_ok hs, noticed_of_ok hm]
      simp [Session.ahead]
  joins_le s := by
    have hs := h.joins_le s
    rcases hm : m s with ⟨e | e, s'⟩ <;> rw [hm] at hs
    · rwa [noticed_of_error hm]
    · rwa [noticed_of_ok hm]

/-- The counter is set back to where it was before the step, and not if the step fails. -/
theorem uncounted (h : Detached m) : Detached (uncounted m) where
  ahead n s := by
    have hs := h.ahead n s
    rcases hm : m s with ⟨e | a, s'⟩ <;> rw [hm] at hs
    · rw [uncounted_of_error hs, uncounted_of_error hm]
    · rw [uncounted_of_ok hs, uncounted_of_ok hm]
      rfl
  joins_le s := by
    have hs := h.joins_le s
    rcases hm : m s with ⟨e | a, s'⟩ <;> rw [hm] at hs
    · rwa [uncounted_of_error hm]
    · rw [uncounted_of_ok hm]

theorem counted {m : Compiling σ ν (Compiled ε)} (h : Detached m) : Detached (counted m) := by
  refine h.bind fun c => ?_
  split
  · refine ⟨fun n s => ?_, fun s => Nat.le_succ s.joins⟩
    have hcount : s.joins + n + 1 = s.joins + 1 + n := Nat.add_right_comm ..
    exact congrArg (fun joins => (Except.ok c, { s with joins })) hcount
  · exact .pure c

/-- What is done with some references counted is what is done with none. -/
theorem eq_uncounted (h : Detached m) (s : Session σ ν) :
    m s = ((m s.uncounted).1, (m s.uncounted).2.ahead s.joins) := by
  rw [← h.ahead, s.ahead_uncounted]

variable [DecidableEq ν] (b : Backend σ ν ε)

theorem walk (fields : List String) (node : ν) : Detached (walk b node fields) := by
  induction fields generalizing node with
  | nil => exact .pure node
  | cons field rest ih =>
    have hlookUp (e : Edge ν) : Detached (lookUp e : Compiling σ ν (Option ν)) :=
      of_same (fun _ _ => rfl) fun _ => rfl
    have hremember (e : Edge ν) (target : ν) : Detached (remember e target : Compiling σ ν Unit) :=
      of_same (fun _ _ => rfl) fun _ => rfl
    rw [walk_cons]
    refine (hlookUp _).bind fun next? => ?_
    cases next? with
    | some next => exact ih next
    | none => exact (call _).bind fun next => (hremember _ next).bind fun _ => ih next

theorem resolvePath (path : FieldPath) : Detached (resolvePath b path) :=
  (walk b path.parents b.root).bind fun _ => (call _).bind fun _ => .pure _

theorem along : RelatesAlong (fun {_} _ m _ => Detached m) b b where
  calls := by constructor <;> intros <;> exact call _
  pure := pure
  throw _ := throw
  bind := bind
  typeOf _ := of_same (fun _ _ => rfl) fun _ => rfl
  eliminateDuplicates := of_same (fun _ _ => rfl) fun _ => rfl
  reference path := (resolvePath b path).counted
  noticed := noticed
  uncounted := uncounted

end Detached

/-- **Compilation is detached from the counter.** -/
theorem detached_compile [DecidableEq ν] (b : Backend σ ν ε) (t : Term) (target : Option ValueType) :
    Detached (t.compile b target) :=
  (Detached.along b).compile t target

/-! ### The counter in the course of a compilation -/

/-- The session before anything is recorded. -/
def Session.observed (s : Session σ ν) : Session (Observed σ ν) ν :=
  ⟨⟨s.backend, []⟩, s.memo, s.joins⟩

end Query

/-- The number of references counted when the compilation of a term has made `n` calls, or at its end
if it makes fewer. -/
def Term.joinsAt [DecidableEq ν] (b : Backend σ ν ε) (t : Term) (target : Option ValueType)
    (s : Session σ ν) (n : Nat) : Nat :=
  (t.compile (b.observed (some n)) target s.observed).2.joins

namespace Query

variable [DecidableEq ν]

/-- With as many calls as it makes a compilation comes to its end. -/
theorem joinsAt_of_length_calls_le (b : Backend σ ν ε) (t : Term) (target : Option ValueType)
    (s : Session σ ν) {n : Nat} (h : (t.calls b target s).length ≤ n) :
    t.joinsAt b target s n = (t.compile b target s).2.joins := by
  have hsame := ((relates_limits n b).compile t target).same s.observed h
  have hplain := compile_observed b t target s.observed
  rw [Term.joinsAt, hsame]
  exact (congrArg (fun r => r.2.joins) hplain).symm

/-! ### Several terms -/

/-- Compiles a term with no references counted before. -/
def compileAlone (b : Backend σ ν ε) (t : Term) : StateM (Session σ ν) (Except CompileError ε) := do
  modify Session.uncounted
  ((·.expr) <$> t.compile b none).run

omit [DecidableEq ν] in
/-- Steps that keep two states related and have the same results do so over a list. -/
theorem mapM_related {τ τ' : Type} {R : τ → τ' → Prop} {f : α → StateM τ β} {g : α → StateM τ' β}
    (h : ∀ a {s s'}, R s s' → (f a s).1 = (g a s').1 ∧ R (f a s).2 (g a s').2) (as : List α)
    {s : τ} {s' : τ'} (hs : R s s') :
    (as.mapM f s).1 = (as.mapM g s').1 ∧ R (as.mapM f s).2 (as.mapM g s').2 := by
  induction as generalizing s s' with
  | nil => exact ⟨rfl, hs⟩
  | cons a as ih =>
    obtain ⟨hresult, hnext⟩ := h a hs
    obtain ⟨hresults, hrest⟩ := ih hnext
    rw [List.mapM_cons, List.mapM_cons]
    exact ⟨congrArg₂ List.cons hresult hresults, hrest⟩

/-- Compiling on a counter that stands anywhere leaves nothing but the counter different. -/
theorem compileEach_eq_alone (b : Backend σ ν ε) (ts : List Term) (s : Session σ ν) :
    (compileEach b ts s).1 = (ts.mapM (compileAlone b) s).1 ∧
      (compileEach b ts s).2.uncounted = (ts.mapM (compileAlone b) s).2.uncounted := by
  refine mapM_related (R := fun s s' : Session σ ν => s.uncounted = s'.uncounted)
    (fun t s s' hs => ?_) ts (s := s.uncounted) rfl
  have hexpr := (detached_compile b t none).bind fun c => Detached.pure c.expr
  rw [← map_eq_pure_bind] at hexpr
  have hshared := hexpr.eq_uncounted s
  rw [hs] at hshared
  exact ⟨(congrArg Prod.fst hshared :), (congrArg (fun r => r.2.uncounted) hshared :)⟩

/-- **Nothing of one compilation leaks into the next.** Terms compiled one after the other on one
counter, failures among them, give the results that they give when each has a counter of its own, and
leave the same backend and the same edges behind, whatever the backend keeps of its calls. For any
term and any session: the compilation does what it does with no references counted before, call by
call, in a session whose counter is ahead by those that were; and from its beginning to its end the
counter is never below where it started. -/
theorem compileEach_alone (b : Backend σ ν ε) (ts : List Term) (s : Session σ ν) :
    ((compileEach b ts s).1 = (ts.mapM (compileAlone b) s).1 ∧
      (compileEach b ts s).2.backend = (ts.mapM (compileAlone b) s).2.backend ∧
      (compileEach b ts s).2.memo = (ts.mapM (compileAlone b) s).2.memo) ∧
    ∀ (t : Term) (target : Option ValueType) (s : Session σ ν),
      t.compile b target s =
        ((t.compile b target s.uncounted).1, (t.compile b target s.uncounted).2.ahead s.joins) ∧
      t.calls b target s = t.calls b target s.uncounted ∧
      ∀ n, s.joins ≤ t.joinsAt b target s n := by
  obtain ⟨hresults, hsession⟩ := compileEach_eq_alone b ts s
  refine ⟨⟨hresults, (congrArg Session.backend hsession :), (congrArg Session.memo hsession :)⟩,
    fun t target s => ⟨?_, ?_, fun n => ?_⟩⟩
  · exact (detached_compile b t target).eq_uncounted s
  · have hcalls := (detached_compile (b.observed none) t target).eq_uncounted s.observed
    exact congrArg (fun r => r.2.backend.log) hcalls
  · exact (detached_compile (b.observed (some n)) t target).joins_le s.observed

end Query

end Criteria

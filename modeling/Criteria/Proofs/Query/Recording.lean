import Criteria.Proofs.Query.Relations

/-!
# Recorded calls

What a compilation asks of its backend can be recorded: `Backend.observed` keeps a log of the calls
beside the state of the backend, and refuses all calls once the log has a given length.

* `compile_observed`: without a limit, recording changes neither results nor sessions;
* `cutAt_sessionBehind`: with a limit, the log is the beginning of the one without. So what holds of
  the session behind every compilation with a limit holds before every call of the one without.
-/

namespace Criteria.Query

/-- A call of a backend. -/
inductive Event (ν : Type) where
  /-- The creation of an edge, with the node that it leads to unless it fails. -/
  | edge (e : Edge ν) (target : Option ν)
  /-- The reading of a field. -/
  | field (source : ν) (name : String)
  /-- The demand for the elimination of duplicates. -/
  | distinct
  /-- Any other call. -/
  | other
  deriving DecidableEq, Repr

/-- The state of a backend with the calls so far. -/
structure Observed (σ ν : Type) where
  state : σ
  log : List (Event ν) := []

variable {σ σ₁ σ₂ ν ε α β : Type}

/-- Whether one more call may be recorded. -/
def mayRecord (limit : Option Nat) (log : List (Event ν)) : Bool := limit.all (log.length < ·)

/-- Records a call, or refuses it. -/
def observe (limit : Option Nat) (event : Except CompileError α → Event ν) (c : Call σ α) :
    Call (Observed σ ν) α := fun x =>
  if mayRecord limit x.log then
    let (result, state) := c x.state
    (result, ⟨state, x.log ++ [event result]⟩)
  else (.error (.backend "no more calls"), x)

/-- The backend that records its calls, and refuses them when it has recorded `limit` calls. -/
def Backend.observed (b : Backend σ ν ε) (limit : Option Nat) : Backend (Observed σ ν) ν ε where
  root := b.root
  createEdge source field kind :=
    observe limit (fun r => .edge ⟨source, field, kind⟩ r.toOption) (b.createEdge source field kind)
  readField source name := observe limit (fun _ => .field source name) (b.readField source name)
  literal v target := observe limit (fun _ => .other) (b.literal v target)
  nullLiteral target := observe limit (fun _ => .other) (b.nullLiteral target)
  external handle := observe limit (fun _ => .other) (b.external handle)
  declaredType x e := b.declaredType x.state e
  requireDistinct x :=
    if mayRecord limit x.log then ⟨b.requireDistinct x.state, x.log ++ [.distinct]⟩ else x
  conjunction l r := observe limit (fun _ => .other) (b.conjunction l r)
  disjunction l r := observe limit (fun _ => .other) (b.disjunction l r)
  negation e := observe limit (fun _ => .other) (b.negation e)
  equal l r := observe limit (fun _ => .other) (b.equal l r)
  isNull e := observe limit (fun _ => .other) (b.isNull e)
  isEmpty e := observe limit (fun _ => .other) (b.isEmpty e)
  alwaysTrue := observe limit (fun _ => .other) b.alwaysTrue
  compare c l r := observe limit (fun _ => .other) (b.compare c l r)
  arithmetic f l r := observe limit (fun _ => .other) (b.arithmetic f l r)
  concat l r := observe limit (fun _ => .other) (b.concat l r)
  like e pattern := observe limit (fun _ => .other) (b.like e pattern)
  inList e items := observe limit (fun _ => .other) (b.inList e items)
  conditional c l r := observe limit (fun _ => .other) (b.conditional c l r)
  count e distinct := observe limit (fun _ => .other) (b.count e distinct)
  named e name := observe limit (fun _ => .other) (b.named e name)

theorem Backend.observed_createEdge (b : Backend σ ν ε) (limit : Option Nat) (source : ν)
    (field : String) (kind : EdgeKind) : (b.observed limit).createEdge source field kind =
      observe limit (fun r => .edge ⟨source, field, kind⟩ r.toOption)
        (b.createEdge source field kind) := rfl

theorem Backend.observed_readField (b : Backend σ ν ε) (limit : Option Nat) (source : ν)
    (name : String) : (b.observed limit).readField source name =
      observe limit (fun _ => .field source name) (b.readField source name) := rfl

/-! ### Recording changes nothing -/

/-- The session without the log. -/
def Session.plain (s : Session (Observed σ ν) ν) : Session σ ν := ⟨s.backend.state, s.memo, s.joins⟩

/-- Whether a step with a log does what another does without. -/
def Mirrors {α : Type} (m : Compiling σ ν α) (m' : Compiling (Observed σ ν) ν α) : Prop :=
  ∀ s, m s.plain = ((m' s).1, (m' s).2.plain)

theorem Mirrors.bind {m : Compiling σ ν α} {m' : Compiling (Observed σ ν) ν α}
    {f : α → Compiling σ ν β} {f' : α → Compiling (Observed σ ν) ν β} (hm : Mirrors m m')
    (hf : ∀ a, Mirrors (f a) (f' a)) : Mirrors (m >>= f) (m' >>= f') := by
  intro s
  have hs := hm s
  obtain ⟨a, s', hm', hf'⟩ | ⟨e, s', hm', hf'⟩ := bind_cases m' f' s
  · rw [hm'] at hs
    rw [hf', bind_of_ok hs]
    exact hf a s'
  · rw [hm'] at hs
    rw [hf', bind_of_error hs]

theorem mirrors_call (c : Call σ α) (event : Except CompileError α → Event ν) :
    Mirrors (call c) (call (observe none event c)) := fun _ => rfl

/-! ### Compilations with a limit -/

/-- Whether a step with a limit of `n` calls does the first `n` calls of a step without. -/
structure Limits (n : Nat) {α : Type} (m m' : Compiling (Observed σ ν) ν α) : Prop where
  log_extends (s) : s.backend.log <+: (m s).2.backend.log
  /-- With no calls left nothing happens. -/
  idle (s) : n ≤ s.backend.log.length → (m' s).2.backend.log = s.backend.log
  same (s) : (m s).2.backend.log.length ≤ n → m' s = m s
  cut (s) : s.backend.log.length ≤ n → n ≤ (m s).2.backend.log.length →
    (m' s).2.backend.log = (m s).2.backend.log.take n

section

variable {n : Nat} {m m' : Compiling (Observed σ ν) ν α}

/-- What comes behind a step that has used up all calls adds none. -/
theorem Limits.log_bind {f f' : α → Compiling (Observed σ ν) ν β} (hf : ∀ a, Limits n (f a) (f' a))
    {s : Session (Observed σ ν) ν} (hn : n ≤ (m' s).2.backend.log.length) :
    ((m' >>= f') s).2.backend.log = (m' s).2.backend.log := by
  obtain ⟨a, s₁, h, hb⟩ | ⟨e, s₁, h, hb⟩ := bind_cases m' f' s <;> rw [h] at hn ⊢ <;> rw [hb]
  exact (hf a).idle s₁ hn

theorem Limits.bind {f f' : α → Compiling (Observed σ ν) ν β} (hm : Limits n m m')
    (hf : ∀ a, Limits n (f a) (f' a)) : Limits n (m >>= f) (m' >>= f') where
  log_extends s := by
    have hs := hm.log_extends s
    obtain ⟨a, s₁, h, hb⟩ | ⟨e, s₁, h, hb⟩ := bind_cases m f s <;> rw [h] at hs <;> rw [hb]
    · exact hs.trans ((hf a).log_extends s₁)
    · exact hs
  idle s hn := by
    have hs := hm.idle s hn
    rw [Limits.log_bind hf (by rw [hs]; exact hn), hs]
  same s hn := by
    have hs := hm.same s
    obtain ⟨a, s₁, h, hb⟩ | ⟨e, s₁, h, hb⟩ := bind_cases m f s <;> rw [h] at hs <;> rw [hb] at hn ⊢
    · have hlen := ((hf a).log_extends s₁).length_le
      rw [bind_of_ok (hs (Nat.le_trans hlen hn))]
      exact (hf a).same s₁ hn
    · exact bind_of_error (hs hn)
  cut s hs hn := by
    rcases Nat.le_total (m s).2.backend.log.length n with hlen | hlen
    · -- both steps do the same before `f`
      have hsame := hm.same s hlen
      obtain ⟨a, s₁, h, hb⟩ | ⟨e, s₁, h, hb⟩ := bind_cases m f s <;> rw [h] at hsame hlen <;>
        rw [hb] at hn ⊢
      · rw [bind_of_ok hsame]
        exact (hf a).cut s₁ hlen hn
      · rw [bind_of_error hsame, List.take_of_length_le hlen]
    · -- the limit is reached before `f`, which adds nothing to the first calls
      have hcut := hm.cut s hs hlen
      have hfull : n ≤ (m' s).2.backend.log.length := by
        rw [hcut]
        exact Nat.le_of_eq (List.length_take_of_le hlen).symm
      rw [Limits.log_bind hf hfull, hcut]
      obtain ⟨a, s₁, h, hb⟩ | ⟨e, s₁, h, hb⟩ := bind_cases m f s <;> rw [h] at hlen ⊢ <;> rw [hb]
      obtain ⟨more, hmore⟩ := (hf a).log_extends s₁
      rw [← hmore, List.take_append_of_le_length hlen]

/-- A step that makes no calls is not limited. -/
theorem limits_of_silent (h : ∀ s, (m s).2.backend.log = s.backend.log) : Limits n m m where
  log_extends s := ⟨[], by rw [h, List.append_nil]⟩
  idle s _ := h s
  same _ _ := rfl
  cut s hs hn := by rw [h, List.take_of_length_le hs]

/-- A step that makes one call is limited if the call is. -/
theorem limits_of_event (h : ∀ s, ∃ event, (m s).2.backend.log = s.backend.log ++ [event])
    (hidle : ∀ s, n ≤ s.backend.log.length → (m' s).2.backend.log = s.backend.log)
    (hsame : ∀ s, s.backend.log.length < n → m' s = m s) : Limits n m m' where
  log_extends s := by
    obtain ⟨event, hs⟩ := h s
    rw [hs]
    exact List.prefix_append _ _
  idle := hidle
  same s hn := by
    obtain ⟨event, hs⟩ := h s
    rw [hs, List.length_append] at hn
    exact hsame s hn
  cut s hs hn := by
    obtain ⟨event, hlog⟩ := h s
    rcases Nat.lt_or_ge s.backend.log.length n with hlt | hge
    · rw [hsame s hlt, List.take_of_length_le]
      rw [hlog, List.length_append]
      exact hlt
    · rw [hidle s hge, hlog, List.take_append_of_le_length hge, List.take_of_length_le hs]

end

theorem mayRecord_some {n : Nat} {log : List (Event ν)} :
    mayRecord (some n) log = true ↔ log.length < n := by
  simp [mayRecord]

theorem limits_call (n : Nat) (event : Except CompileError α → Event ν) (c : Call σ α) :
    Limits n (call (observe none event c)) (call (observe (some n) event c)) := by
  refine limits_of_event (fun s => ⟨_, rfl⟩) (fun s hn => ?_) fun s hn => ?_
  · have hno : ¬ mayRecord (some n) s.backend.log = true := fun h =>
      absurd (mayRecord_some.1 h) (Nat.not_lt.2 hn)
    simp only [call, observe, if_neg hno]
  · simp only [call, observe, if_pos (mayRecord_some.2 hn)]
    rfl

theorem limits_eliminateDuplicates (n : Nat) (b : Backend σ ν ε) :
    Limits n (eliminateDuplicates (b.observed none)) (eliminateDuplicates (b.observed (some n))) := by
  refine limits_of_event (fun s => ⟨.distinct, rfl⟩) (fun s hn => ?_) fun s hn => ?_
  · have hno : ¬ mayRecord (some n) s.backend.log = true := fun h =>
      absurd (mayRecord_some.1 h) (Nat.not_lt.2 hn)
    simp only [eliminateDuplicates, Backend.observed, if_neg hno]
  · simp only [eliminateDuplicates, Backend.observed, if_pos (mayRecord_some.2 hn)]
    rfl

variable [DecidableEq ν]

theorem relates_mirrors (b : Backend σ ν ε) : Relates Mirrors b (b.observed none) where
  root := rfl
  calls := by
    constructor <;> intros <;> dsimp only [Backend.observed] <;> exact mirrors_call _ _
  createEdge _ _ _ := by
    rw [Backend.observed_createEdge]
    exact mirrors_call _ _
  readField _ _ := by
    rw [Backend.observed_readField]
    exact mirrors_call _ _
  pure _ _ := rfl
  throw _ _ := rfl
  bind := Mirrors.bind
  typeOf _ _ := rfl
  eliminateDuplicates _ := rfl
  lookUp _ _ := rfl
  remember _ _ _ := rfl
  countJoins _ := rfl
  setJoins _ _ := rfl

/-- **Recording changes neither results nor sessions.** -/
theorem compile_observed (b : Backend σ ν ε) (t : Term) (target : Option ValueType)
    (s : Session (Observed σ ν) ν) :
    t.compile b target s.plain =
      ((t.compile (b.observed none) target s).1, (t.compile (b.observed none) target s).2.plain) :=
  (relates_mirrors b).compile t target s

theorem relates_limits (n : Nat) (b : Backend σ ν ε) :
    Relates (Limits n) (b.observed none) (b.observed (some n)) where
  root := rfl
  calls := by
    constructor <;> intros <;> dsimp only [Backend.observed] <;> exact limits_call n _ _
  createEdge _ _ _ := by
    rw [Backend.observed_createEdge, Backend.observed_createEdge]
    exact limits_call n _ _
  readField _ _ := by
    rw [Backend.observed_readField, Backend.observed_readField]
    exact limits_call n _ _
  pure _ := limits_of_silent fun _ => rfl
  throw _ := limits_of_silent fun _ => rfl
  bind := Limits.bind
  typeOf _ := limits_of_silent fun _ => rfl
  eliminateDuplicates := limits_eliminateDuplicates n b
  lookUp _ := limits_of_silent fun _ => rfl
  remember _ _ := limits_of_silent fun _ => rfl
  countJoins := limits_of_silent fun _ => rfl
  setJoins _ := limits_of_silent fun _ => rfl

/-- Whether a session with a limit of `n` calls is at the point up to which another has come, or at
its last call if that one has come further. -/
structure Session.CutAt (n : Nat) (s s' : Session (Observed σ ν) ν) : Prop where
  same : s.backend.log.length ≤ n → s' = s
  cut : n ≤ s.backend.log.length → s'.backend.log = s.backend.log.take n

omit [DecidableEq ν] in
theorem Session.CutAt.log_eq {n : Nat} {s s' : Session (Observed σ ν) ν} (h : s.CutAt n s') :
    s'.backend.log = s.backend.log.take n := by
  rcases Nat.le_total s.backend.log.length n with hn | hn
  · rw [h.same hn, List.take_of_length_le hn]
  · exact h.cut hn

omit [DecidableEq ν] in
theorem Limits.cutAt {n : Nat} {m m' : Compiling (Observed σ ν) ν α} (h : Limits n m m')
    {s s' : Session (Observed σ ν) ν} (hs : s.CutAt n s') : (m s).2.CutAt n (m' s').2 := by
  rcases Nat.lt_or_ge n s.backend.log.length with hn | hn
  · have hlen : n ≤ s'.backend.log.length := by
      rw [hs.cut (Nat.le_of_lt hn)]
      exact Nat.le_of_eq (List.length_take_of_le (Nat.le_of_lt hn)).symm
    obtain ⟨more, hmore⟩ := h.log_extends s
    refine ⟨fun hle => ?_, fun _ => ?_⟩
    · have hgrown := (h.log_extends s).length_le
      omega
    · rw [h.idle s' hlen, hs.cut (Nat.le_of_lt hn), ← hmore, List.take_append_of_le_length (Nat.le_of_lt hn)]
  · rw [hs.same hn]
    exact ⟨fun hle => congrArg Prod.snd (h.same s hle), h.cut s hn⟩

theorem cutAt_sessionAfter (n : Nat) (b : Backend σ ν ε) (ts : List Term)
    {s s' : Session (Observed σ ν) ν} (hs : s.CutAt n s') :
    (sessionAfter (b.observed none) ts s).CutAt n (sessionAfter (b.observed (some n)) ts s') := by
  induction ts generalizing s s' with
  | nil => exact hs
  | cons t ts ih => exact ih (((relates_limits n b).compile t none).cutAt hs)

theorem cutAt_sessionBehind (n : Nat) (b : Backend σ ν ε) (batches : List (List Term))
    {s s' : Session (Observed σ ν) ν} (hs : s.CutAt n s') :
    (sessionBehind (b.observed none) batches s).CutAt n
      (sessionBehind (b.observed (some n)) batches s') := by
  induction batches generalizing s s' with
  | nil => exact hs
  | cons ts batches ih =>
    rw [sessionBehind_cons, sessionBehind_cons]
    refine ih (cutAt_sessionAfter n b ts ⟨fun hn => ?_, hs.cut⟩)
    rw [hs.same hn]

end Criteria.Query

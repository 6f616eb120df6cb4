import Criteria.Proofs.Query.Recording
import Mathlib.Data.List.Forall2
import Mathlib.Data.List.Nodup

/-!
# Shared joins

The edges of the graph of paths are created on demand and remembered, so that a path used twice is
joined once, also if calls of the backend fail in between.

* `Session.Shared`: the memo holds the edges created so far, each once;
* `ReadsAlong`: a step that resolves references keeps this, and reads their fields at the nodes that
  the memo leads to; `readsAlong_compile` is about terms;
* `joins_shared`: what this means for terms compiled one after the other.
-/

namespace Criteria.Query

variable {σ ν ε α β : Type}

/-! ### What a log tells about edges and fields -/

/-- The edge that a call has created. -/
def Event.created? : Event ν → Option (Edge ν × ν)
  | .edge e (some target) => some (e, target)
  | _ => none

/-- The edge that a call was to create. -/
def Event.attempted? : Event ν → Option (Edge ν)
  | .edge e _ => some e
  | _ => none

/-- The field that a call reads, and where. -/
def Event.read? : Event ν → Option (ν × String)
  | .field source name => some (source, name)
  | _ => none

/-- The edges created, and where they lead. -/
def createdEdges (log : List (Event ν)) : List (Edge ν × ν) := log.filterMap Event.created?

/-- The edges asked for, whether they could be created or not. -/
def attemptedEdges (log : List (Event ν)) : List (Edge ν) := log.filterMap Event.attempted?

/-- The fields read, and where. -/
def fieldReads (log : List (Event ν)) : List (ν × String) := log.filterMap Event.read?

@[simp] theorem createdEdges_append (log log' : List (Event ν)) :
    createdEdges (log ++ log') = createdEdges log ++ createdEdges log' := List.filterMap_append

@[simp] theorem attemptedEdges_append (log log' : List (Event ν)) :
    attemptedEdges (log ++ log') = attemptedEdges log ++ attemptedEdges log' := List.filterMap_append

@[simp] theorem fieldReads_append (log log' : List (Event ν)) :
    fieldReads (log ++ log') = fieldReads log ++ fieldReads log' := List.filterMap_append

/-- Whether no call of a log is about edges or fields. -/
def Aside (log : List (Event ν)) : Prop := ∀ event ∈ log, event = .distinct ∨ event = .other

theorem aside_nil : Aside ([] : List (Event ν)) := List.forall_mem_nil _

theorem Aside.createdEdges {log : List (Event ν)} (h : Aside log) : createdEdges log = [] :=
  List.filterMap_eq_nil_iff.2 fun event he => by rcases h event he with rfl | rfl <;> rfl

theorem Aside.attemptedEdges {log : List (Event ν)} (h : Aside log) : attemptedEdges log = [] :=
  List.filterMap_eq_nil_iff.2 fun event he => by rcases h event he with rfl | rfl <;> rfl

theorem Aside.fieldReads {log : List (Event ν)} (h : Aside log) : fieldReads log = [] :=
  List.filterMap_eq_nil_iff.2 fun event he => by rcases h event he with rfl | rfl <;> rfl

/-! ### Following remembered edges -/

section

variable [DecidableEq ν]

namespace EdgeMemo

theorem get?_eq_some_iff {m : EdgeMemo ν} (h : (m.entries.map (·.1)).Nodup) {e : Edge ν} {node : ν} :
    m.get? e = some node ↔ (e, node) ∈ m.entries := by
  obtain ⟨entries⟩ := m
  rw [get?]
  induction entries with
  | nil => simp
  | cons entry rest ih =>
    obtain ⟨hnew, hrest⟩ := List.nodup_cons.1 h
    by_cases he : entry.1 = e
    · have hno : (e, node) ∉ rest := fun hmem => hnew (List.mem_map.2 ⟨_, hmem, he.symm⟩)
      rw [List.find?_cons_of_pos (by simpa using he), List.mem_cons, or_iff_left hno]
      rw [Option.map_some, Option.some.injEq, Prod.ext_iff]
      exact ⟨fun hn => ⟨he.symm, hn.symm⟩, fun hn => hn.2.symm⟩
    · have hno : (e, node) ≠ entry := fun heq => he (congrArg Prod.fst heq.symm)
      rw [List.find?_cons_of_neg (by simpa using he), List.mem_cons, or_iff_right hno]
      exact ih hrest

/-- Where the remembered edges lead from a node along fields. -/
def follow (m : EdgeMemo ν) (node : ν) : List String → Option ν
  | [] => some node
  | field :: rest => (m.get? ⟨node, field, .left⟩).bind fun next => m.follow next rest

/-- Whether another memo has the same edges and perhaps more. -/
def Grows (m m' : EdgeMemo ν) : Prop := ∀ e node, m.get? e = some node → m'.get? e = some node

theorem Grows.refl (m : EdgeMemo ν) : m.Grows m := fun _ _ h => h

theorem Grows.trans {m m' m'' : EdgeMemo ν} (h : m.Grows m') (h' : m'.Grows m'') : m.Grows m'' :=
  fun e node he => h' e node (h e node he)

theorem Grows.follow {m m' : EdgeMemo ν} (h : m.Grows m') {fields : List String} {node target : ν}
    (hf : m.follow node fields = some target) : m'.follow node fields = some target := by
  induction fields generalizing node with
  | nil => exact hf
  | cons field rest ih =>
    obtain ⟨next, hnext, hrest⟩ := Option.bind_eq_some_iff.1 hf
    exact Option.bind_eq_some_iff.2 ⟨next, h _ _ hnext, ih hrest⟩

theorem grows_insert {m : EdgeMemo ν} {e : Edge ν} (h : m.get? e = none) (target : ν) :
    m.Grows (m.insert e target) := by
  intro e' node he
  have hne : e' ≠ e := by
    rintro rfl
    rw [h] at he
    cases he
  rw [get?_insert_of_ne hne, he]

/-- Whether a field is read for a reference, at the node to which the remembered edges lead. -/
def ReadFor (m : EdgeMemo ν) (root : ν) (path : FieldPath) (read : ν × String) : Prop :=
  m.follow root path.parents = some read.1 ∧ path.leaf = read.2

/-- Whether the edges on the way to a reference are remembered. -/
def Reaches (m : EdgeMemo ν) (root : ν) (path : FieldPath) : Prop :=
  ∃ node, m.follow root path.parents = some node

theorem Grows.readFor {m m' : EdgeMemo ν} (h : m.Grows m') {root : ν} {path : FieldPath}
    {read : ν × String} (hr : m.ReadFor root path read) : m'.ReadFor root path read :=
  ⟨h.follow hr.1, hr.2⟩

theorem Grows.reaches {m m' : EdgeMemo ν} (h : m.Grows m') {root : ν} {path : FieldPath}
    (hr : m.Reaches root path) : m'.Reaches root path :=
  hr.imp fun _ => h.follow

end EdgeMemo

/-! ### The invariant of sessions -/

/-- Whether the memo holds the edges created so far, of which no two are the same. -/
structure Session.Shared (s : Session (Observed σ ν) ν) : Prop where
  entries : s.memo.entries = (createdEdges s.backend.log).reverse
  nodup : ((createdEdges s.backend.log).map (·.1)).Nodup
  left : ∀ entry ∈ createdEdges s.backend.log, entry.1.kind = .left

namespace Session.Shared

variable {s s' : Session (Observed σ ν) ν} (h : s.Shared)

include h

theorem get?_iff (e : Edge ν) (node : ν) :
    s.memo.get? e = some node ↔ (e, node) ∈ createdEdges s.backend.log := by
  have hkeys : (s.memo.entries.map (·.1)).Nodup := by
    rw [h.entries, List.map_reverse]
    exact List.nodup_reverse.2 h.nodup
  rw [EdgeMemo.get?_eq_some_iff hkeys, h.entries, List.mem_reverse]

omit [DecidableEq ν] in
/-- The memo does not see calls that create no edge. -/
theorem of_createdEdges_eq (hmemo : s'.memo = s.memo)
    (hlog : createdEdges s'.backend.log = createdEdges s.backend.log) : s'.Shared where
  entries := by rw [hmemo, hlog, h.entries]
  nodup := hlog ▸ h.nodup
  left := hlog ▸ h.left

omit [DecidableEq ν] in
/-- Edges that differ do so in their source or their field, since all are of one kind. -/
theorem nodup_fields :
    ((createdEdges s.backend.log).map fun c => (c.1.source, c.1.field)).Nodup := by
  have hinj : ∀ e ∈ (createdEdges s.backend.log).map (·.1),
      ∀ e' ∈ (createdEdges s.backend.log).map (·.1),
        (e.source, e.field) = (e'.source, e'.field) → e = e' := by
    simp only [List.mem_map]
    rintro _ ⟨⟨⟨source, field, kind⟩, node⟩, hc, rfl⟩ _ ⟨⟨⟨source', field', kind'⟩, node'⟩, hc', rfl⟩ heq
    obtain rfl : kind = .left := h.left _ hc
    obtain rfl : kind' = .left := h.left _ hc'
    simpa using heq
  have hnodup := h.nodup.map_on hinj
  rwa [List.map_map] at hnodup

/-- An edge that is created when it is not remembered is new. -/
theorem insert {e : Edge ν} {target : ν} (hleft : e.kind = .left) (hnew : s.memo.get? e = none)
    (hmemo : s'.memo = s.memo.insert e target)
    (hlog : s'.backend.log = s.backend.log ++ [.edge e (some target)]) : s'.Shared := by
  have hcreated : createdEdges s'.backend.log = createdEdges s.backend.log ++ [(e, target)] := by
    rw [hlog, createdEdges_append]
    rfl
  have hfresh : ∀ entry ∈ createdEdges s.backend.log, entry.1 ≠ e := by
    rintro ⟨e', node⟩ hmem rfl
    rw [(h.get?_iff e' node).2 hmem] at hnew
    cases hnew
  constructor
  · have hfilter : s.memo.entries.filter (fun entry => entry.1 ≠ e) = s.memo.entries := by
      rw [List.filter_eq_self]
      intro entry hmem
      rw [h.entries, List.mem_reverse] at hmem
      simpa using hfresh entry hmem
    rw [hmemo, EdgeMemo.insert, hfilter, hcreated, List.reverse_append, h.entries]
    rfl
  · rw [hcreated, List.map_append, List.nodup_append]
    refine ⟨h.nodup, List.nodup_singleton _, ?_⟩
    rintro _ hmem _ (_ | ⟨_, ⟨⟩⟩)
    obtain ⟨entry, hentry, rfl⟩ := List.mem_map.1 hmem
    exact hfresh entry hentry
  · intro entry hmem
    rw [hcreated, List.mem_append, List.mem_singleton] at hmem
    rcases hmem with hmem | rfl
    · exact h.left entry hmem
    · exact hleft

end Session.Shared

/-- Whether between two sessions the calls `new` were made, and fields were read for `done`. -/
structure Session.Reads (root : ν) (done : List FieldPath) (new : List (Event ν))
    (s s' : Session (Observed σ ν) ν) : Prop where
  log : s'.backend.log = s.backend.log ++ new
  shared : s'.Shared
  grows : s.memo.Grows s'.memo
  reads : List.Forall₂ (s'.memo.ReadFor root) done (fieldReads new)

theorem Session.Shared.reads_aside {s s' : Session (Observed σ ν) ν} (h : s.Shared) (root : ν)
    {new : List (Event ν)} (hlog : s'.backend.log = s.backend.log ++ new)
    (hmemo : s'.memo = s.memo) (hnew : Aside new) : s.Reads root [] new s' where
  log := hlog
  shared := h.of_createdEdges_eq hmemo (by simp [hlog, hnew.createdEdges])
  grows := hmemo ▸ .refl _
  reads := hnew.fieldReads ▸ .nil

theorem Session.Reads.trans {root : ν} {done done' : List FieldPath} {new new' : List (Event ν)}
    {s s₁ s' : Session (Observed σ ν) ν} (h : s.Reads root done new s₁)
    (h' : s₁.Reads root done' new' s') : s.Reads root (done ++ done') (new ++ new') s' where
  log := by rw [h'.log, h.log, List.append_assoc]
  shared := h'.shared
  grows := h.grows.trans h'.grows
  reads := by
    rw [fieldReads_append]
    exact List.rel_append (h.reads.imp fun _ _ => h'.grows.readFor) h'.reads

theorem Session.Reads.reaches {root : ν} {done : List FieldPath} {new : List (Event ν)}
    {s s' : Session (Observed σ ν) ν} (h : s.Reads root done new s') :
    ∀ path ∈ done, s'.memo.Reaches root path := by
  have hreads := h.reads
  clear h
  generalize fieldReads new = reads at hreads
  induction hreads with
  | nil => exact nofun
  | cons hr _ ih => exact List.forall_mem_cons.2 ⟨⟨_, hr.1⟩, ih⟩

/-! ### Steps that resolve references -/

/-- Whether a step reads fields for references as far as it comes: for all of them if it succeeds,
and without asking for edges if those to the references are remembered. -/
def ReadsAlong (root : ν) (paths : List FieldPath) (m : Compiling (Observed σ ν) ν α) : Prop :=
  ∀ ⦃s⦄, s.Shared → ∃ done new, s.Reads root done new (m s).2 ∧ done <+: paths ∧
    ((m s).1.isOk → done = paths) ∧
    ((∀ path ∈ paths, s.memo.Reaches root path) → attemptedEdges new = [])

theorem ReadsAlong.bind {root : ν} {paths more : List FieldPath}
    {m : Compiling (Observed σ ν) ν α} {f : α → Compiling (Observed σ ν) ν β}
    (hm : ReadsAlong root paths m) (hf : ∀ a, ReadsAlong root more (f a)) :
    ReadsAlong root (paths ++ more) (m >>= f) := by
  intro s hs
  obtain ⟨done, new, hreads, hprefix, hok, hknown⟩ := hm hs
  obtain ⟨a, s₁, h, hb⟩ | ⟨e, s₁, h, hb⟩ := bind_cases m f s <;> rw [h] at hreads hok <;> rw [hb]
  · -- the second step is only reached behind all references of the first
    obtain rfl : done = paths := hok rfl
    obtain ⟨done', new', hreads', hprefix', hok', hknown'⟩ := hf a hreads.shared
    refine ⟨done ++ done', new ++ new', hreads.trans hreads', ?_, fun h => ?_, fun h => ?_⟩
    · exact (List.prefix_append_right_inj done).2 hprefix'
    · rw [hok' h]
    · rw [attemptedEdges_append, hknown fun path hp => h path (List.mem_append_left _ hp),
        hknown' fun path hp => hreads.grows.reaches (h path (List.mem_append_right _ hp))]
      rfl
  · refine ⟨done, new, hreads, hprefix.trans (List.prefix_append _ _),
      (absurd · Bool.false_ne_true), fun h => ?_⟩
    exact hknown fun path hp => h path (List.mem_append_left _ hp)

/-- A step that leaves edges and fields alone. -/
theorem readsAlong_aside (root : ν) {m : Compiling (Observed σ ν) ν α}
    (h : ∀ s, ∃ new, (m s).2.backend.log = s.backend.log ++ new ∧ (m s).2.memo = s.memo ∧ Aside new) :
    ReadsAlong root [] m := by
  intro s hs
  obtain ⟨new, hlog, hmemo, hnew⟩ := h s
  exact ⟨[], new, hs.reads_aside root hlog hmemo hnew, List.prefix_rfl, fun _ => rfl,
    fun _ => hnew.attemptedEdges⟩

theorem readsAlong_silent (root : ν) {m : Compiling (Observed σ ν) ν α}
    (hlog : ∀ s, (m s).2.backend.log = s.backend.log) (hmemo : ∀ s, (m s).2.memo = s.memo) :
    ReadsAlong root [] m :=
  readsAlong_aside root fun s => ⟨[], by rw [hlog, List.append_nil], hmemo s, aside_nil⟩

theorem readsAlong_throw (root : ν) (paths : List FieldPath) (e : CompileError) :
    ReadsAlong root paths (throw e : Compiling (Observed σ ν) ν α) := fun _ hs =>
  ⟨[], [], hs.reads_aside root (List.append_nil _).symm rfl aside_nil, List.nil_prefix, (absurd · Bool.false_ne_true),
    fun _ => rfl⟩

omit [DecidableEq ν] in
/-- A call that is not refused is recorded. -/
theorem call_observe_cases (limit : Option Nat) (event : Except CompileError α → Event ν)
    (c : Call σ α) (s : Session (Observed σ ν) ν) :
    (∃ e, call (observe limit event c) s = (.error e, s)) ∨
      ∃ r x, call (observe limit event c) s = (r, { s with backend := x }) ∧
        x.log = s.backend.log ++ [event r] := by
  by_cases h : mayRecord limit s.backend.log = true
  · refine .inr ⟨(c s.backend.state).1, ⟨(c s.backend.state).2, _⟩, ?_, rfl⟩
    simp only [call, observe, if_pos h]
    rfl
  · refine .inl ⟨.backend "no more calls", ?_⟩
    simp only [call, observe, if_neg h]

theorem readsAlong_other (root : ν) (limit : Option Nat) (c : Call σ α) :
    ReadsAlong root [] (call (observe limit (fun _ => .other) c)) := by
  refine readsAlong_aside root fun s => ?_
  obtain ⟨e, h⟩ | ⟨r, x, h, hx⟩ := call_observe_cases limit (fun _ => .other) c s <;> rw [h]
  · exact ⟨[], (List.append_nil _).symm, rfl, aside_nil⟩
  · exact ⟨[.other], hx, rfl, by simp [Aside]⟩

theorem readsAlong_eliminateDuplicates (root : ν) (limit : Option Nat) (b : Backend σ ν ε) :
    ReadsAlong root [] (eliminateDuplicates (b.observed limit)) := by
  refine readsAlong_aside root fun s => ?_
  by_cases h : mayRecord limit s.backend.log = true
  · exact ⟨[.distinct], by simp only [eliminateDuplicates, Backend.observed, if_pos h], rfl,
      by simp [Aside]⟩
  · exact ⟨[], by simp only [eliminateDuplicates, Backend.observed, if_neg h, List.append_nil], rfl,
      aside_nil⟩

variable (b : Backend σ ν ε) (limit : Option Nat)

/-- A walk that is not stopped ends where the remembered edges then lead. -/
theorem walk_reads (root : ν) (fields : List String) (node : ν) {s : Session (Observed σ ν) ν}
    (hs : s.Shared) : ∃ new, s.Reads root [] new (walk (b.observed limit) node fields s).2 ∧
      (∀ target, (walk (b.observed limit) node fields s).1 = .ok target →
        (walk (b.observed limit) node fields s).2.memo.follow node fields = some target) ∧
      ((∃ target, s.memo.follow node fields = some target) → attemptedEdges new = []) := by
  -- by induction on the fields, from any node: the edges behind the first are those of another walk
  induction fields generalizing node s with
  | nil =>
    refine ⟨[], hs.reads_aside root (List.append_nil _).symm rfl aside_nil, ?_, fun _ => rfl⟩
    rintro target ⟨⟩
    rfl
  | cons field rest ih =>
    have hlookUp : lookUp ⟨node, field, .left⟩ s = (.ok (s.memo.get? ⟨node, field, .left⟩), s) := rfl
    rw [walk_cons, bind_of_ok hlookUp]
    rcases hnext : s.memo.get? ⟨node, field, .left⟩ with _ | next
    case some =>
      obtain ⟨new, hreads, hend, hknown⟩ := ih next hs
      refine ⟨new, hreads, fun target ht => ?_, fun ⟨target, ht⟩ => hknown ⟨target, ?_⟩⟩
      · exact Option.bind_eq_some_iff.2 ⟨next, hreads.grows _ _ hnext, hend target ht⟩
      · rwa [EdgeMemo.follow, hnext] at ht
    -- an edge that is not remembered is asked for, so it was not known where it leads
    have hunknown {p : Prop} : (∃ target, s.memo.follow node (field :: rest) = some target) → p := by
      rintro ⟨target, ht⟩
      rw [EdgeMemo.follow, hnext] at ht
      cases ht
    dsimp only
    rw [Backend.observed_createEdge]
    obtain ⟨e, hc⟩ | ⟨e | next, x, hc, hx⟩ := call_observe_cases limit
      (fun r => .edge ⟨node, field, .left⟩ r.toOption) (b.createEdge node field .left) s
    · -- the call is not made any more
      rw [bind_of_error hc]
      exact ⟨[], hs.reads_aside root (List.append_nil _).symm rfl aside_nil, nofun, hunknown⟩
    · -- the call fails, and nothing is remembered
      rw [bind_of_error hc]
      have hshared : Session.Shared { s with backend := x } :=
        hs.of_createdEdges_eq rfl (by rw [hx, createdEdges_append]; exact List.append_nil _)
      exact ⟨_, ⟨hx, hshared, .refl _, .nil⟩, nofun, hunknown⟩
    · -- the edge is created, and remembered before the walk goes on
      have hshared : Session.Shared ⟨x, s.memo.insert ⟨node, field, .left⟩ next, s.joins⟩ :=
        hs.insert rfl hnext rfl hx
      have hreads : s.Reads root [] _ _ := ⟨hx, hshared, EdgeMemo.grows_insert hnext next, .nil⟩
      have hremember : remember ⟨node, field, .left⟩ next { s with backend := x } =
        (.ok (), ⟨x, s.memo.insert ⟨node, field, .left⟩ next, s.joins⟩) := rfl
      rw [bind_of_ok hc, bind_of_ok hremember]
      obtain ⟨new, hreads', hend, -⟩ := ih next hshared
      refine ⟨_, hreads.trans hreads', fun target ht => ?_, hunknown⟩
      exact Option.bind_eq_some_iff.2
        ⟨next, hreads'.grows _ _ (EdgeMemo.get?_insert_self _ _ _), hend target ht⟩

theorem readsAlong_resolvePath (path : FieldPath) :
    ReadsAlong b.root [path] (resolvePath (b.observed limit) path) := by
  intro s hs
  obtain ⟨new, hreads, hend, hknown⟩ := walk_reads b limit b.root path.parents b.root hs
  have hknown' (h : ∀ p ∈ [path], s.memo.Reaches b.root p) : attemptedEdges new = [] :=
    hknown (h path List.mem_cons_self)
  rw [resolvePath]
  rcases h : walk (b.observed limit) b.root path.parents s with ⟨e | node, s₁⟩ <;>
    rw [h] at hreads hend
  · rw [show (b.observed limit).root = b.root from rfl, bind_of_error h]
    exact ⟨[], new, hreads, List.nil_prefix, (absurd · Bool.false_ne_true), hknown'⟩
  rw [show (b.observed limit).root = b.root from rfl, bind_of_ok h, Backend.observed_readField]
  obtain ⟨e, hc⟩ | ⟨r, x, hc, hx⟩ := call_observe_cases limit (fun _ => .field node path.leaf)
    (b.readField node path.leaf) s₁
  · rw [bind_of_error hc]
    exact ⟨[], new, hreads, List.nil_prefix, (absurd · Bool.false_ne_true), hknown'⟩
  · have hread : Session.Reads b.root [path] _ s₁ { s₁ with backend := x } :=
      ⟨hx, hreads.shared.of_createdEdges_eq rfl (by rw [hx, createdEdges_append]; exact List.append_nil _),
        .refl _, .cons ⟨hend node rfl, rfl⟩ .nil⟩
    have hall : (∀ p ∈ [path], s.memo.Reaches b.root p) →
        attemptedEdges (new ++ [.field node path.leaf]) = [] := fun h => by
      rw [attemptedEdges_append, hknown' h]
      rfl
    cases r with
    | error e =>
      rw [bind_of_error hc]
      exact ⟨[path], _, hreads.trans hread, List.prefix_rfl, (absurd · Bool.false_ne_true), hall⟩
    | ok e =>
      rw [bind_of_ok hc]
      exact ⟨[path], _, hreads.trans hread, List.prefix_rfl, fun _ => rfl, hall⟩

theorem readsAlong_countJoins (root : ν) :
    ReadsAlong root [] (countJoins : Compiling (Observed σ ν) ν Nat) :=
  readsAlong_silent root (fun _ => rfl) fun _ => rfl

theorem readsAlong_setJoins (root : ν) (n : Nat) :
    ReadsAlong root [] (setJoins n : Compiling (Observed σ ν) ν Unit) :=
  readsAlong_silent root (fun _ => rfl) fun _ => rfl

theorem readsAlong_pure (root : ν) (a : α) :
    ReadsAlong root [] (pure a : Compiling (Observed σ ν) ν α) :=
  readsAlong_silent root (fun _ => rfl) fun _ => rfl

theorem relatesAlong_reads :
    RelatesAlong (fun paths m _ => ReadsAlong b.root paths m) (b.observed limit)
      (b.observed limit) where
  calls := by
    constructor <;> intros <;> dsimp only [Backend.observed] <;> exact readsAlong_other ..
  pure a := readsAlong_pure _ a
  throw paths e := readsAlong_throw _ paths e
  bind hm hf := hm.bind hf
  typeOf _ := readsAlong_silent _ (fun _ => rfl) fun _ => rfl
  eliminateDuplicates := readsAlong_eliminateDuplicates ..
  reference path := (readsAlong_resolvePath b limit path).bind fun c => by
    split
    · exact (readsAlong_countJoins _).bind fun _ => (readsAlong_setJoins ..).bind fun _ =>
        readsAlong_pure ..
    · exact readsAlong_pure ..
  noticed {paths} _ _ hm := List.append_nil paths ▸ (readsAlong_countJoins _).bind fun _ =>
    hm.bind fun _ => (readsAlong_countJoins _).bind fun _ => readsAlong_pure ..
  uncounted {paths} _ _ hm := List.append_nil paths ▸ (readsAlong_countJoins _).bind fun n =>
    hm.bind fun a => (readsAlong_setJoins _ n).bind fun _ => readsAlong_pure ..

/-- **A term reads fields for its references as far as its compilation comes.** -/
theorem readsAlong_compile (t : Term) (target : Option ValueType) :
    ReadsAlong b.root t.references (t.compile (b.observed limit) target) :=
  (relatesAlong_reads b limit).compile t target

/-! ### Terms one after the other -/

/-- Whether fields were read for the references of terms, for each term as far as its compilation
came. -/
def Session.ReadsEach (root : ν) (ts : List Term) (s s' : Session (Observed σ ν) ν) : Prop :=
  ∃ done new, List.Forall₂ (fun paths (t : Term) => paths <+: t.references) done ts ∧
    s.Reads root done.flatten new s'

theorem Session.ReadsEach.trans {root : ν} {ts us : List Term} {s s₁ s' : Session (Observed σ ν) ν}
    (h : s.ReadsEach root ts s₁) (h' : s₁.ReadsEach root us s') : s.ReadsEach root (ts ++ us) s' := by
  obtain ⟨done, new, hprefix, hreads⟩ := h
  obtain ⟨done', new', hprefix', hreads'⟩ := h'
  exact ⟨done ++ done', new ++ new', List.rel_append hprefix hprefix',
    List.flatten_append ▸ hreads.trans hreads'⟩

theorem readsEach_sessionAfter (ts : List Term) {s : Session (Observed σ ν) ν} (hs : s.Shared) :
    s.ReadsEach b.root ts (sessionAfter (b.observed limit) ts s) := by
  induction ts generalizing s with
  | nil => exact ⟨[], [], .nil, hs.reads_aside _ (List.append_nil _).symm rfl aside_nil⟩
  | cons t ts ih =>
    obtain ⟨done, new, hreads, hprefix, -⟩ := readsAlong_compile b limit t none hs
    have hfirst : s.ReadsEach b.root [t] (t.compile (b.observed limit) none s).2 :=
      ⟨[done], new, .cons hprefix .nil, by simpa using hreads⟩
    exact hfirst.trans (ih hreads.shared)

theorem readsEach_sessionBehind (batches : List (List Term)) {s : Session (Observed σ ν) ν}
    (hs : s.Shared) :
    s.ReadsEach b.root batches.flatten (sessionBehind (b.observed limit) batches s) := by
  induction batches generalizing s with
  | nil => exact ⟨[], [], .nil, hs.reads_aside _ (List.append_nil _).symm rfl aside_nil⟩
  | cons ts batches ih =>
    rw [sessionBehind_cons]
    have hreset : Session.Shared { s with joins := 0 } := hs.of_createdEdges_eq rfl rfl
    obtain ⟨done, new, hprefix, hreads⟩ := readsEach_sessionAfter b limit ts hreset
    have hfirst : s.ReadsEach b.root ts (sessionAfter (b.observed limit) ts { s with joins := 0 }) :=
      ⟨done, new, hprefix, ⟨hreads.log, hreads.shared, hreads.grows, hreads.reads⟩⟩
    exact hfirst.trans (ih hreads.shared)

omit [DecidableEq ν] in
/-- The session before the first term. -/
def Session.start (x : σ) : Session (Observed σ ν) ν := ⟨⟨x, []⟩, {}, 0⟩

/-- What terms compiled one after the other have made of the session. -/
structure Session.JoinsShared (root : ν) (ts : List Term) (s : Session (Observed σ ν) ν) : Prop where
  /-- No field of a node was followed twice. -/
  created : ((createdEdges s.backend.log).map fun c => (c.1.source, c.1.field)).Nodup
  /-- The memo has the edges that were created, with the nodes they lead to. -/
  memo (e node) : s.memo.get? e = some node ↔ (e, node) ∈ createdEdges s.backend.log
  size : s.memo.size = (createdEdges s.backend.log).length
  /-- Fields were read for the references of each term as far as its compilation came, at the nodes
  to which the memo leads; so references with the same parents were read at the same node. -/
  reads : ∃ done, List.Forall₂ (fun paths (t : Term) => paths <+: t.references) done ts ∧
    List.Forall₂ (s.memo.ReadFor root) done.flatten (fieldReads s.backend.log) ∧
    ∀ r ∈ done.flatten.zip (fieldReads s.backend.log),
      ∀ r' ∈ done.flatten.zip (fieldReads s.backend.log), r.1.parents = r'.1.parents → r.2.1 = r'.2.1

theorem Session.ReadsEach.joinsShared {root : ν} {ts : List Term} {x : σ}
    {s : Session (Observed σ ν) ν} (h : (Session.start x).ReadsEach root ts s) :
    s.JoinsShared root ts := by
  obtain ⟨done, new, hprefix, hreads⟩ := h
  have hshared := hreads.shared
  obtain rfl : s.backend.log = new := hreads.log
  refine ⟨hshared.nodup_fields, hshared.get?_iff, ?_, done, hprefix, hreads.reads, ?_⟩
  · rw [EdgeMemo.size, hshared.entries, List.length_reverse]
  · intro r hr r' hr' hparents
    have hread := (List.forall₂_iff_zip.1 hreads.reads).2 hr
    have hread' := (List.forall₂_iff_zip.1 hreads.reads).2 hr'
    have heq : some r.2.1 = some r'.2.1 := by rw [← hread.1, ← hread'.1, hparents]
    exact Option.some.inj heq

/-- **Every join is created once and shared**, at any point of the compilation of terms one after the
other; and a term that was compiled is compiled again without asking for edges. -/
theorem joins_shared (b : Backend σ ν ε) (x : σ) (batches : List (List Term)) :
    (∀ n, (sessionBehind (b.observed (some n)) batches (.start x)).backend.log =
      (sessionBehind (b.observed none) batches (.start x)).backend.log.take n) ∧
    ∀ limit,
      let s := sessionBehind (b.observed limit) batches (.start x)
      s.JoinsShared b.root batches.flatten ∧
      ∀ (t : Term) us between, (t.compile (b.observed limit) none s).1.isOk →
        let s' := sessionBehind (b.observed limit) between
          (sessionAfter (b.observed limit) us (t.compile (b.observed limit) none s).2)
        attemptedEdges (t.compile (b.observed limit) none s').2.backend.log =
          attemptedEdges s'.backend.log := by
  have hstart : (Session.start x : Session (Observed σ ν) ν).Shared := ⟨rfl, .nil, nofun⟩
  refine ⟨fun n => ?_, fun limit => ?_⟩
  · exact (cutAt_sessionBehind n b batches ⟨fun _ => rfl, fun _ => List.take_nil.symm⟩).log_eq
  have hbatches := readsEach_sessionBehind b limit batches hstart
  refine ⟨hbatches.joinsShared, fun t us between hok => ?_⟩
  obtain ⟨_, _, -, hreads⟩ := hbatches
  -- the edges to the references of the term stay remembered
  obtain ⟨done, new, hfirst, -, hall, -⟩ := readsAlong_compile b limit t none hreads.shared
  obtain ⟨_, _, -, hmore⟩ := readsEach_sessionAfter b limit us hfirst.shared
  obtain ⟨_, _, -, hmost⟩ := readsEach_sessionBehind b limit between hmore.shared
  obtain ⟨_, new', hagain, -, -, hknown⟩ := readsAlong_compile b limit t none hmost.shared
  have hreaches := hknown fun path hpath =>
    (hmore.grows.trans hmost.grows).reaches (hfirst.reaches path (hall hok ▸ hpath))
  dsimp only
  rw [hagain.log, attemptedEdges_append, hreaches, List.append_nil]

/-- So `a/b`, compiled before, is compiled again without asking for the edge to `a`. -/
theorem joins_shared_reference :
    let b := Backend.naming.observed none
    let s := ((Term.reference ⟨["a"], "b"⟩).compile b none (.start ())).2
    attemptedEdges s.backend.log = [⟨"root", "a", .left⟩] ∧
      attemptedEdges ((Term.reference ⟨["a"], "b"⟩).compile b none s).2.backend.log =
        [⟨"root", "a", .left⟩] :=
  ⟨rfl, ((joins_shared Backend.naming () []).2 none).2 (.reference ⟨["a"], "b"⟩) [] [] rfl⟩

end

end Criteria.Query

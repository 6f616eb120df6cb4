import Criteria.Grammar.Description
import Criteria.Proofs.Fallible
import Mathlib.Data.List.Nodup

/-!
# Building grammars

A grammar is built by calls that change a draft one after the other, and a call may fail. Here the
calls are programs that write to a draft in place, so that whatever a failing call has written would
stay (`Drafting`). `DraftCall.run_eq` says that they do what `GrammarDraft.addState`, `setInitial` and
`transition` say, and that a call that fails has written nothing.

From the empty draft, no sequence of calls makes two states with one name, a category that leads out
of a state twice, or a target that is not declared (`GrammarDraft.WellFormed`). So in a finished
grammar the expected categories are those with a next state, each of them once
(`Grammar.WellFormed`).
-/

namespace Criteria

/-- A program that changes a draft in place. What it has written stays even if it fails. -/
abbrev Drafting (κ α : Type) := ExceptT SyntaxError (StateM (GrammarDraft κ)) α

namespace Drafting

variable {κ : Type}

/-- The index of a state, which has to be declared. -/
def find (name : String) : Drafting κ Nat := do
  match (← get).stateIndex? name with
  | some i => return i
  | none => throw (.unknownState name)

/-- Declares a state unless there is one with its name. -/
def addState (name : String) : Drafting κ Unit := do
  match (← get).stateIndex? name with
  | some _ => return
  | none => modify fun d => { d with states := d.states ++ [{ name }] }

/-- Makes a declared state the first one. -/
def setInitial (name : String) : Drafting κ Unit := do
  let i ← find name
  modify fun d => { d with initial := some i }

variable [DecidableEq κ] [Labelled κ]

/-- Fails if a category leads out of the state with the given name and index. -/
def checkFree (source : String) (i : Nat) (kind : κ) : Drafting κ Unit := do
  if (((← get).states[i]?).bind (·.target? kind)).isSome then
    throw (.ambiguousTransition source (Labelled.label kind))

/-- Collects categories without repetitions behind those already chosen, and checks each. -/
def collect (source : String) (i : Nat) : List κ → List κ → Drafting κ (List κ)
  | [], chosen => return chosen
  | kind :: kinds, chosen => do
    checkFree source i kind
    collect source i kinds (if kind ∈ chosen then chosen else chosen ++ [kind])

/-- Adds a transition between declared states on any of the given categories. -/
def transition (source target : String) (kinds : List κ) : Drafting κ Unit := do
  let i ← find source
  let j ← find target
  let chosen ← collect source i kinds []
  modify fun d => { d with states := d.states.modify i fun s =>
    { s with transitions := s.transitions ++ [⟨chosen, j⟩] } }

end Drafting

/-- A call that changes a draft. -/
inductive DraftCall (κ : Type) where
  | addState (name : String)
  | setInitial (name : String)
  | transition (source target : String) (kinds : List κ)
  deriving DecidableEq, Repr

namespace DraftCall

variable {κ : Type} [DecidableEq κ] [Labelled κ]

/-- The program of a call. -/
def run : DraftCall κ → Drafting κ Unit
  | addState name => Drafting.addState name
  | setInitial name => Drafting.setInitial name
  | transition source target kinds => Drafting.transition source target kinds

/-- The draft that a call makes of a draft, if it succeeds. -/
def apply (d : GrammarDraft κ) : DraftCall κ → Except SyntaxError (GrammarDraft κ)
  | addState name => .ok (d.addState name).2
  | setInitial name => d.setInitial name
  | transition source target kinds => d.transition source target kinds

/-- The draft behind several calls, whether they succeed or fail. -/
def after (d : GrammarDraft κ) (calls : List (DraftCall κ)) : GrammarDraft κ :=
  calls.foldl (fun d c => (c.run d).2) d

end DraftCall

/-! ### Writing in place -/

/-- Where a failure leaves what it found. -/
def Drafting.outcome {κ : Type} (d : GrammarDraft κ) :
    Except SyntaxError (GrammarDraft κ) → Except SyntaxError Unit × GrammarDraft κ
  | .ok d' => (.ok (), d')
  | .error e => (.error e, d)

namespace GrammarDraft

variable {κ : Type}

/-- The index that is found is that of a state with the given name. -/
theorem exists_of_find {d : GrammarDraft κ} {name : String} {i : Nat} (h : d.find name = .ok i) :
    ∃ s, d.states[i]? = some s ∧ s.name = name := by
  unfold find at h
  split at h
  · next hi =>
    cases h
    obtain ⟨hlt, hname, -⟩ := List.findIdx?_eq_some_iff_getElem.1 hi
    exact ⟨_, List.getElem?_eq_getElem hlt, by simpa using hname⟩
  · cases h

end GrammarDraft

namespace Drafting

variable {κ : Type}

section

variable {α β : Type} {m : Drafting κ α} {f : α → Drafting κ β} {d d' : GrammarDraft κ}

theorem bind_of_ok {a : α} (h : m d = (.ok a, d')) : (m >>= f) d = f a d' := by
  change (ExceptT.bindCont f (m d).1) (m d).2 = _
  rw [h]
  rfl

theorem bind_of_error {e : SyntaxError} (h : m d = (.error e, d')) :
    (m >>= f) d = (.error e, d') := by
  change (ExceptT.bindCont f (m d).1) (m d).2 = _
  rw [h]
  rfl

end

theorem find_eq (d : GrammarDraft κ) (name : String) : find name d = (d.find name, d) := by
  unfold GrammarDraft.find
  change (match d.stateIndex? name with
    | some i => (pure i : Drafting κ Nat)
    | none => throw (SyntaxError.unknownState name)) d = _
  cases d.stateIndex? name <;> rfl

theorem addState_eq (d : GrammarDraft κ) (name : String) :
    addState name d = (.ok (), (d.addState name).2) := by
  unfold GrammarDraft.addState
  let append (e : GrammarDraft κ) : GrammarDraft κ := { e with states := e.states ++ [{ name }] }
  change (match d.stateIndex? name with
    | some _ => (pure () : Drafting κ Unit)
    | none => modify append) d = _
  cases d.stateIndex? name <;> rfl

theorem setInitial_eq (d : GrammarDraft κ) (name : String) :
    setInitial name d = outcome d (d.setInitial name) := by
  have hfind := find_eq d name
  unfold GrammarDraft.setInitial setInitial
  cases h : d.find name with
  | error e =>
    rw [h] at hfind
    exact bind_of_error hfind
  | ok i =>
    rw [h] at hfind
    exact bind_of_ok hfind

variable [DecidableEq κ] [Labelled κ]

/-- Collecting writes nothing. -/
theorem collect_eq {d : GrammarDraft κ} {i : Nat} {s : GrammarState κ} (h : d.states[i]? = some s)
    (kinds chosen : List κ) :
    collect s.name i kinds chosen d =
      (GrammarDraft.newKinds s Labelled.label kinds chosen, d) := by
  induction kinds generalizing chosen with
  | nil => rfl
  | cons kind kinds ih =>
    have hcheck : checkFree s.name i kind d =
        (if (s.target? kind).isSome then
          .error (.ambiguousTransition s.name (Labelled.label kind)) else .ok (), d) := by
      change (if ((d.states[i]?).bind (·.target? kind)).isSome = true then
        (throw (SyntaxError.ambiguousTransition s.name (Labelled.label kind)) : Drafting κ Unit)
        else pure ()) d = _
      rw [h, Option.bind_some]
      split_ifs <;> rfl
    rw [collect, GrammarDraft.newKinds]
    by_cases htarget : (s.target? kind).isSome
    · rw [if_pos htarget] at hcheck ⊢
      exact bind_of_error hcheck
    · rw [if_neg htarget] at hcheck ⊢
      rw [bind_of_ok hcheck]
      exact ih _

theorem transition_eq (d : GrammarDraft κ) (source target : String) (kinds : List κ) :
    transition source target kinds d = outcome d (d.transition source target kinds) := by
  have hsource := find_eq d source
  have htarget := find_eq d target
  unfold GrammarDraft.transition transition
  cases hi : d.find source with
  | error e =>
    rw [hi] at hsource
    exact bind_of_error hsource
  | ok i =>
    rw [hi] at hsource
    rw [bind_of_ok hsource, ok_bind]
    cases hj : d.find target with
    | error e =>
      rw [hj] at htarget
      exact bind_of_error htarget
    | ok j =>
      rw [hj] at htarget
      rw [bind_of_ok htarget, ok_bind]
      obtain ⟨s, hs, rfl⟩ := GrammarDraft.exists_of_find hi
      have hcollect := collect_eq hs kinds []
      simp only [hs]
      cases hk : GrammarDraft.newKinds s Labelled.label kinds [] with
      | error e =>
        rw [hk] at hcollect
        exact bind_of_error hcollect
      | ok chosen =>
        rw [hk] at hcollect
        rw [bind_of_ok hcollect, ok_bind]
        have hmodify : d.states.modify i (fun s =>
            { s with transitions := s.transitions ++ [⟨chosen, j⟩] }) =
            d.states.set i { s with transitions := s.transitions ++ [⟨chosen, j⟩] } := by
          apply List.ext_getElem?
          intro k
          rw [List.getElem?_modify, List.getElem?_set]
          split_ifs with hk hlt <;> simp_all
        change (Except.ok (), { d with states := _ }) = _
        rw [hmodify]
        rfl

end Drafting

namespace DraftCall

variable {κ : Type} [DecidableEq κ] [Labelled κ]

/-- **A call does what is said of it, and one that fails leaves the draft as it was.** -/
theorem run_eq (c : DraftCall κ) (d : GrammarDraft κ) : c.run d = Drafting.outcome d (c.apply d) := by
  cases c with
  | addState name => exact Drafting.addState_eq d name
  | setInitial name => exact Drafting.setInitial_eq d name
  | transition source target kinds => exact Drafting.transition_eq d source target kinds

end DraftCall

/-! ### What every draft satisfies -/

namespace GrammarState

variable {κ : Type} [DecidableEq κ]

/-- A category has a target if it is among those that lead out of the state. -/
theorem isSome_target?_iff {s : GrammarState κ} {kind : κ} :
    (s.target? kind).isSome = true ↔ kind ∈ s.expected := by
  simp [target?, expected]

theorem exists_of_target? {s : GrammarState κ} {kind : κ} {i : Nat} (h : s.target? kind = some i) :
    ∃ t ∈ s.transitions, t.target = i := by
  obtain ⟨t, ht, rfl⟩ := Option.map_eq_some_iff.1 h
  exact ⟨t, List.mem_of_find?_eq_some ht, rfl⟩

end GrammarState

/-- What no call breaks. -/
structure GrammarDraft.WellFormed {κ : Type} (d : GrammarDraft κ) : Prop where
  /-- No two states have the same name. -/
  names : (d.states.map (·.name)).Nodup
  /-- No category leads out of a state twice, be it by two transitions or by one. -/
  kinds : ∀ s ∈ d.states, s.expected.Nodup
  /-- Every target is declared. -/
  targets : ∀ s ∈ d.states, ∀ t ∈ s.transitions, t.target < d.states.length
  /-- The first state is declared, if there is one. -/
  initial : ∀ i ∈ d.initial, i < d.states.length

namespace GrammarDraft

variable {κ : Type}

theorem WellFormed.empty : WellFormed ({} : GrammarDraft κ) where
  names := List.nodup_nil
  kinds := nofun
  targets := nofun
  initial := nofun

theorem lt_of_find {d : GrammarDraft κ} {name : String} {i : Nat} (h : d.find name = .ok i) :
    i < d.states.length := by
  obtain ⟨s, hs, -⟩ := exists_of_find h
  exact (List.getElem?_eq_some_iff.1 hs).1

theorem WellFormed.addState {d : GrammarDraft κ} (h : d.WellFormed) (name : String) :
    (d.addState name).2.WellFormed := by
  unfold GrammarDraft.addState
  cases hi : d.stateIndex? name with
  | some i => exact h
  | none =>
    have hnew : ∀ s ∈ d.states, s.name ≠ name := by simpa [stateIndex?] using hi
    refine ⟨?_, ?_, ?_, ?_⟩
    · rw [List.map_append, List.nodup_append]
      refine ⟨h.names, by simp, ?_⟩
      rintro _ hn _ hm rfl
      obtain ⟨s, hs, rfl⟩ := List.mem_map.1 hn
      exact hnew s hs (by simpa using hm)
    · rintro s hs
      rcases List.mem_append.1 hs with hs | hs
      · exact h.kinds s hs
      · rw [List.mem_singleton.1 hs]
        exact List.nodup_nil
    · intro s hs t ht
      rw [List.length_append]
      rcases List.mem_append.1 hs with hs | hs
      · exact Nat.lt_add_right _ (h.targets s hs t ht)
      · rw [List.mem_singleton.1 hs] at ht
        cases ht
    · intro i hi
      rw [List.length_append]
      exact Nat.lt_add_right _ (h.initial i hi)

theorem WellFormed.setInitial {d d' : GrammarDraft κ} (h : d.WellFormed) {name : String}
    (hd : d.setInitial name = .ok d') : d'.WellFormed := by
  obtain ⟨i, hi, ⟨⟩⟩ := bind_eq_ok_iff.1 hd
  refine ⟨h.names, h.kinds, h.targets, ?_⟩
  rintro _ ⟨⟩
  exact lt_of_find hi

variable [DecidableEq κ]

/-- What is collected has no repetitions and leads nowhere yet. -/
theorem newKinds_spec {s : GrammarState κ} {label : κ → String} {kinds chosen collected : List κ}
    (h : newKinds s label kinds chosen = .ok collected) (hnodup : chosen.Nodup)
    (hfree : ∀ k ∈ chosen, k ∉ s.expected) :
    collected.Nodup ∧ ∀ k ∈ collected, k ∉ s.expected := by
  induction kinds generalizing chosen with
  | nil =>
    cases h
    exact ⟨hnodup, hfree⟩
  | cons kind kinds ih =>
    rw [newKinds] at h
    split_ifs at h with htarget hmem
    · exact ih h hnodup hfree
    · refine ih h ?_ ?_
      · rw [List.nodup_append]
        refine ⟨hnodup, by simp, ?_⟩
        rintro _ ha _ hb rfl
        exact hmem (List.mem_singleton.1 hb ▸ ha)
      · intro k hk
        rcases List.mem_append.1 hk with hk | hk
        · exact hfree k hk
        · rw [List.mem_singleton.1 hk, ← GrammarState.isSome_target?_iff]
          exact htarget

variable [Labelled κ]

theorem WellFormed.transition {d d' : GrammarDraft κ} (h : d.WellFormed) {source target : String}
    {kinds : List κ} (hd : d.transition source target kinds = .ok d') : d'.WellFormed := by
  obtain ⟨i, hi, hd⟩ := bind_eq_ok_iff.1 hd
  obtain ⟨j, hj, hd⟩ := bind_eq_ok_iff.1 hd
  obtain ⟨s, hs, rfl⟩ := exists_of_find hi
  simp only [hs] at hd
  obtain ⟨chosen, hchosen, ⟨⟩⟩ := bind_eq_ok_iff.1 hd
  obtain ⟨hnodup, hfree⟩ := newKinds_spec hchosen List.nodup_nil nofun
  obtain ⟨hlt, hs⟩ := List.getElem?_eq_some_iff.1 hs
  have hmem : s ∈ d.states := hs ▸ List.getElem_mem hlt
  refine ⟨?_, ?_, ?_, ?_⟩
  · have hnames : (d.states.map (·.name)).set i s.name = d.states.map (·.name) := by
      have hi : i < (d.states.map (·.name)).length := by simpa using hlt
      have hname : (d.states.map (·.name))[i] = s.name := by simp [hs]
      rw [← hname, List.set_getElem_self]
    rw [List.map_set, hnames]
    exact h.names
  · intro u hu
    rcases List.mem_or_eq_of_mem_set hu with hu | rfl
    · exact h.kinds u hu
    · rw [GrammarState.expected, List.flatMap_append, List.nodup_append]
      refine ⟨h.kinds s hmem, by simpa using hnodup, ?_⟩
      rintro k hk _ hk' rfl
      exact hfree k (by simpa using hk') hk
  · intro u hu t ht
    rw [List.length_set]
    rcases List.mem_or_eq_of_mem_set hu with hu | rfl
    · exact h.targets u hu t ht
    · rcases List.mem_append.1 ht with ht | ht
      · exact h.targets s hmem t ht
      · rw [List.mem_singleton.1 ht]
        exact lt_of_find hj
  · intro k hk
    rw [List.length_set]
    exact h.initial k hk

end GrammarDraft

/-! ### Finished grammars -/

/-- The expected categories are those that lead on, and they lead to declared states. -/
structure Grammar.WellFormed {κ : Type} [DecidableEq κ] (g : Grammar κ) : Prop where
  /-- A category is expected just if there is a next state for it. -/
  isSome_next?_iff : ∀ state kind, (g.next? state kind).isSome = true ↔ kind ∈ g.expected state
  /-- No category is expected twice. -/
  nodup_expected : ∀ state, (g.expected state).Nodup
  /-- The next state is declared. -/
  next?_lt : ∀ state kind target, g.next? state kind = some target → target < g.states.length
  /-- The first state is declared. -/
  initial_lt : g.initial < g.states.length

variable {κ : Type} [DecidableEq κ]

theorem GrammarDraft.WellFormed.build {d : GrammarDraft κ} (h : d.WellFormed) {g : Grammar κ}
    (hg : d.build = .ok g) : g.WellFormed := by
  unfold GrammarDraft.build at hg
  split_ifs at hg with hempty
  cases hg
  refine ⟨?_, ?_, ?_, ?_⟩
  · intro state kind
    simp only [Grammar.next?, Grammar.expected]
    cases d.states[state]? with
    | none => simp
    | some s => simpa using GrammarState.isSome_target?_iff
  · intro state
    simp only [Grammar.expected]
    cases hs : d.states[state]? with
    | none => simp
    | some s => exact h.kinds s (List.mem_of_getElem? hs)
  · intro state kind target ht
    obtain ⟨s, hs, ht⟩ := Option.bind_eq_some_iff.1 ht
    obtain ⟨t, hmem, rfl⟩ := GrammarState.exists_of_target? ht
    exact h.targets s (List.mem_of_getElem? hs) t hmem
  · change d.initial.getD 0 < d.states.length
    cases hi : d.initial with
    | none => exact List.length_pos_iff.2 (by simpa using hempty)
    | some i => exact h.initial i hi

variable [Labelled κ]

/-- One call keeps a draft well-formed. -/
theorem DraftCall.wellFormed_apply {d d' : GrammarDraft κ} (h : d.WellFormed) {c : DraftCall κ}
    (hc : c.apply d = .ok d') : d'.WellFormed := by
  cases c with
  | addState name =>
    cases hc
    exact h.addState name
  | setInitial name => exact h.setInitial hc
  | transition source target kinds => exact h.transition hc

/-- So do several calls, those that fail among them. -/
theorem DraftCall.wellFormed_after {d : GrammarDraft κ} (h : d.WellFormed)
    (calls : List (DraftCall κ)) : (after d calls).WellFormed := by
  induction calls generalizing d with
  | nil => exact h
  | cons c calls ih =>
    refine ih (d := (c.run d).2) ?_
    -- a call that fails has written nothing
    rw [run_eq]
    cases hc : c.apply d with
    | error e => exact h
    | ok d' => exact wellFormed_apply h hc

/-- A line of a description keeps a draft well-formed. -/
theorem Description.Line.wellFormed_apply {d d' : GrammarDraft κ} (h : d.WellFormed) {l : Line κ}
    (hl : l.apply d = .ok d') : d'.WellFormed := by
  cases l with
  | state name =>
    cases hl
    exact h.addState name
  | rule source kinds target => exact (h.addState target).transition hl
  | pattern kind source =>
    cases hl
    exact h

/-- Every grammar that a text describes is well-formed. -/
theorem Description.wellFormed_of_load {resolve : String → Option κ} {extended : Bool} {text : String}
    {g : Grammar κ} {patterns : List (κ × String)}
    (h : load resolve extended text = .ok (g, patterns)) : g.WellFormed := by
  have lines {ls : List (Line κ)} : ∀ {d d' : GrammarDraft κ}, d.WellFormed →
      ls.foldlM Line.apply d = .ok d' → d'.WellFormed := by
    induction ls with
    | nil =>
      rintro d _ hd ⟨⟩
      exact hd
    | cons l ls ih =>
      intro d d' hd h
      obtain ⟨d₁, hl, h⟩ := bind_eq_ok_iff.1 h
      exact ih (Line.wellFormed_apply hd hl) h
  obtain ⟨elements, -, h⟩ := bind_eq_ok_iff.1 h
  obtain ⟨draft, hdraft, h⟩ := bind_eq_ok_iff.1 h
  split at h
  · cases h
  · obtain ⟨g', hg, ⟨⟩⟩ := bind_eq_ok_iff.1 h
    exact (lines GrammarDraft.WellFormed.empty hdraft).build hg

/-- **Whatever calls are made of a new draft, it is well-formed**, a call that fails leaves it as it
was, and a grammar that is finished leads just from the expected categories to declared states. -/
theorem wellFormed_after_calls (calls : List (DraftCall κ)) :
    (DraftCall.after {} calls).WellFormed ∧
    (∀ (c : DraftCall κ) (d : GrammarDraft κ) (e : SyntaxError),
      (c.run d).1 = .error e → c.apply d = .error e ∧ (c.run d).2 = d) ∧
    (∀ (c : DraftCall κ) (d : GrammarDraft κ), (c.run d).1 = .ok () → c.apply d = .ok (c.run d).2) ∧
    ∀ g, (DraftCall.after {} calls).build = .ok g → g.WellFormed := by
  have hafter := DraftCall.wellFormed_after GrammarDraft.WellFormed.empty calls
  refine ⟨hafter, ?_, ?_, fun g hg => hafter.build hg⟩
  · intro c d e he
    rw [DraftCall.run_eq] at he ⊢
    cases hc : c.apply d with
    | ok d' =>
      rw [hc] at he
      cases he
    | error e' =>
      rw [hc] at he
      cases he
      exact ⟨rfl, rfl⟩
  · intro c d he
    rw [DraftCall.run_eq] at he ⊢
    cases hc : c.apply d with
    | error e =>
      rw [hc] at he
      cases he
    | ok d' => rfl

/-- A category that leads out of a state already is refused, though a new one stands before it. -/
theorem wellFormed_after_overlap :
    let d : GrammarDraft TokenKind := DraftCall.after {}
      [.addState "a", .addState "b", .transition "a" "b" [.operand, .null, .operand]]
    let overlap : DraftCall TokenKind := .transition "a" "a" [.separator, .null]
    let g : Grammar TokenKind := ⟨[⟨"a", [⟨[.operand, .null], 1⟩]⟩, ⟨"b", []⟩], 0⟩
    (overlap.run d).1 = .error (.ambiguousTransition "a" "Null") ∧ (overlap.run d).2 = d ∧
      d.build = .ok g ∧ g.WellFormed := by
  intro d overlap g
  have hfails : (overlap.run d).1 = .error (.ambiguousTransition "a" "Null") := by rfl
  have hbuild : d.build = .ok g := by rfl
  obtain ⟨-, herror, -, hgrammar⟩ := wellFormed_after_calls
    [.addState "a", .addState "b", .transition "a" "b" [.operand, TokenKind.null, .operand]]
  exact ⟨hfails, (herror overlap d _ hfails).2, hbuild, hgrammar g hbuild⟩

end Criteria

import Criteria.Scanner
import Mathlib.Data.List.Basic
import Mathlib.Tactic.SplitIfs

/-!
# What a scan finds and what it asks

A scan loses nothing of its input and invents nothing, whatever its acceptor does. An acceptor may
have a state of its own, so it is followed question by question: `Acceptor.noting` answers as it does
and notes what it is asked.

* `Refuses` and `Finds` say what comes of asking about the candidates at one place: all of them are
  refused, or the first that is accepted is found.
* `Scanner.Reaches` says how far a scan can come token by token, and `Reaches.scan_eq` that the scan
  goes on from there. Every scan reaches the end of its input or a place where nothing is accepted
  (`Reaches.exists_end`).
* `Scanner.Alternates` says that a text is gaps and tokens in turn.

`Scanner.Covers` puts them together, and `scan_covers` says that every scan covers its input.
-/

namespace Criteria

open Text

variable {σ τ κ : Type}

/-! ### Questions -/

/-- A question to an acceptor: the state in which it is asked, the candidate and the answer. -/
structure Question (σ κ : Type) where
  state : σ
  kind : κ
  text : String
  accepted : Bool
  deriving DecidableEq, Repr

/-- The question about a category and a text in a state. -/
def Acceptor.question (accept : Acceptor σ κ) (state : σ) (kind : κ) (text : String) :
    Question σ κ :=
  ⟨state, kind, text, (accept state kind text).1⟩

/-- The acceptor that also notes what it is asked, in order. -/
def Acceptor.noting (accept : Acceptor σ κ) : Acceptor (σ × List (Question σ κ)) κ :=
  fun (state, asked) kind text =>
    ((accept state kind text).1, (accept state kind text).2,
      asked ++ [accept.question state kind text])

/-- Whether an acceptor that starts in one state is asked one question after the other and ends in
another state. -/
def Acceptor.Answers (accept : Acceptor σ κ) : σ → List (Question σ κ) → σ → Prop
  | state, [], state' => state = state'
  | state, q :: asked, state' =>
    q = accept.question state q.kind q.text ∧
      accept.Answers (accept state q.kind q.text).2 asked state'

theorem Acceptor.Answers.append {accept : Acceptor σ κ} {state mid state' : σ}
    {asked more : List (Question σ κ)} (h : accept.Answers state asked mid)
    (hmore : accept.Answers mid more state') : accept.Answers state (asked ++ more) state' := by
  induction asked generalizing state with
  | nil =>
    cases h
    exact hmore
  | cons q asked ih => exact ⟨h.1, ih h.2⟩

/-- An acceptor that answers as another does, its states being made of the states of the other and of
what the other has been asked. -/
def Acceptor.Views (accept : Acceptor σ κ) (other : Acceptor τ κ)
    (view : σ → List (Question σ κ) → τ) : Prop :=
  ∀ state asked kind text, other (view state asked) kind text =
    ((accept state kind text).1,
      view (accept state kind text).2 (asked ++ [accept.question state kind text]))

theorem Acceptor.views_self (accept : Acceptor σ κ) :
    accept.Views accept fun state _ => state := fun _ _ _ _ => rfl

theorem Acceptor.views_noting (accept : Acceptor σ κ) : accept.Views accept.noting Prod.mk :=
  fun _ _ _ _ => rfl

/-! ### The candidates at one place -/

/-- Whether all candidates that definitions find at the start of `rest` are refused one after the
other, with the questions and the state of the acceptor behind them. -/
inductive Refuses (accept : Acceptor σ κ) (rest : List Char) :
    List (Definition κ) → σ → List (Question σ κ) → σ → Prop where
  | nil (state : σ) : Refuses accept rest [] state [] state
  | missed {d : Definition κ} {ds : List (Definition κ)} {state state' : σ}
      {asked : List (Question σ κ)} (hd : d.candidate? rest = none)
      (h : Refuses accept rest ds state asked state') :
      Refuses accept rest (d :: ds) state asked state'
  | refused {d : Definition κ} {ds : List (Definition κ)} {c : Candidate κ} {state state' : σ}
      {asked : List (Question σ κ)} (hd : d.candidate? rest = some c)
      (hc : (accept state c.kind (c.text rest)).1 = false)
      (h : Refuses accept rest ds (accept state c.kind (c.text rest)).2 asked state') :
      Refuses accept rest (d :: ds) state
        (accept.question state c.kind (c.text rest) :: asked) state'

/-- Whether `c` is the candidate of the first definition whose candidate at the start of `rest` is
accepted, with the questions up to it and the state of the acceptor behind them. -/
inductive Finds (accept : Acceptor σ κ) (rest : List Char) (definitions : List (Definition κ))
    (state : σ) : List (Question σ κ) → Candidate κ → σ → Prop where
  | intro (before : List (Definition κ)) {after : List (Definition κ)} {d : Definition κ}
      {c : Candidate κ} {asked : List (Question σ κ)} {mid : σ}
      (hdefinitions : definitions = before ++ d :: after)
      (hbefore : Refuses accept rest before state asked mid) (hd : d.candidate? rest = some c)
      (hc : (accept mid c.kind (c.text rest)).1 = true) :
      Finds accept rest definitions state
        (asked ++ [accept.question mid c.kind (c.text rest)]) c
        (accept mid c.kind (c.text rest)).2

variable {accept : Acceptor σ κ} {rest : List Char} {definitions : List (Definition κ)}
  {state state' : σ} {asked : List (Question σ κ)} {c : Candidate κ}

theorem refuses_or_finds (accept : Acceptor σ κ) (rest : List Char)
    (definitions : List (Definition κ)) (state : σ) :
    (∃ asked state', Refuses accept rest definitions state asked state') ∨
      ∃ asked c state', Finds accept rest definitions state asked c state' := by
  induction definitions generalizing state with
  | nil => exact .inl ⟨_, _, .nil state⟩
  | cons d ds ih =>
    cases hd : d.candidate? rest with
    | none =>
      rcases ih state with ⟨asked, state', h⟩ | ⟨_, c, _, @⟨before, after, e, _, _, _, rfl, h, he, hc⟩⟩
      · exact .inl ⟨asked, state', .missed hd h⟩
      · exact .inr ⟨_, c, _, .intro (d :: before) rfl (.missed hd h) he hc⟩
    | some c =>
      cases hc : (accept state c.kind (c.text rest)).1 with
      | true => exact .inr ⟨_, c, _, .intro [] rfl (.nil state) hd hc⟩
      | false =>
        rcases ih (accept state c.kind (c.text rest)).2 with
          ⟨asked, state', h⟩ | ⟨_, c', _, @⟨before, after, e, _, _, _, rfl, h, he, hc'⟩⟩
        · exact .inl ⟨_, state', .refused hd hc h⟩
        · exact .inr ⟨_, c', _, .intro (d :: before) rfl (.refused hd hc h) he hc'⟩

/-- At the end of a text there are no candidates. -/
theorem Definition.candidate?_nil (d : Definition κ) : d.candidate? [] = none := by
  rw [candidate?]
  cases h : d.pattern.matchEnd? [] with
  | none => rfl
  | some n =>
    cases Nat.le_zero.1 (Pattern.matchEnd?_le h)
    rfl

theorem refuses_nil (accept : Acceptor σ κ) (definitions : List (Definition κ)) (state : σ) :
    Refuses accept [] definitions state [] state := by
  induction definitions with
  | nil => exact .nil state
  | cons d ds ih => exact .missed d.candidate?_nil ih

theorem Refuses.of_nil (h : Refuses accept [] definitions state asked state') :
    asked = [] ∧ state' = state := by
  induction h with
  | nil => exact ⟨rfl, rfl⟩
  | missed _ _ ih => exact ih
  | @refused d _ _ _ _ _ hd _ _ => simp [d.candidate?_nil] at hd

theorem Refuses.choose {other : Acceptor τ κ} {view : σ → List (Question σ κ) → τ}
    (hview : accept.Views other view) (h : Refuses accept rest definitions state asked state')
    (past : List (Question σ κ)) (more : List (Definition κ)) :
    Scanner.choose other (definitions ++ more) rest (view state past) =
      Scanner.choose other more rest (view state' (past ++ asked)) := by
  induction h generalizing past with
  | nil => rw [List.nil_append, List.append_nil]
  | missed hd h ih =>
    rw [List.cons_append, Scanner.choose, hd]
    exact ih past
  | refused hd hc h ih =>
    rw [List.cons_append, Scanner.choose, hd]
    simp only [hview _ _ _ _, hc, ih, List.append_assoc, List.singleton_append]

theorem Finds.choose {other : Acceptor τ κ} {view : σ → List (Question σ κ) → τ}
    (hview : accept.Views other view) (h : Finds accept rest definitions state asked c state')
    (past : List (Question σ κ)) :
    Scanner.choose other definitions rest (view state past) =
      (some c, view state' (past ++ asked)) := by
  obtain ⟨before, rfl, hbefore, hd, hc⟩ := h
  rw [hbefore.choose hview, Scanner.choose, hd]
  simp only [hview _ _ _ _, hc, List.append_assoc]

theorem Refuses.answers (h : Refuses accept rest definitions state asked state') :
    accept.Answers state asked state' := by
  induction h with
  | nil => rfl
  | missed _ _ ih => exact ih
  | refused _ _ _ ih => exact ⟨rfl, ih⟩

theorem Finds.answers (h : Finds accept rest definitions state asked c state') :
    accept.Answers state asked state' := by
  obtain ⟨_, -, hbefore, -, -⟩ := h
  exact hbefore.answers.append ⟨rfl, rfl⟩

/-- The categories and texts that were accepted. -/
def accepted (asked : List (Question σ κ)) : List (κ × String) :=
  (asked.filter (·.accepted)).map fun q => (q.kind, q.text)

theorem accepted_append (asked more : List (Question σ κ)) :
    accepted (asked ++ more) = accepted asked ++ accepted more := by
  simp [accepted]

theorem Refuses.accepted_eq (h : Refuses accept rest definitions state asked state') :
    accepted asked = [] := by
  induction h with
  | nil => rfl
  | missed _ _ ih => exact ih
  | refused _ hc _ ih => simpa [accepted, Acceptor.question, hc] using ih

theorem Finds.accepted_eq (h : Finds accept rest definitions state asked c state') :
    accepted asked = [(c.kind, c.text rest)] := by
  obtain ⟨_, -, hbefore, -, hc⟩ := h
  rw [accepted_append, hbefore.accepted_eq]
  simp [accepted, Acceptor.question, hc]

/-! ### From place to place -/

namespace Scan

/-- The scan with more tokens in front. -/
def behind (ts : List (Token κ)) (s : Scan σ κ) : Scan σ κ := { s with tokens := ts ++ s.tokens }

theorem behind_append (ts : List (Token κ)) (t : Token κ) (s : Scan σ κ) :
    s.behind (ts ++ [t]) = (s.cons t).behind ts := by
  simp [behind, cons]

end Scan

theorem Text.byteLength_pos {cs : List Char} (h : cs ≠ []) : 0 < byteLength cs := by
  obtain ⟨c, cs, rfl⟩ := List.exists_cons_of_ne_nil h
  exact Nat.add_pos_left c.utf8Size_pos _

theorem Candidate.take_ne_nil (c : Candidate κ) (h : rest ≠ []) : rest.take c.size ≠ [] := by
  have := c.size_pos
  simp only [ne_eq, List.take_eq_nil_iff, h, or_false]
  omega

namespace Scanner

/-- The scan from a place behind a gap. -/
def scanHere (s : Scanner κ) (accept : Acceptor σ κ) (offset : Nat) (rest : List Char)
    (state : σ) : Scan σ κ :=
  if rest = [] then ⟨[], none, state⟩
  else
    match choose accept s.definitions rest state with
    | (none, state) => ⟨[], some ⟨offset, String.ofList rest⟩, state⟩
    | (some c, state) =>
      (s.scanFrom accept (offset + byteLength (rest.take c.size)) (rest.drop c.size) state).cons
        ⟨c.kind, c.text rest, offset⟩

theorem scanFrom_eq_scanHere (s : Scanner κ) (accept : Acceptor σ κ) (offset : Nat)
    (text : List Char) (state : σ) :
    s.scanFrom accept offset text state =
      s.scanHere accept (offset + byteLength (text.take (s.gap text))) (text.drop (s.gap text))
        state := by
  rw [scanFrom, scanHere]
  split_ifs <;> rfl

/-- How far a scan can come: the tokens found, the text in front of the place and behind it, what the
acceptor has been asked and its state. The place is behind a gap. -/
inductive Reaches (s : Scanner κ) (accept : Acceptor σ κ) (input : List Char) (start : σ) :
    List (Token κ) → List Char → List Char → List (Question σ κ) → σ → Prop where
  | start : Reaches s accept input start [] (input.take (s.gap input)) (input.drop (s.gap input)) []
      start
  | token {ts : List (Token κ)} {front rest : List Char} {asked more : List (Question σ κ)}
      {state state' : σ} {c : Candidate κ} {tail : List Char}
      (h : Reaches s accept input start ts front rest asked state) (hne : rest ≠ [])
      (hc : Finds accept rest s.definitions state more c state') (htail : rest.drop c.size = tail) :
      Reaches s accept input start (ts ++ [⟨c.kind, c.text rest, byteLength front⟩])
        (front ++ rest.take c.size ++ tail.take (s.gap tail)) (tail.drop (s.gap tail))
        (asked ++ more) state'

namespace Reaches

variable {s : Scanner κ} {input front : List Char} {start : σ} {ts : List (Token κ)}

/-- Nothing is lost between the start of the input and the place. -/
theorem append_eq (h : s.Reaches accept input start ts front rest asked state) :
    front ++ rest = input := by
  induction h with
  | start => exact List.take_append_drop _ _
  | token h _ _ htail ih =>
    rw [List.append_assoc, List.take_append_drop, ← htail, List.append_assoc,
      List.take_append_drop, ih]

/-- **A scan goes on from every place that it can reach.** -/
theorem scan_eq {other : Acceptor τ κ} {view : σ → List (Question σ κ) → τ}
    (hview : accept.Views other view)
    (h : s.Reaches accept input start ts front rest asked state) :
    s.scanFrom other 0 input (view start []) =
      (s.scanHere other (byteLength front) rest (view state asked)).behind ts := by
  induction h with
  | start =>
    rw [scanFrom_eq_scanHere, Nat.zero_add]
    rfl
  | token h hne hc htail ih =>
    rw [ih, Scan.behind_append]
    congr 1
    rw [scanHere, if_neg hne, hc.choose hview]
    simp only [htail]
    rw [scanFrom_eq_scanHere, byteLength_append, byteLength_append]

theorem answers (h : s.Reaches accept input start ts front rest asked state) :
    accept.Answers start asked state := by
  induction h with
  | start => rfl
  | token _ _ hc _ ih => exact ih.append hc.answers

/-- The tokens are what was accepted. -/
theorem accepted_eq (h : s.Reaches accept input start ts front rest asked state) :
    accepted asked = ts.map fun t => (t.kind, t.text) := by
  induction h with
  | start => rfl
  | token _ _ hc _ ih => rw [accepted_append, ih, hc.accepted_eq, List.map_append, List.map_singleton]

theorem text_ne_nil (h : s.Reaches accept input start ts front rest asked state) :
    ∀ t ∈ ts, t.text.toList ≠ [] := by
  induction h with
  | start => exact nofun
  | @token _ _ _ _ _ _ _ c _ h hne _ _ ih =>
    intro t ht
    rcases List.mem_append.1 ht with ht | ht
    · exact ih t ht
    · rw [List.mem_singleton.1 ht, Candidate.text, String.toList_ofList]
      exact c.take_ne_nil hne

/-- Every token takes a character. -/
theorem length_le (h : s.Reaches accept input start ts front rest asked state) :
    ts.length + rest.length ≤ input.length := by
  induction h with
  | start => simp
  | @token _ _ _ _ _ _ _ c _ h hne _ htail ih =>
    have hlt := c.drop_length_lt hne
    rw [htail] at hlt
    simp only [List.length_append, List.length_singleton, List.length_drop]
    omega

/-- **A scan comes to a place where no candidate is accepted**; that may be the end of its input. -/
theorem exists_end (h : s.Reaches accept input start ts front rest asked state) :
    ∃ ts front rest asked state refused state',
      s.Reaches accept input start ts front rest asked state ∧
        Refuses accept rest s.definitions state refused state' := by
  -- on what is left: a token takes a character at least, and the gap behind it gives none back
  generalize hn : rest.length = n
  induction n using Nat.strongRecOn generalizing ts front rest asked state with
  | ind n ih =>
  subst hn
  by_cases hne : rest = []
  · exact ⟨ts, front, rest, asked, state, [], state, h, hne ▸ refuses_nil accept s.definitions state⟩
  rcases refuses_or_finds accept rest s.definitions state with
    ⟨refused, state', hr⟩ | ⟨more, c, state', hc⟩
  · exact ⟨ts, front, rest, asked, state, refused, state', h, hr⟩
  · refine ih _ ?_ (h.token hne hc rfl) rfl
    have hdrop : ((rest.drop c.size).drop (s.gap (rest.drop c.size))).length ≤
        (rest.drop c.size).length := by
      rw [List.length_drop]
      exact Nat.sub_le ..
    exact Nat.lt_of_le_of_lt hdrop (c.drop_length_lt hne)

/-- Where no candidate is accepted, the scan is over. -/
theorem scan_eq_of_refuses {other : Acceptor τ κ} {view : σ → List (Question σ κ) → τ}
    (hview : accept.Views other view)
    (h : s.Reaches accept input start ts front rest asked state) {refused : List (Question σ κ)}
    (hr : Refuses accept rest s.definitions state refused state') :
    s.scanFrom other 0 input (view start []) =
      ⟨ts, if rest = [] then none else some ⟨byteLength front, String.ofList rest⟩,
        view state' (asked ++ refused)⟩ := by
  rw [h.scan_eq hview, scanHere]
  by_cases hne : rest = []
  · subst hne
    obtain ⟨rfl, rfl⟩ := hr.of_nil
    simp [Scan.behind]
  · have hchoose := hr.choose hview asked []
    rw [List.append_nil, choose] at hchoose
    rw [if_neg hne, hchoose, if_neg hne]
    simp [Scan.behind]

/-- Every token was found at the place where it starts. -/
theorem exists_finds (h : s.Reaches accept input start ts front rest asked state)
    {earlier later : List (Token κ)} {t : Token κ} (hts : ts = earlier ++ t :: later) :
    ∃ front₁ rest₁ asked₁ state₁ more c state₂,
      s.Reaches accept input start earlier front₁ rest₁ asked₁ state₁ ∧
        Finds accept rest₁ s.definitions state₁ more c state₂ ∧
          t = ⟨c.kind, c.text rest₁, byteLength front₁⟩ ∧ asked₁ ++ more <+: asked := by
  -- the token is the last one, or it was found before that one
  induction h generalizing later with
  | start => simp at hts
  | token h hne hc htail ih =>
    rcases List.eq_nil_or_concat later with rfl | ⟨later, u, rfl⟩
    · obtain ⟨rfl, ht⟩ := List.append_inj' hts rfl
      cases ht
      exact ⟨_, _, _, _, _, _, _, h, hc, rfl, List.prefix_rfl⟩
    · rw [List.concat_eq_append, ← List.cons_append, ← List.append_assoc] at hts
      obtain ⟨hts, -⟩ := List.append_inj' hts rfl
      obtain ⟨front₁, rest₁, asked₁, state₁, more₁, c₁, state₂, h₁, hc₁, ht, hasked⟩ := ih hts
      exact ⟨front₁, rest₁, asked₁, state₁, more₁, c₁, state₂, h₁, hc₁, ht,
        hasked.trans (List.prefix_append _ _)⟩

end Reaches

/-! ### Gaps and tokens in turn -/

/-- Whether a text that starts at an offset is a gap, a token, a gap, and so on for all tokens, up to
a rest behind the last gap. Each gap is what one match of the boundary covers where it starts. -/
def Alternates (s : Scanner κ) : Nat → List Char → List (Token κ) → List Char → Prop
  | _, text, [], rest => text.drop (s.gap text) = rest
  | offset, text, t :: ts, rest =>
    ∃ gap tail, text = gap ++ (t.text.toList ++ tail) ∧ gap.length = s.gap text ∧
      t.start = offset + byteLength gap ∧ s.Alternates t.stop tail ts rest

theorem length_take_gap (s : Scanner κ) (text : List Char) :
    (text.take (s.gap text)).length = s.gap text := by
  rw [List.length_take, Nat.min_eq_left]
  rw [gap]
  cases h : s.boundary.matchEnd? text with
  | none => exact Nat.zero_le _
  | some n => exact Pattern.matchEnd?_le h

namespace Alternates

variable {s : Scanner κ} {offset : Nat} {text rest : List Char} {ts : List (Token κ)}

/-- A token behind the last gap, and a gap behind the token. -/
theorem concat (h : s.Alternates offset text ts rest) {t : Token κ} {tail : List Char}
    (hrest : rest = t.text.toList ++ tail)
    (hstart : t.start + byteLength rest = offset + byteLength text) :
    s.Alternates offset text (ts ++ [t]) (tail.drop (s.gap tail)) := by
  induction ts generalizing offset text with
  | nil =>
    have hsplit : text = text.take (s.gap text) ++ (t.text.toList ++ tail) := by
      rw [← hrest, ← show text.drop (s.gap text) = rest from h, List.take_append_drop]
    refine ⟨text.take (s.gap text), tail, hsplit, s.length_take_gap text, ?_, rfl⟩
    have hlen := congrArg byteLength hsplit
    rw [← hrest, byteLength_append] at hlen
    omega
  | cons u ts ih =>
    obtain ⟨gap, behind, hsplit, hgap, hu, h⟩ := h
    refine ⟨gap, behind, hsplit, hgap, hu, ih h ?_⟩
    have hlen := congrArg byteLength hsplit
    rw [byteLength_append, byteLength_append] at hlen
    rw [Token.stop, Token.length]
    omega

/-- Every token is a slice of the text. -/
theorem exists_slice (h : s.Alternates offset text ts rest) :
    ∀ t ∈ ts, ∃ front back, text = front ++ t.text.toList ++ back ∧
      t.start = offset + byteLength front := by
  induction ts generalizing offset text with
  | nil => exact nofun
  | cons u ts ih =>
    obtain ⟨gap, tail, rfl, -, hu, h⟩ := h
    refine List.forall_mem_cons.2 ⟨⟨gap, tail, (List.append_assoc ..).symm, hu⟩, fun t ht => ?_⟩
    obtain ⟨front, back, rfl, hstart⟩ := ih h t ht
    refine ⟨gap ++ u.text.toList ++ front, back, by simp only [List.append_assoc], ?_⟩
    simp only [Token.stop, Token.length, byteLength_append] at hstart ⊢
    omega

/-- No token starts in front of the end of an earlier one. -/
theorem pairwise (h : s.Alternates offset text ts rest) :
    ts.Pairwise fun t u => t.stop ≤ u.start := by
  induction ts generalizing offset text with
  | nil => exact .nil
  | cons t ts ih =>
    obtain ⟨gap, tail, -, -, -, h⟩ := h
    refine .cons (fun u hu => ?_) (ih h)
    obtain ⟨front, -, -, hstart⟩ := h.exists_slice u hu
    omega

end Alternates

theorem Reaches.alternates {s : Scanner κ} {input front : List Char} {start : σ}
    {ts : List (Token κ)} (h : s.Reaches accept input start ts front rest asked state) :
    s.Alternates 0 input ts rest := by
  induction h with
  | start => rfl
  | @token _ front rest _ _ _ _ c tail h _ _ htail ih =>
    refine ih.concat ?_ ?_
    · rw [Candidate.text, String.toList_ofList, ← htail, List.take_append_drop]
    · rw [← h.append_eq, byteLength_append, Nat.zero_add]

/-! ### The outcome of a scan -/

/-- What a scan has to do with its input and with what its acceptor has been asked. -/
structure Covers (s : Scanner κ) (accept : Acceptor σ κ) (input : String) (start : σ)
    (asked : List (Question σ κ)) (outcome : Scan σ κ) : Prop where
  /-- The acceptor has been asked one question after the other. -/
  answers : accept.Answers start asked outcome.state
  /-- The tokens are what was accepted, in order and up to an error. -/
  accepted_eq : accepted asked = outcome.tokens.map fun t => (t.kind, t.text)
  /-- The scan makes at most as many rounds as there are characters. -/
  length_le : outcome.tokens.length ≤ input.length
  start_lt_stop : ∀ t ∈ outcome.tokens, t.start < t.stop
  pairwise : outcome.tokens.Pairwise fun t u => t.stop ≤ u.start
  /-- The text of a token is the slice of the input that its span covers. -/
  exists_slice : ∀ t ∈ outcome.tokens, ∃ front back,
    input.toList = front ++ t.text.toList ++ back ∧ t.start = byteLength front ∧
      t.stop = byteLength (front ++ t.text.toList)
  /-- Behind the last gap nothing is left of an input that is scanned to its end. -/
  alternates : ∀ ts, outcome.result = .ok ts → s.Alternates 0 input.toList ts []
  /-- A token comes from the first definition whose candidate is accepted where it starts. -/
  exists_finds : ∀ earlier t later, outcome.tokens = earlier ++ t :: later →
    ∃ front rest past state more c state',
      s.Reaches accept input.toList start earlier front rest past state ∧
        Finds accept rest s.definitions state more c state' ∧
          t = ⟨c.kind, c.text rest, byteLength front⟩ ∧ past ++ more <+: asked
  /-- The only error is that of a place with something left and no candidate that is accepted. -/
  error_iff : ∀ e, outcome.result = .error e ↔
    ∃ ts front rest past state refused state',
      s.Reaches accept input.toList start ts front rest past state ∧ rest ≠ [] ∧
        Refuses accept rest s.definitions state refused state' ∧ past ++ refused = asked ∧
          input.toList = front ++ rest ∧
            e = .unexpectedInput (byteLength front) (String.ofList rest)

/-- **A scan loses nothing of its input and invents nothing**, whatever its definitions, its boundary
and its acceptor are. To note what the acceptor is asked changes nothing else. -/
theorem scan_covers (s : Scanner κ) (accept : Acceptor σ κ) (input : String) (start : σ) :
    ∃ asked,
      s.scan accept.noting input (start, []) =
        ⟨(s.scan accept input start).tokens, (s.scan accept input start).stop,
          (s.scan accept input start).state, asked⟩ ∧
      s.Covers accept input start asked (s.scan accept input start) := by
  have hstart : s.Reaches accept input.toList start [] _ _ [] start := .start
  obtain ⟨ts, front, rest, past, state, refused, state', h, hr⟩ := hstart.exists_end
  have hself : s.scan accept input start = _ := h.scan_eq_of_refuses accept.views_self hr
  have hnoting : s.scan accept.noting input (start, []) = _ :=
    h.scan_eq_of_refuses accept.views_noting hr
  refine ⟨past ++ refused, by rw [hself, hnoting], ?_⟩
  rw [hself]
  have halternates := h.alternates
  constructor
  case answers => exact h.answers.append hr.answers
  case accepted_eq => rw [accepted_append, h.accepted_eq, hr.accepted_eq, List.append_nil]
  case length_le => exact Nat.le_trans (Nat.le_add_right _ _) h.length_le
  case start_lt_stop =>
    intro t ht
    exact Nat.lt_add_of_pos_right (byteLength_pos (h.text_ne_nil t ht))
  case pairwise => exact halternates.pairwise
  case exists_slice =>
    intro t ht
    obtain ⟨front, back, hslice, hstart⟩ := halternates.exists_slice t ht
    rw [Nat.zero_add] at hstart
    exact ⟨front, back, hslice, hstart, by rw [byteLength_append, Token.stop, Token.length, hstart]⟩
  case alternates =>
    intro us hus
    by_cases hne : rest = []
    · simp only [Scan.result, hne, if_true, Except.ok.injEq] at hus
      exact hus ▸ hne ▸ halternates
    · simp [Scan.result, hne] at hus
  case exists_finds =>
    intro earlier t later hts
    obtain ⟨front₁, rest₁, past₁, state₁, more, c, state₂, h₁, hc, ht, hprefix⟩ := h.exists_finds hts
    exact ⟨front₁, rest₁, past₁, state₁, more, c, state₂, h₁, hc, ht,
      hprefix.trans (List.prefix_append _ _)⟩
  case error_iff =>
    refine fun e => ⟨fun he => ?_, ?_⟩
    · by_cases hne : rest = []
      · simp [Scan.result, hne] at he
      · simp only [Scan.result, hne, if_false, Except.error.injEq] at he
        exact ⟨ts, front, rest, past, state, refused, state', h, hne, hr, rfl, h.append_eq.symm,
          he.symm⟩
    · -- a scan that can reach such a place ends there
      rintro ⟨ts₁, front₁, rest₁, past₁, state₁, refused₁, state₂, h₁, hne, hr₁, -, -, rfl⟩
      rw [← hself, scan, h₁.scan_eq_of_refuses accept.views_self hr₁, if_neg hne]
      rfl

end Scanner

end Criteria

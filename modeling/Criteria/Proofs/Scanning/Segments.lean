import Criteria.Lexer
import Criteria.Proofs.Expression.Phrase
import Criteria.Proofs.Scanning.Coverage

/-!
# The run of a lexer's grammar

A lexer moves its grammar along inside the scan, as its acceptor, and `segments` replays the grammar
on tokens afterwards. Both walks are compared with `Grammar.after?`, the state behind tokens:

* the questions that the acceptor is asked carry the walk of the scan. Behind those asked so far the
  state is the one behind the tokens accepted so far (`Acceptor.Answers.after?_eq`), since a
  candidate that is rejected moves nothing;
* `segmentsFrom` puts one token after the other in front, so what it gives is shown by induction on
  the tokens: it partitions them (`partitions_of_segmentsFrom`), each with the state in which it was
  accepted (`flatMap_of_segmentsFrom`), and fails at the first token without a transition
  (`segmentsFrom_eq_error_iff`).
-/

namespace Criteria

variable {κ : Type}

/-! ### Segments -/

namespace Lexer

variable {state : Nat} {t : Token κ} {ts : List (Token κ)} {s : Segment κ} {ss : List (Segment κ)}

/-- Whether segments are a partition of tokens that cannot be made coarser. -/
structure Partitions (ss : List (Segment κ)) (ts : List (Token κ)) : Prop where
  tokens_ne_nil : ∀ s ∈ ss, s.tokens ≠ []
  flatMap_tokens : ss.flatMap (·.tokens) = ts
  chain : ss.IsChain fun a b => a.state ≠ b.state

theorem pushFront_of_eq (hs : s.state = state) :
    pushFront state t (s :: ss) = ⟨state, t :: s.tokens⟩ :: ss := if_pos hs

theorem pushFront_of_ne (hs : s.state ≠ state) :
    pushFront state t (s :: ss) = ⟨state, [t]⟩ :: s :: ss := if_neg hs

theorem flatMap_pushFront {β : Type} (f : Nat → Token κ → β) (state : Nat) (t : Token κ)
    (ss : List (Segment κ)) :
    (pushFront state t ss).flatMap (fun s => s.tokens.map (f s.state)) =
      f state t :: ss.flatMap fun s => s.tokens.map (f s.state) := by
  cases ss with
  | nil => rfl
  | cons s ss =>
    by_cases hs : s.state = state
    · rw [pushFront_of_eq hs, List.flatMap_cons, List.flatMap_cons, hs]
      rfl
    · rw [pushFront_of_ne hs, List.flatMap_cons]
      rfl

theorem Partitions.pushFront (h : Partitions ss ts) (state : Nat) (t : Token κ) :
    Partitions (pushFront state t ss) (t :: ts) where
  tokens_ne_nil := by
    cases ss with
    | nil => simp [Lexer.pushFront]
    | cons s ss =>
      have hne := h.tokens_ne_nil
      by_cases hs : s.state = state
      · rw [pushFront_of_eq hs]
        exact List.forall_mem_cons.2 ⟨List.cons_ne_nil _ _, (List.forall_mem_cons.1 hne).2⟩
      · rw [pushFront_of_ne hs]
        exact List.forall_mem_cons.2 ⟨List.cons_ne_nil _ _, hne⟩
  flatMap_tokens := by
    have hmap := flatMap_pushFront (fun _ t => t) state t ss
    simpa only [List.map_id', h.flatMap_tokens] using hmap
  chain := by
    cases ss with
    | nil => exact .singleton _
    | cons s ss =>
      by_cases hs : s.state = state
      · rw [pushFront_of_eq hs]
        subst hs
        cases ss with
        | nil => exact .singleton _
        | cons s' ss =>
          obtain ⟨hne, hchain⟩ := List.isChain_cons_cons.1 h.chain
          exact List.isChain_cons_cons.2 ⟨hne, hchain⟩
      · rw [pushFront_of_ne hs]
        exact List.isChain_cons_cons.2 ⟨Ne.symm hs, h.chain⟩

end Lexer

theorem Acceptor.Answers.exists_of_append {σ : Type} {accept : Acceptor σ κ} {state state' : σ}
    {asked more : List (Question σ κ)} (h : accept.Answers state (asked ++ more) state') :
    ∃ mid, accept.Answers state asked mid ∧ accept.Answers mid more state' := by
  induction asked generalizing state with
  | nil => exact ⟨state, rfl, h⟩
  | cons q asked ih =>
    obtain ⟨mid, hasked, hmore⟩ := ih h.2
    exact ⟨mid, ⟨h.1, hasked⟩, hmore⟩

variable [DecidableEq κ]

/-! ### The state behind tokens -/

namespace Grammar

/-- The state of a grammar behind tokens that it accepts one by one. -/
def after? (g : Grammar κ) (state : Nat) (ts : List (Token κ)) : Option Nat :=
  ts.foldlM (fun s t => g.next? s t.kind) state

@[simp] theorem after?_nil (g : Grammar κ) (state : Nat) : g.after? state [] = some state := rfl

@[simp] theorem after?_cons (g : Grammar κ) (state : Nat) (t : Token κ) (ts : List (Token κ)) :
    g.after? state (t :: ts) = (g.next? state t.kind).bind (g.after? · ts) := rfl

/-- The acceptor that moves along a grammar. -/
def acceptor (g : Grammar κ) : Acceptor Nat κ := fun state kind _ => g.advance state kind

variable {g : Grammar κ} {state target : Nat} {kind : κ}

theorem advance_of_next? (h : g.next? state kind = some target) :
    g.advance state kind = (true, target) := by
  simp only [advance, h]

theorem advance_of_next?_eq_none (h : g.next? state kind = none) :
    g.advance state kind = (false, state) := by
  simp only [advance, h]

end Grammar

/-! ### Segments behind each other -/

namespace Lexer

variable {g : Grammar κ} {state : Nat} {t : Token κ} {ts : List (Token κ)} {ss : List (Segment κ)}

/-- The first token has a transition, and the rest follows behind it. -/
theorem segmentsFrom_cons_eq_ok_iff :
    segmentsFrom g state (t :: ts) = .ok ss ↔ ∃ target ss', g.next? state t.kind = some target ∧
      segmentsFrom g target ts = .ok ss' ∧ ss = pushFront state t ss' := by
  rw [segmentsFrom]
  cases g.next? state t.kind with
  | none => simp
  | some target =>
    dsimp only
    cases hss : segmentsFrom g target ts with
    | error e => simp [hss]
    | ok ss' => simp [hss, pure, Except.pure, eq_comm]

theorem segmentsFrom_cons_eq_error_iff {e : SyntaxError} :
    segmentsFrom g state (t :: ts) = .error e ↔
      g.next? state t.kind = none ∧ e = .unexpectedInput t.start t.text ∨
        ∃ target, g.next? state t.kind = some target ∧ segmentsFrom g target ts = .error e := by
  rw [segmentsFrom]
  cases g.next? state t.kind with
  | none => simp [eq_comm]
  | some target =>
    dsimp only
    cases hss : segmentsFrom g target ts with
    | error e => simp [hss]
    | ok ss' => simp [hss, pure, Except.pure]

theorem partitions_of_segmentsFrom (h : segmentsFrom g state ts = .ok ss) : Partitions ss ts := by
  induction ts generalizing state ss with
  | nil =>
    cases h
    exact ⟨nofun, rfl, .nil⟩
  | cons t ts ih =>
    obtain ⟨target, ss', -, hss', rfl⟩ := segmentsFrom_cons_eq_ok_iff.1 h
    exact (ih hss').pushFront state t

/-- **Segments fail at the first token without a transition.** -/
theorem segmentsFrom_eq_error_iff {e : SyntaxError} :
    segmentsFrom g state ts = .error e ↔ ∃ earlier t later q, ts = earlier ++ t :: later ∧
      g.after? state earlier = some q ∧ g.next? q t.kind = none ∧
        e = .unexpectedInput t.start t.text := by
  induction ts generalizing state with
  | nil => simp [segmentsFrom]
  | cons t ts ih =>
    rw [segmentsFrom_cons_eq_error_iff]
    constructor
    · rintro (⟨hn, rfl⟩ | ⟨target, hn, he⟩)
      · exact ⟨[], t, ts, state, rfl, rfl, hn, rfl⟩
      · obtain ⟨earlier, u, later, q, rfl, hq, hu, rfl⟩ := ih.1 he
        refine ⟨t :: earlier, u, later, q, rfl, ?_, hu, rfl⟩
        rw [Grammar.after?_cons, hn, Option.bind_some, hq]
    · rintro ⟨earlier, u, later, q, hts, hq, hu, rfl⟩
      cases earlier with
      | nil =>
        cases hts
        cases hq
        exact .inl ⟨hu, rfl⟩
      | cons t' earlier =>
        cases hts
        obtain ⟨target, hn, hq⟩ := Option.bind_eq_some_iff.1 hq
        exact .inr ⟨target, hn, ih.2 ⟨earlier, u, later, q, rfl, hq, hu, rfl⟩⟩

end Lexer

/-! ### The walk of a scan -/

namespace Acceptor.Answers

variable {g : Grammar κ} {state state' : Nat} {q : Question Nat κ} {asked : List (Question Nat κ)}
  {ts : List (Token κ)}

/-- A question is answered by the transitions of the state in which it is asked. -/
theorem cons_iff : g.acceptor.Answers state (q :: asked) state' ↔
    q.state = state ∧
      (q.accepted = false ∧ g.next? state q.kind = none ∧ g.acceptor.Answers state asked state' ∨
        ∃ target, q.accepted = true ∧ g.next? state q.kind = some target ∧
          g.acceptor.Answers target asked state') := by
  obtain ⟨qstate, kind, text, verdict⟩ := q
  rw [Acceptor.Answers, Acceptor.question, Grammar.acceptor]
  cases hn : g.next? state kind with
  | none => simp [Grammar.advance_of_next?_eq_none hn, and_assoc]
  | some target => simp [Grammar.advance_of_next? hn, and_assoc]

/-- **Behind all questions a grammar is in the state behind the tokens that it accepted.** -/
theorem after?_eq (h : g.acceptor.Answers state asked state')
    (hts : accepted asked = ts.map fun t => (t.kind, t.text)) : g.after? state ts = some state' := by
  induction asked generalizing state ts with
  | nil =>
    cases h
    rw [List.map_eq_nil_iff.1 hts.symm, Grammar.after?_nil]
  | cons q asked ih =>
    obtain ⟨-, ⟨hq, -, h⟩ | ⟨target, hq, hn, h⟩⟩ := cons_iff.1 h
    · rw [accepted, List.filter_cons_of_neg (by simp [hq])] at hts
      exact ih h hts
    · rw [accepted, List.filter_cons_of_pos hq] at hts
      obtain ⟨t, ts, rfl, ht, hts⟩ := List.map_eq_cons_iff.1 hts.symm
      rw [Grammar.after?_cons, show t.kind = q.kind from congrArg Prod.fst ht, hn, Option.bind_some]
      exact ih h hts.symm

end Acceptor.Answers

/-- The state, the category and the text of each candidate that was accepted. -/
def acceptedIn (asked : List (Question Nat κ)) : List (Nat × κ × String) :=
  (asked.filter (·.accepted)).map fun q => (q.state, q.kind, q.text)

namespace Lexer

variable {g : Grammar κ} {state state' : Nat} {asked : List (Question Nat κ)} {ts : List (Token κ)}
  {ss : List (Segment κ)}

theorem exists_segmentsFrom (h : g.after? state ts = some state') :
    ∃ ss, segmentsFrom g state ts = .ok ss := by
  induction ts generalizing state with
  | nil => exact ⟨[], rfl⟩
  | cons t ts ih =>
    obtain ⟨target, hn, h⟩ := Option.bind_eq_some_iff.1 h
    obtain ⟨ss, hss⟩ := ih h
    exact ⟨_, segmentsFrom_cons_eq_ok_iff.2 ⟨target, ss, hn, hss, rfl⟩⟩

/-- **Every token is in a segment of the state in which it was accepted.** -/
theorem flatMap_of_segmentsFrom (h : g.acceptor.Answers state asked state')
    (hts : accepted asked = ts.map fun t => (t.kind, t.text))
    (hss : segmentsFrom g state ts = .ok ss) :
    ss.flatMap (fun s => s.tokens.map fun t => (s.state, t.kind, t.text)) = acceptedIn asked := by
  induction asked generalizing state ts ss with
  | nil =>
    rw [List.map_eq_nil_iff.1 hts.symm] at hss
    cases hss
    rfl
  | cons q asked ih =>
    obtain ⟨hstate, ⟨hq, -, h⟩ | ⟨target, hq, hn, h⟩⟩ := Acceptor.Answers.cons_iff.1 h
    · rw [accepted, List.filter_cons_of_neg (by simp [hq])] at hts
      rw [acceptedIn, List.filter_cons_of_neg (by simp [hq])]
      exact ih h hts hss
    · rw [accepted, List.filter_cons_of_pos hq] at hts
      obtain ⟨t, ts, rfl, ht, hts⟩ := List.map_eq_cons_iff.1 hts.symm
      obtain ⟨target', ss', hn', hss', rfl⟩ := segmentsFrom_cons_eq_ok_iff.1 hss
      have htarget : target' = target := by
        rw [show t.kind = q.kind from congrArg Prod.fst ht, hn] at hn'
        exact (Option.some.inj hn').symm
      subst htarget
      rw [flatMap_pushFront fun state t => (state, t.kind, t.text), ih h hts.symm hss', acceptedIn,
        acceptedIn, List.filter_cons_of_pos hq, List.map_cons, hstate, ht]

/-- What a scan from a state of the grammar has to do with the grammar, given the questions that it
asks. -/
structure Runs (l : Lexer κ) (state : Nat) (input : String) (asked : List (Question Nat κ)) :
    Prop where
  /-- These are the questions, and to note them changes nothing. -/
  scan_noting : l.scanner.scan l.grammar.acceptor.noting input (state, []) =
    ⟨(l.scanFrom state input).tokens, (l.scanFrom state input).stop,
      (l.tokenizeFrom state input).2, asked⟩
  /-- The tokens are those accepted, in front of an error if there is one. -/
  accepted_eq : accepted asked = (l.scanFrom state input).tokens.map fun t => (t.kind, t.text)
  /-- The scan ends in the state behind its tokens. -/
  after?_eq : l.grammar.after? state (l.scanFrom state input).tokens =
    some (l.tokenizeFrom state input).2
  /-- Every question is asked in the state behind the tokens that were accepted so far, and answered
  by the transitions of that state. -/
  of_question : ∀ past q future, asked = past ++ q :: future →
    ∃ earlier, earlier <+: (l.scanFrom state input).tokens ∧
      accepted past = earlier.map (fun t => (t.kind, t.text)) ∧
        l.grammar.after? state earlier = some q.state ∧
          q.accepted = (l.grammar.next? q.state q.kind).isSome

theorem exists_runs (l : Lexer κ) (state : Nat) (input : String) : ∃ asked,
    l.Runs state input asked ∧
      l.grammar.acceptor.Answers state asked (l.tokenizeFrom state input).2 := by
  obtain ⟨asked, hnoting, hcovers⟩ := l.scanner.scan_covers l.grammar.acceptor input state
  have hanswers : l.grammar.acceptor.Answers state asked (l.tokenizeFrom state input).2 :=
    hcovers.answers
  have haccepted : accepted asked = (l.scanFrom state input).tokens.map fun t => (t.kind, t.text) :=
    hcovers.accepted_eq
  refine ⟨asked, ⟨hnoting, haccepted, hanswers.after?_eq haccepted, ?_⟩, hanswers⟩
  -- the questions before this one have accepted the first of the tokens
  rintro past q future rfl
  obtain ⟨mid, hpast, hq⟩ := hanswers.exists_of_append
  rw [accepted_append] at haccepted
  obtain ⟨earlier, later, hsplit, hearlier, -⟩ := List.map_eq_append_iff.1 haccepted.symm
  obtain ⟨hstate, hverdict⟩ := Acceptor.Answers.cons_iff.1 hq
  refine ⟨earlier, ⟨later, hsplit.symm⟩, hearlier.symm, ?_, ?_⟩
  · rw [hstate]
    exact hpast.after?_eq hearlier.symm
  · rw [hstate]
    obtain ⟨hno, hn, -⟩ | ⟨target, hyes, hn, -⟩ := hverdict
    · rw [hno, hn, Option.isSome_none]
    · rw [hyes, hn, Option.isSome_some]

/-- **A lexer runs its grammar faithfully.** From every state and on every text it ends behind the
tokens that it accepted; the segments of the tokens of a text partition them by the states in which
they were accepted; and segments of any tokens fail at the first one without a transition. -/
theorem runs_grammar (l : Lexer κ) :
    (∀ state input, ∃ asked, l.Runs state input asked) ∧
    (∀ input ts, l.tokenize input = .ok ts → ∃ ss asked, l.segments ts = .ok ss ∧
      Partitions ss ts ∧ l.Runs l.grammar.initial input asked ∧
        ss.flatMap (fun s => s.tokens.map fun t => (s.state, t.kind, t.text)) = acceptedIn asked) ∧
    ∀ ts e, l.segments ts = .error e ↔ ∃ earlier t later q, ts = earlier ++ t :: later ∧
      l.grammar.after? l.grammar.initial earlier = some q ∧ l.grammar.next? q t.kind = none ∧
        e = .unexpectedInput t.start t.text := by
  refine ⟨fun state input => ?_, fun input ts hts => ?_, fun ts e => segmentsFrom_eq_error_iff⟩
  · obtain ⟨asked, hruns, -⟩ := l.exists_runs state input
    exact ⟨asked, hruns⟩
  · obtain ⟨asked, hruns, hanswers⟩ := l.exists_runs l.grammar.initial input
    have htokens : (l.scanFrom l.grammar.initial input).tokens = ts := by
      rw [tokenize, Scan.result] at hts
      split at hts
      · exact Except.ok.inj hts
      · cases hts
    have hafter := hruns.after?_eq
    rw [htokens] at hafter
    obtain ⟨ss, hss⟩ := exists_segmentsFrom hafter
    refine ⟨ss, asked, hss, partitions_of_segmentsFrom hss, hruns, ?_⟩
    exact flatMap_of_segmentsFrom hanswers (htokens ▸ hruns.accepted_eq) hss

/-- Keys and values with a colon in between. A letter is a key or, behind a colon, a value. -/
def keyValue : Lexer TokenKind where
  scanner := .ofDefinitions
    [⟨.operand, .seq (.anchor .textStart) (.one (.range 'a' 'z')), none⟩,
      ⟨.null, .seq (.anchor .textStart) (.one (.range 'a' 'z')), none⟩,
      ⟨.separator, .seq (.anchor .textStart) (.one (.only ':')), none⟩]
  grammar :=
    ⟨[⟨"key", [⟨[.operand], 0⟩, ⟨[.separator], 1⟩]⟩, ⟨"value", [⟨[.null], 0⟩]⟩], 0⟩

/-- The letters of `a:b` are accepted in different states, and segments of a value alone fail. -/
theorem runs_grammar_keyValue :
    (∃ ss asked, keyValue.segments [⟨.operand, "a", 0⟩, ⟨.separator, ":", 1⟩, ⟨.null, "b", 2⟩] =
        .ok ss ∧ keyValue.Runs 0 "a:b" asked ∧
          ss.flatMap (fun s => s.tokens.map fun t => (s.state, t.kind, t.text)) =
            acceptedIn asked) ∧
      keyValue.segments [⟨.null, "b", 2⟩] = .error (.unexpectedInput 2 "b") := by
  obtain ⟨-, hsegments, herror⟩ := runs_grammar keyValue
  constructor
  · have htokenize : keyValue.tokenize "a:b" =
        .ok [⟨.operand, "a", 0⟩, ⟨.separator, ":", 1⟩, ⟨.null, "b", 2⟩] := by decide +kernel
    obtain ⟨ss, asked, hss, -, hruns, hstates⟩ := hsegments "a:b" _ htokenize
    exact ⟨ss, asked, hss, hruns, hstates⟩
  · exact (herror _ _).2 ⟨[], ⟨.null, "b", 2⟩, [], 0, rfl, rfl, by decide, rfl⟩

end Lexer

end Criteria

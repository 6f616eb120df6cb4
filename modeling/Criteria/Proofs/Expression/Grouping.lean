import Criteria.Proofs.Expression.Phrase
import Mathlib.Tactic.SplitIfs

/-!
# Grouping by precedence

Every list of tokens that can be derived at all has exactly one derivation that is grouped by
precedence. It is found by reading the tokens one by one:

* a `Frame` is a part of an expression that is still open to the right, and a `Position` is a stack
  of frames with what is being waited for;
* `Position.step` reads one token. Before an operator in between it closes all frames whose
  operators bind at least as tightly (`settle`);
* `Position.Reads` lists what reading a token can do (`reads_of_step`, `Reads.step_eq`); what one
  step preserves is shown from it case by case;
* `read?` reads a whole list of tokens.

`read?_eq_some_iff` says that reading succeeds with a phrase exactly if that phrase is well formed,
grouped and made of the tokens; `Phrase.exists_grouped` regroups any derivation.
-/

namespace Criteria

/-- A part of an expression that is still open to the right. -/
inductive Frame where
  | before (t : Token TokenKind) (op : Operator)
  | between (left : Phrase) (t : Token TokenKind) (op : Operator)
  | bracket (opening : Token TokenKind)
  /-- A method whose arguments are being read, with those before the last separator. -/
  | call (name : Token TokenKind) (op : Operator) (opening : Token TokenKind)
      (done : Option (Arguments × Token TokenKind))

/-- Arguments with one more behind those before the last separator. -/
def Arguments.add : Option (Arguments × Token TokenKind) → Phrase → Arguments
  | none, e => .one e
  | some (as, s), e => .more as s e

namespace Frame

/-- The operator of a frame that needs no bracket to be closed. -/
def operator? : Frame → Option Operator
  | before _ op | between _ _ op => some op
  | _ => none

/-- What a frame with an operator becomes when its last operand is put in. -/
def fill : Frame → Phrase → Phrase
  | before t op, e => .before t op e
  | between l t op, e => .between l t op e
  | _, e => e

/-- The tokens of a frame. -/
def tokens : Frame → List (Token TokenKind)
  | before t _ => [t]
  | between l t _ => l.tokens ++ [t]
  | bracket o => [o]
  | call m _ o none => [m, o]
  | call m _ o (some (as, s)) => m :: o :: (as.tokens ++ [s])

/-- The tokens of a stack of frames, the innermost frame on top. -/
def stackTokens : List Frame → List (Token TokenKind)
  | [] => []
  | f :: stack => stackTokens stack ++ f.tokens

/-- Closes the frames on top whose operators have at least the precedence `p`. -/
def settle (p : Nat) : List Frame → Phrase → List Frame × Phrase
  | before t op :: stack, e =>
    if op.precedence < p then (before t op :: stack, e) else settle p stack (.before t op e)
  | between l t op :: stack, e =>
    if op.precedence < p then (between l t op :: stack, e) else settle p stack (.between l t op e)
  | stack, e => (stack, e)

/-- Whether an operator binds tighter than that of the frame on top, if it has one. -/
def Admits (stack : List Frame) (op : Operator) : Prop :=
  ∀ f ∈ stack.head?.bind operator?, f.precedence < op.precedence

/-- Whether a stack of frames can be completed to a phrase that is well formed and grouped. -/
def Valid (d : Dialect) : List Frame → Prop
  | [] => True
  | before t op :: stack => t.Spells d .unaryOperator op ∧ Valid d stack
  | between l t op :: stack => l.WellFormed d ∧ l.Grouped ∧ t.Spells d .binaryOperator op ∧
      (∀ f ∈ l.between?, op.precedence ≤ f.precedence) ∧ Admits stack op ∧ Valid d stack
  | bracket o :: stack => o.kind = .bracketOpen ∧ Valid d stack
  | call m op o done :: stack => m.Spells d .method op ∧ o.kind = .bracketOpen ∧
      (∀ as s, done = some (as, s) → as.WellFormed d ∧ as.Grouped ∧ s.kind = .separator) ∧
      Valid d stack

/-- The stack from the innermost open bracket or method on. -/
def base (stack : List Frame) : List Frame := stack.dropWhile fun f => f.operator?.isSome

end Frame

/-- A place between two tokens of an expression. -/
inductive Position where
  /-- An operand comes next. -/
  | expecting (stack : List Frame)
  /-- The opening bracket of a method comes next. -/
  | called (stack : List Frame) (name : Token TokenKind) (op : Operator)
  /-- An operand, a call or a bracket has just been completed. -/
  | having (stack : List Frame) (e : Phrase)

namespace Position

open Criteria.Frame

/-- Reads one token. -/
def step (d : Dialect) : Position → Token TokenKind → Option Position
  | expecting stack, t =>
    match t.kind with
    | .operand | .null => (Postfix.resolve t).toOption.map fun v => having stack (.value t v)
    | .unaryOperator =>
      (d.operator? t.text t.kind).map fun op => expecting (.before t op :: stack)
    | .method => (d.operator? t.text t.kind).map fun op => called stack t op
    | .bracketOpen => some (expecting (.bracket t :: stack))
    | _ => none
  | called stack m op, t =>
    if t.kind = .bracketOpen then some (expecting (.call m op t none :: stack)) else none
  | having stack e, t =>
    match t.kind with
    | .binaryOperator =>
      (d.operator? t.text t.kind).map fun op =>
        let (stack, e) := settle op.precedence stack e
        expecting (.between e t op :: stack)
    | .separator =>
      match settle 0 stack e with
      | (.call m op o done :: stack, e) =>
        some (expecting (.call m op o (some (Arguments.add done e, t)) :: stack))
      | _ => none
    | .bracketClose =>
      match settle 0 stack e with
      | (.bracket o :: stack, e) => some (having stack (.bracketed o e t))
      | (.call m op o done :: stack, e) =>
        if (Arguments.add done e).count = op.arity then
          some (having stack (.call m op o (Arguments.add done e) t))
        else none
      | _ => none
    | _ => none

/-- What reading a token can do at a place. -/
inductive Reads (d : Dialect) : Position → Token TokenKind → Position → Prop where
  | value {stack : List Frame} {t : Token TokenKind} {v : Term}
      (kind : t.kind = .operand ∨ t.kind = .null) (resolved : Postfix.resolve t = .ok v) :
      Reads d (expecting stack) t (having stack (.value t v))
  | before {stack : List Frame} {t : Token TokenKind} {op : Operator}
      (spells : t.Spells d .unaryOperator op) :
      Reads d (expecting stack) t (expecting (.before t op :: stack))
  | method {stack : List Frame} {t : Token TokenKind} {op : Operator}
      (spells : t.Spells d .method op) : Reads d (expecting stack) t (called stack t op)
  | bracket {stack : List Frame} {t : Token TokenKind} (kind : t.kind = .bracketOpen) :
      Reads d (expecting stack) t (expecting (.bracket t :: stack))
  | arguments {stack : List Frame} {m t : Token TokenKind} {op : Operator}
      (kind : t.kind = .bracketOpen) :
      Reads d (called stack m op) t (expecting (.call m op t none :: stack))
  | between {stack rest : List Frame} {e l : Phrase} {t : Token TokenKind} {op : Operator}
      (spells : t.Spells d .binaryOperator op) (settled : settle op.precedence stack e = (rest, l)) :
      Reads d (having stack e) t (expecting (.between l t op :: rest))
  | separator {stack rest : List Frame} {e a : Phrase} {t m o : Token TokenKind} {op : Operator}
      {done : Option (Arguments × Token TokenKind)} (kind : t.kind = .separator)
      (settled : settle 0 stack e = (.call m op o done :: rest, a)) :
      Reads d (having stack e) t
        (expecting (.call m op o (some (Arguments.add done a, t)) :: rest))
  | closed {stack rest : List Frame} {e a : Phrase} {t o : Token TokenKind}
      (kind : t.kind = .bracketClose) (settled : settle 0 stack e = (.bracket o :: rest, a)) :
      Reads d (having stack e) t (having rest (.bracketed o a t))
  | returned {stack rest : List Frame} {e a : Phrase} {t m o : Token TokenKind} {op : Operator}
      {done : Option (Arguments × Token TokenKind)} (kind : t.kind = .bracketClose)
      (settled : settle 0 stack e = (.call m op o done :: rest, a))
      (count : (Arguments.add done a).count = op.arity) :
      Reads d (having stack e) t (having rest (.call m op o (Arguments.add done a) t))

/-- The phrase that has been read at the end of the tokens. -/
def finish? : Position → Option Phrase
  | having stack e =>
    match settle 0 stack e with
    | ([], e) => some e
    | _ => none
  | _ => none

/-- Reads several tokens. -/
def run (d : Dialect) (p : Position) (ts : List (Token TokenKind)) : Option Position :=
  ts.foldlM (step d) p

/-- The tokens in front of a place. -/
def tokens : Position → List (Token TokenKind)
  | expecting stack => stackTokens stack
  | called stack m _ => stackTokens stack ++ [m]
  | having stack e => stackTokens stack ++ e.tokens

/-- Whether what has been read is well formed and grouped as far as it goes. -/
def Valid (d : Dialect) : Position → Prop
  | expecting stack => Frame.Valid d stack
  | called stack m op => Frame.Valid d stack ∧ m.Spells d .method op
  | having stack e => Frame.Valid d stack ∧ e.WellFormed d ∧ e.Grouped ∧ e.between? = none

@[simp] theorem run_nil (d : Dialect) (p : Position) : run d p [] = some p := rfl

@[simp] theorem run_cons (d : Dialect) (p : Position) (t : Token TokenKind)
    (ts : List (Token TokenKind)) : run d p (t :: ts) = (step d p t).bind fun p => run d p ts := rfl

theorem run_append (d : Dialect) (p : Position) (ts us : List (Token TokenKind)) :
    run d p (ts ++ us) = (run d p ts).bind fun p => run d p us := by
  simp [run, List.foldlM_append]

theorem reads_of_step {d : Dialect} {p q : Position} {t : Token TokenKind}
    (h : step d p t = some q) : Reads d p t q := by
  cases p with
  | expecting stack =>
    simp only [step] at h
    split at h
    · next hk =>
      obtain ⟨v, hv, rfl⟩ := Option.map_eq_some_iff.1 h
      exact .value (.inl hk) (Postfix.resolve_of_toOption hv)
    · next hk =>
      obtain ⟨v, hv, rfl⟩ := Option.map_eq_some_iff.1 h
      exact .value (.inr hk) (Postfix.resolve_of_toOption hv)
    · next hk =>
      obtain ⟨op, hop, rfl⟩ := Option.map_eq_some_iff.1 h
      exact .before ⟨hk, hop⟩
    · next hk =>
      obtain ⟨op, hop, rfl⟩ := Option.map_eq_some_iff.1 h
      exact .method ⟨hk, hop⟩
    · next hk => cases h; exact .bracket hk
    · cases h
  | called stack m op =>
    simp only [step] at h
    split_ifs at h with hk
    cases h
    exact .arguments hk
  | having stack e =>
    simp only [step] at h
    split at h
    · next hk =>
      obtain ⟨op, hop, rfl⟩ := Option.map_eq_some_iff.1 h
      exact .between ⟨hk, hop⟩ rfl
    · next hk =>
      split at h
      · next hs => cases h; exact .separator hk hs
      · cases h
    · next hk =>
      split at h
      · next hs => cases h; exact .closed hk hs
      · next hs =>
        split_ifs at h with hc
        cases h
        exact .returned hk hs hc
      · cases h
    · cases h

theorem Reads.step_eq {d : Dialect} {p q : Position} {t : Token TokenKind} (h : Reads d p t q) :
    step d p t = some q := by
  cases h with
  | value hk hv => rcases hk with hk | hk <;> simp [step, hk, hv, Except.toOption]
  | before ht | method ht => simp [step, ht.1, ht.operator?_eq]
  | bracket hk | arguments hk => simp [step, hk]
  | between ht hs => simp [step, ht.1, ht.operator?_eq, hs]
  | separator hk hs | closed hk hs => simp [step, hk, hs]
  | returned hk hs hc => simp [step, hk, hs, hc]

theorem Reads.run_cons {d : Dialect} {p q : Position} {t : Token TokenKind} (h : Reads d p t q)
    (ts : List (Token TokenKind)) : run d p (t :: ts) = run d q ts := by
  rw [Position.run_cons, h.step_eq, Option.bind_some]

theorem finish?_eq_some_iff {p : Position} {e : Phrase} :
    p.finish? = some e ↔ ∃ stack e₀, p = having stack e₀ ∧ settle 0 stack e₀ = ([], e) := by
  constructor
  · intro h
    cases p with
    | expecting stack => cases h
    | called stack m op => cases h
    | having stack e₀ =>
      simp only [finish?] at h
      split at h
      · next hs => cases h; exact ⟨stack, e₀, rfl, hs⟩
      · cases h
  · rintro ⟨stack, e₀, rfl, hs⟩
    simp [finish?, hs]

end Position

/-- The grouped phrase that tokens make up, if they make up one. -/
def read? (d : Dialect) (ts : List (Token TokenKind)) : Option Phrase :=
  (Position.run d (.expecting []) ts).bind Position.finish?

/-! ### Closing frames -/

namespace Frame

variable {d : Dialect} {p : Nat}

theorem settle_cons {f : Frame} {op : Operator} (hf : f.operator? = some op) (stack : List Frame)
    (e : Phrase) : settle p (f :: stack) e =
      if op.precedence < p then (f :: stack, e) else settle p stack (f.fill e) := by
  cases f <;> cases hf <;> rfl

theorem settle_cons_of_none {f : Frame} (hf : f.operator? = none) (stack : List Frame) (e : Phrase) :
    settle p (f :: stack) e = (f :: stack, e) := by
  cases f <;> cases hf <;> rfl

theorem tokens_fill {f : Frame} {op : Operator} (hf : f.operator? = some op) (e : Phrase) :
    (f.fill e).tokens = f.tokens ++ e.tokens := by
  cases f <;> cases hf <;> simp [fill, tokens, Phrase.tokens]

theorem base_cons {f : Frame} {op : Operator} (hf : f.operator? = some op) (stack : List Frame) :
    base (f :: stack) = base stack := by
  simp [base, hf]

theorem operator?_head_settle (stack : List Frame) (e : Phrase) :
    ∀ f ∈ (settle p stack e).1.head?.bind operator?, f.precedence < p := by
  induction stack generalizing e with
  | nil => simp [settle]
  | cons f stack ih =>
    cases hf : f.operator? with
    | none => simp [settle_cons_of_none hf, hf]
    | some op =>
      rw [settle_cons hf]
      split_ifs with h
      · simpa [hf] using h
      · exact ih _

theorem stackTokens_settle (stack : List Frame) (e : Phrase) :
    stackTokens (settle p stack e).1 ++ (settle p stack e).2.tokens =
      stackTokens stack ++ e.tokens := by
  induction stack generalizing e with
  | nil => rfl
  | cons f stack ih =>
    cases hf : f.operator? with
    | none => rw [settle_cons_of_none hf]
    | some op =>
      rw [settle_cons hf]
      split_ifs
      · rfl
      · rw [ih, tokens_fill hf, stackTokens, List.append_assoc]

theorem stackTokens_of_settle {stack rest : List Frame} {e a : Phrase}
    (h : settle p stack e = (rest, a)) :
    stackTokens rest ++ a.tokens = stackTokens stack ++ e.tokens := by
  rw [← stackTokens_settle (p := p) stack, h]

/-- An operator binds tighter than what is left below it. -/
theorem admits_of_settle {op : Operator} {stack rest : List Frame} {e a : Phrase}
    (h : settle op.precedence stack e = (rest, a)) : Admits rest op := by
  have := operator?_head_settle (p := op.precedence) stack e
  rwa [h] at this

theorem base_settle (stack : List Frame) (e : Phrase) : base (settle p stack e).1 = base stack := by
  induction stack generalizing e with
  | nil => rfl
  | cons f stack ih =>
    cases hf : f.operator? with
    | none => rw [settle_cons_of_none hf]
    | some op =>
      rw [settle_cons hf]
      split_ifs
      · rfl
      · rw [ih, base_cons hf]

/-- Closing all frames that can be closed leaves the innermost open bracket on top. -/
theorem settle_zero (stack : List Frame) (e : Phrase) : (settle 0 stack e).1 = base stack := by
  rw [← base_settle (p := 0) stack e]
  have h := operator?_head_settle (p := 0) stack e
  cases hs : (settle 0 stack e).1 with
  | nil => rfl
  | cons f rest =>
    cases hf : f.operator? with
    | none => simp [base, hf]
    | some op => simp [hs, hf] at h

/-- What is then left is empty or ends with a bracket or a method. -/
theorem settle_zero_cases (stack : List Frame) (e : Phrase) :
    (∃ e', settle 0 stack e = ([], e')) ∨
      (∃ o rest e', settle 0 stack e = (bracket o :: rest, e')) ∨
      ∃ m op o done rest e', settle 0 stack e = (call m op o done :: rest, e') := by
  have h := operator?_head_settle (p := 0) stack e
  obtain ⟨rest, e', hs⟩ : ∃ rest e', settle 0 stack e = (rest, e') := ⟨_, _, rfl⟩
  rw [hs] at h ⊢
  rcases rest with _ | ⟨f, rest⟩
  · exact .inl ⟨e', rfl⟩
  · cases f with
    | before t op => simp [operator?] at h
    | between l t op => simp [operator?] at h
    | bracket o => exact .inr (.inl ⟨o, rest, e', rfl⟩)
    | call m op o done => exact .inr (.inr ⟨m, op, o, done, rest, e', rfl⟩)

theorem Valid.tail {f : Frame} {stack : List Frame} (h : Valid d (f :: stack)) : Valid d stack := by
  cases f with
  | before t op => exact h.2
  | between l t op => exact h.2.2.2.2.2
  | bracket o => exact h.2
  | call m op o done => exact h.2.2.2

theorem Valid.arity (hd : d.ArityMatched) {f : Frame} {stack : List Frame} (h : Valid d (f :: stack))
    {op : Operator} (hf : f.operator? = some op) : op.arity = 1 ∨ op.arity = 2 := by
  cases f <;> cases hf
  · exact .inl (hd.unary h.1)
  · exact .inr (hd.binary h.2.2.1)

/-- A phrase on top of a stack of frames, of which some have been closed: what is between its parts
has at least the precedence `p` and binds tighter than the frame below. -/
structure Ready (d : Dialect) (p : Nat) (stack : List Frame) (e : Phrase) : Prop where
  valid : Valid d stack
  wellFormed : e.WellFormed d
  grouped : e.Grouped
  admits : ∀ f ∈ e.between?, Admits stack f
  le_precedence : ∀ f ∈ e.between?, p ≤ f.precedence

theorem Ready.settle (hd : d.ArityMatched) {stack : List Frame} {e : Phrase}
    (h : Ready d p stack e) : Ready d p (settle p stack e).1 (settle p stack e).2 := by
  induction stack generalizing e with
  | nil => exact h
  | cons f stack ih =>
    obtain ⟨hv, he, hg, ha, hp⟩ := h
    cases f with
    | before t op =>
      rw [Frame.settle]
      split_ifs with hlt
      · exact ⟨hv, he, hg, ha, hp⟩
      · -- the operand has no operator in between, for that would bind tighter than one in front
        have hn : e.between? = none := by
          rw [Option.eq_none_iff_forall_not_mem]
          intro f hf
          have hfop : op.precedence < f.precedence := ha f hf op (by simp [operator?])
          have h2 : f.arity = 2 := by
            cases e <;> simp only [Phrase.between?, Option.mem_def, Option.some.injEq,
              reduceCtorEq] at hf
            subst hf
            exact hd.binary he.2.1
          have := Operator.precedence_lt_of_arity h2 (hd.unary hv.1)
          omega
        exact ih ⟨hv.2, ⟨hv.1, he⟩, ⟨hg, hn⟩, by simp [Phrase.between?], by simp [Phrase.between?]⟩
    | between l t op =>
      rw [Frame.settle]
      split_ifs with hlt
      · exact ⟨hv, he, hg, ha, hp⟩
      · obtain ⟨hl, hlg, ht, hlp, hop, hs⟩ := hv
        have hr : ∀ f ∈ e.between?, op.precedence < f.precedence := fun f hf =>
          ha f hf op (by simp [operator?])
        refine ih ⟨hs, ⟨hl, ht, he⟩, ⟨hlg, hlp, hg, hr⟩, ?_, ?_⟩
        · simpa [Phrase.between?] using hop
        · simpa [Phrase.between?] using hlt
    | bracket o => exact ⟨hv, he, hg, ha, hp⟩
    | call m op o done => exact ⟨hv, he, hg, ha, hp⟩

theorem Ready.of_settle (hd : d.ArityMatched) {stack rest : List Frame} {e a : Phrase}
    (h : Ready d p stack e) (hs : Frame.settle p stack e = (rest, a)) : Ready d p rest a := by
  have := h.settle hd
  rwa [hs] at this

end Frame

/-! ### Reading keeps a grouped derivation -/

theorem Arguments.tokens_add (done : Option (Arguments × Token TokenKind)) (m o : Token TokenKind)
    (op : Operator) (e : Phrase) :
    (Frame.call m op o done).tokens ++ e.tokens = m :: o :: (Arguments.add done e).tokens := by
  rcases done with _ | ⟨as, s⟩ <;> simp [Frame.tokens, Arguments.add, Arguments.tokens]

namespace Position

open Criteria.Frame

variable {d : Dialect}

/-- Reading a token adds it to the tokens read. -/
theorem Reads.tokens_eq {p q : Position} {t : Token TokenKind} (h : Reads d p t q) :
    q.tokens = p.tokens ++ [t] := by
  cases h with
  | value | before | method | bracket => rfl
  | arguments => simp [tokens, stackTokens, Frame.tokens]
  | between ht hs => simp [tokens, ← stackTokens_of_settle hs, stackTokens, Frame.tokens]
  | separator hk hs =>
    rw [tokens, tokens, ← stackTokens_of_settle hs, stackTokens, stackTokens,
      List.append_assoc (stackTokens _), Arguments.tokens_add]
    simp [Frame.tokens]
  | closed hk hs =>
    simp [tokens, ← stackTokens_of_settle hs, stackTokens, Frame.tokens, Phrase.tokens]
  | returned hk hs hc =>
    rw [tokens, tokens, ← stackTokens_of_settle hs, Phrase.tokens, stackTokens,
      List.append_assoc (stackTokens _), Arguments.tokens_add]
    simp

theorem WellFormed_add {done : Option (Arguments × Token TokenKind)} {e : Phrase}
    (hdone : ∀ as s, done = some (as, s) → as.WellFormed d ∧ as.Grouped ∧ s.kind = .separator)
    (he : e.WellFormed d) (hg : e.Grouped) :
    (Arguments.add done e).WellFormed d ∧ (Arguments.add done e).Grouped := by
  rcases done with _ | ⟨as, s⟩
  · exact ⟨he, hg⟩
  · obtain ⟨h1, h2, h3⟩ := hdone as s rfl
    exact ⟨⟨h1, h3, he⟩, h2, hg⟩

/-- An operand or a call that has just been completed is ready to be put below any operator. -/
theorem Valid.ready {stack : List Frame} {e : Phrase} (h : (having stack e).Valid d) (p : Nat) :
    Ready d p stack e :=
  ⟨h.1, h.2.1, h.2.2.1, by simp [h.2.2.2], by simp [h.2.2.2]⟩

/-- Reading a token keeps what has been read well formed and grouped. -/
theorem Valid.reads (hd : d.ArityMatched) {p q : Position} {t : Token TokenKind} (hp : p.Valid d)
    (h : Reads d p t q) : q.Valid d := by
  cases h with
  | value hk hv => exact ⟨hp, ⟨hk, hv⟩, trivial, rfl⟩
  | before ht => exact ⟨ht, hp⟩
  | method ht => exact ⟨hp, ht⟩
  | bracket hk => exact ⟨hk, hp⟩
  | arguments hk => exact ⟨hp.2, hk, by simp, hp.1⟩
  | between ht hs =>
    obtain ⟨h1, h2, h3, -, h5⟩ := (hp.ready _).of_settle hd hs
    exact ⟨h2, h3, ht, h5, admits_of_settle hs, h1⟩
  | separator hk hs =>
    obtain ⟨⟨h1, h2, h3, h4⟩, h5, h6, -⟩ := (hp.ready 0).of_settle hd hs
    have hadd := WellFormed_add h3 h5 h6
    refine ⟨h1, h2, ?_, h4⟩
    rintro _ _ ⟨⟩
    exact ⟨hadd.1, hadd.2, hk⟩
  | closed hk hs =>
    have hr := (hp.ready 0).of_settle hd hs
    exact ⟨hr.valid.2, ⟨hr.valid.1, hr.wellFormed, hk⟩, hr.grouped, rfl⟩
  | returned hk hs hc =>
    obtain ⟨⟨h1, h2, h3, h4⟩, h5, h6, -⟩ := (hp.ready 0).of_settle hd hs
    have hadd := WellFormed_add h3 h5 h6
    exact ⟨h4, ⟨h1, h2, hadd.1, hc, hk⟩, hadd.2, rfl⟩

theorem Valid.run (hd : d.ArityMatched) {ts : List (Token TokenKind)} {p q : Position}
    (hp : p.Valid d) (h : p.run d ts = some q) : q.Valid d ∧ q.tokens = p.tokens ++ ts := by
  induction ts generalizing p with
  | nil => cases h; exact ⟨hp, by simp⟩
  | cons t ts ih =>
    obtain ⟨r, hr, h⟩ := Option.bind_eq_some_iff.1 h
    have hr := reads_of_step hr
    obtain ⟨h1, h2⟩ := ih (hp.reads hd hr) h
    exact ⟨h1, by rw [h2, hr.tokens_eq]; simp⟩

theorem finish?_spec (hd : d.ArityMatched) {p : Position} {e : Phrase} (hp : p.Valid d)
    (h : p.finish? = some e) : e.WellFormed d ∧ e.Grouped ∧ e.tokens = p.tokens := by
  obtain ⟨stack, e₀, rfl, hs⟩ := finish?_eq_some_iff.1 h
  have hr := (hp.ready 0).of_settle hd hs
  exact ⟨hr.wellFormed, hr.grouped, stackTokens_of_settle hs⟩

end Position

/-! ### A grouped derivation is read -/

/-- The frames that are open to the right in a phrase, on top of a stack, and what is completed on
top of them. -/
def Phrase.spine : Phrase → List Frame → List Frame × Phrase
  | .before t op e, stack => e.spine (.before t op :: stack)
  | .between l t op r, stack => r.spine (.between l t op :: stack)
  | e, stack => (stack, e)

/-- Closing the frames of a phrase again gives the phrase. -/
theorem Frame.settle_spine {d : Dialect} (hd : d.ArityMatched) {p : Nat}
    (hp : ∀ f : Operator, f.arity = 1 → p ≤ f.precedence) :
    ∀ (e : Phrase) (stack : List Frame), e.WellFormed d → e.Grouped →
      (∀ f ∈ e.between?, p ≤ f.precedence) →
      settle p (e.spine stack).1 (e.spine stack).2 = settle p stack e
  | .value _ _, _, _, _, _ => rfl
  | .call _ _ _ _ _, _, _, _, _ => rfl
  | .bracketed _ _ _, _, _, _, _ => rfl
  | .before t op e, stack, hw, hg, _ => by
    rw [Phrase.spine, settle_spine hd hp e _ hw.2 hg.1 (by simp [hg.2]), settle, if_neg]
    exact Nat.not_lt.2 (hp op (hd.unary hw.1))
  | .between l t op r, stack, hw, hg, hb => by
    have hop : p ≤ op.precedence := hb op rfl
    have hr : ∀ f ∈ r.between?, p ≤ f.precedence := fun f hf =>
      Nat.le_of_lt (Nat.lt_of_le_of_lt hop (hg.2.2.2 f hf))
    rw [Phrase.spine, settle_spine hd hp r _ hw.2.2 hg.2.2.1 hr, settle, if_neg (by omega)]

theorem Frame.settle_of_admits {p : Nat} {stack : List Frame}
    (h : ∀ f ∈ stack.head?.bind operator?, f.precedence < p) (e : Phrase) :
    settle p stack e = (stack, e) := by
  rcases stack with _ | ⟨f, stack⟩
  · rfl
  · cases hf : f.operator? with
    | none => rw [settle_cons_of_none hf]
    | some op => rw [settle_cons hf, if_pos (h op (by simp [hf]))]

section

variable {d : Dialect} (hd : d.ArityMatched)

open Criteria.Frame Position

include hd

mutual

/-- Reading the tokens of a grouped phrase opens its frames. -/
theorem Phrase.run_tokens : ∀ (e : Phrase) (stack : List Frame), e.WellFormed d → e.Grouped →
    (∀ f ∈ e.between?, Admits stack f) →
    run d (.expecting stack) e.tokens = some (.having (e.spine stack).1 (e.spine stack).2)
  | .value t v, stack, hw, _, _ => (Reads.value hw.1 hw.2).run_cons []
  | .before t op e, stack, hw, hg, _ => by
    have ih := Phrase.run_tokens e (.before t op :: stack) hw.2 hg.1 (by simp [hg.2])
    rw [Phrase.tokens, (Reads.before hw.1).run_cons, ih, Phrase.spine]
  | .between l t op r, stack, ⟨hl, ht, hr⟩, ⟨hlg, hlp, hrg, hrp⟩, ha => by
    have hadm : Admits stack op := ha op rfl
    have ihl := Phrase.run_tokens l stack hl hlg fun f hf g hg =>
      Nat.lt_of_lt_of_le (hadm g hg) (hlp f hf)
    have ihr := Phrase.run_tokens r (.between l t op :: stack) hr hrg fun f hf => by
      simpa [Admits, operator?] using hrp f hf
    have hone (f : Operator) (hf : f.arity = 1) : op.precedence ≤ f.precedence :=
      Nat.le_of_lt (Operator.precedence_lt_of_arity (hd.binary ht) hf)
    have hs : settle op.precedence (l.spine stack).1 (l.spine stack).2 = (stack, l) := by
      rw [settle_spine hd hone l stack hl hlg hlp, settle_of_admits hadm]
    rw [Phrase.tokens, run_append, ihl, Option.bind_some, (Reads.between ht hs).run_cons, ihr,
      Phrase.spine]
  | .call m op o as c, stack, ⟨hm, ho, has, hc, hcl⟩, hg, _ => by
    obtain ⟨done, e, rfl, hrun, hs⟩ := Arguments.run_tokens as m op o stack has hg
    rw [Phrase.tokens, (Reads.method hm).run_cons, (Reads.arguments ho).run_cons, run_append, hrun,
      Option.bind_some, (Reads.returned hcl hs hc).run_cons]
    rfl
  | .bracketed o e c, stack, ⟨ho, he, hc⟩, hg, _ => by
    have ih := Phrase.run_tokens e (.bracket o :: stack) he hg (by simp [Admits, operator?])
    have hs : settle 0 (e.spine (.bracket o :: stack)).1 (e.spine (.bracket o :: stack)).2 =
        (.bracket o :: stack, e) := by
      rw [settle_spine hd (by simp) e _ he hg (by simp)]
      rfl
    rw [Phrase.tokens, (Reads.bracket ho).run_cons, run_append, ih, Option.bind_some,
      (Reads.closed hc hs).run_cons]
    rfl

/-- Reading the tokens of grouped arguments opens the frames of the last one. -/
theorem Arguments.run_tokens : ∀ (as : Arguments) (m : Token TokenKind) (op : Operator)
    (o : Token TokenKind) (stack : List Frame), as.WellFormed d → as.Grouped →
    ∃ done e, Arguments.add done e = as ∧
      run d (.expecting (.call m op o none :: stack)) as.tokens =
        some (.having (e.spine (.call m op o done :: stack)).1
          (e.spine (.call m op o done :: stack)).2) ∧
      settle 0 (e.spine (.call m op o done :: stack)).1 (e.spine (.call m op o done :: stack)).2 =
        (.call m op o done :: stack, e)
  | .one e, m, op, o, stack, hw, hg => by
    refine ⟨none, e, rfl, ?_, ?_⟩
    · exact Phrase.run_tokens e _ hw hg (by simp [Admits, operator?])
    · rw [settle_spine hd (by simp) e _ hw hg (by simp)]
      rfl
  | .more as s e, m, op, o, stack, ⟨has, hs, he⟩, ⟨hasg, heg⟩ => by
    obtain ⟨done, e', hadd, hrun, hset⟩ := Arguments.run_tokens as m op o stack has hasg
    refine ⟨some (as, s), e, rfl, ?_, ?_⟩
    · have ih := Phrase.run_tokens e (.call m op o (some (as, s)) :: stack) he heg
        (by simp [Admits, operator?])
      rw [Arguments.tokens, run_append, hrun, Option.bind_some, (Reads.separator hs hset).run_cons,
        hadd, ih]
    · rw [settle_spine hd (by simp) e _ he heg (by simp)]
      rfl

end

/-- **Reading succeeds exactly with the grouped phrase that the tokens make up.** -/
theorem read?_eq_some_iff {ts : List (Token TokenKind)} {e : Phrase} :
    read? d ts = some e ↔ e.WellFormed d ∧ e.Grouped ∧ e.tokens = ts := by
  constructor
  · intro h
    obtain ⟨p, hp, hf⟩ := Option.bind_eq_some_iff.1 h
    obtain ⟨hv, ht⟩ := Valid.run hd (p := .expecting []) trivial hp
    obtain ⟨hw, hg, he⟩ := finish?_spec hd hv hf
    exact ⟨hw, hg, by rw [he, ht]; rfl⟩
  · rintro ⟨hw, hg, rfl⟩
    have hs : settle 0 (e.spine []).1 (e.spine []).2 = ([], e) := by
      rw [settle_spine hd (by simp) e _ hw hg (by simp)]
      rfl
    rw [read?, Phrase.run_tokens hd e [] hw hg (by simp [Admits]), Option.bind_some]
    exact finish?_eq_some_iff.2 ⟨_, _, rfl, hs⟩

end

/-! ### Any derivation can be regrouped -/

section

variable {d : Dialect}

open Criteria.Frame Position

theorem Frame.settle_zero_eq {stack rest : List Frame} {f : Frame} (e : Phrase)
    (h : base stack = f :: rest) : ∃ e', settle 0 stack e = (f :: rest, e') :=
  ⟨(settle 0 stack e).2, by rw [← h, ← settle_zero stack e]⟩

mutual

/-- The tokens of any phrase can be read, and what is read then lies above the innermost bracket
that was open before. -/
theorem Phrase.exists_run_tokens : ∀ (e : Phrase) (stack : List Frame), e.WellFormed d →
    ∃ stack' a, run d (.expecting stack) e.tokens = some (.having stack' a) ∧
      base stack' = base stack
  | .value t v, stack, hw => ⟨stack, .value t v, (Reads.value hw.1 hw.2).run_cons [], rfl⟩
  | .before t op e, stack, hw => by
    obtain ⟨stack', a, hrun, hb⟩ := Phrase.exists_run_tokens e (.before t op :: stack) hw.2
    refine ⟨stack', a, ?_, hb.trans (base_cons rfl stack)⟩
    rw [Phrase.tokens, (Reads.before hw.1).run_cons, hrun]
  | .between l t op r, stack, ⟨hl, ht, hr⟩ => by
    obtain ⟨s₁, a₁, hrun₁, hb₁⟩ := Phrase.exists_run_tokens l stack hl
    obtain ⟨s₂, a₂, hrun₂, hb₂⟩ := Phrase.exists_run_tokens r
      (.between (settle op.precedence s₁ a₁).2 t op :: (settle op.precedence s₁ a₁).1) hr
    refine ⟨s₂, a₂, ?_, by rw [hb₂, base_cons rfl, base_settle, hb₁]⟩
    rw [Phrase.tokens, run_append, hrun₁, Option.bind_some, (Reads.between ht rfl).run_cons, hrun₂]
  | .call m op o as c, stack, ⟨hm, ho, has, hc, hcl⟩ => by
    obtain ⟨done, s, a, hrun, hb, hcount⟩ := Arguments.exists_run_tokens as m op o stack has
    obtain ⟨e, he⟩ := settle_zero_eq a hb
    refine ⟨stack, .call m op o (Arguments.add done e) c, ?_, rfl⟩
    rw [Phrase.tokens, (Reads.method hm).run_cons, (Reads.arguments ho).run_cons, run_append, hrun,
      Option.bind_some, (Reads.returned hcl he (by rw [hcount, hc])).run_cons, run_nil]
  | .bracketed o e c, stack, ⟨ho, he, hc⟩ => by
    obtain ⟨s, a, hrun, hb⟩ := Phrase.exists_run_tokens e (.bracket o :: stack) he
    obtain ⟨e', he'⟩ := settle_zero_eq a hb
    refine ⟨stack, .bracketed o e' c, ?_, rfl⟩
    rw [Phrase.tokens, (Reads.bracket ho).run_cons, run_append, hrun, Option.bind_some,
      (Reads.closed hc he').run_cons, run_nil]

/-- The tokens of any arguments can be read up to the closing bracket, and they are counted. -/
theorem Arguments.exists_run_tokens : ∀ (as : Arguments) (m : Token TokenKind) (op : Operator)
    (o : Token TokenKind) (stack : List Frame), as.WellFormed d →
    ∃ done stack' a, run d (.expecting (.call m op o none :: stack)) as.tokens =
        some (.having stack' a) ∧
      base stack' = .call m op o done :: stack ∧ ∀ e, (Arguments.add done e).count = as.count
  | .one e, m, op, o, stack, hw => by
    obtain ⟨s, a, hrun, hb⟩ := Phrase.exists_run_tokens e (.call m op o none :: stack) hw
    exact ⟨none, s, a, hrun, hb, fun _ => rfl⟩
  | .more as t e, m, op, o, stack, ⟨has, ht, he⟩ => by
    obtain ⟨done, s, a, hrun, hb, hcount⟩ := Arguments.exists_run_tokens as m op o stack has
    obtain ⟨e₁, he₁⟩ := settle_zero_eq a hb
    obtain ⟨s₂, a₂, hrun₂, hb₂⟩ := Phrase.exists_run_tokens e
      (.call m op o (some (Arguments.add done e₁, t)) :: stack) he
    refine ⟨some (Arguments.add done e₁, t), s₂, a₂, ?_, hb₂, fun e => ?_⟩
    · rw [Arguments.tokens, run_append, hrun, Option.bind_some, (Reads.separator ht he₁).run_cons,
        hrun₂]
    · rw [Arguments.add, Arguments.count, hcount, Arguments.count]

end

/-- **Any derivation can be regrouped by precedence.** -/
theorem Phrase.exists_grouped (hd : d.ArityMatched) {p : Phrase} (hp : p.WellFormed d) :
    ∃ e : Phrase, e.WellFormed d ∧ e.Grouped ∧ e.tokens = p.tokens := by
  obtain ⟨stack, a, hrun, hb⟩ := p.exists_run_tokens [] hp
  have hs : (settle 0 stack a).1 = [] := by rw [settle_zero, hb]; rfl
  refine ⟨(settle 0 stack a).2, (read?_eq_some_iff hd).1 ?_⟩
  rw [read?, hrun, Option.bind_some]
  exact finish?_eq_some_iff.2 ⟨stack, a, rfl, Prod.ext hs rfl⟩

/-- Tokens make up at most one grouped phrase. -/
theorem Phrase.eq_of_tokens_eq (hd : d.ArityMatched) {p q : Phrase} (hp : p.WellFormed d)
    (hpg : p.Grouped) (hq : q.WellFormed d) (hqg : q.Grouped) (h : p.tokens = q.tokens) :
    p = q := by
  have h1 := (read?_eq_some_iff hd).2 ⟨hp, hpg, h⟩
  have h2 := (read?_eq_some_iff hd).2 ⟨hq, hqg, rfl⟩
  exact Option.some.inj (h1.symm.trans h2)

end

end Criteria

import Criteria.Proofs.Expression.Grouping
import Criteria.Proofs.Expression.Postorder

/-!
# Tokens in postfix order

`Postfix.reorder` computes the postorder of the grouped phrase without building the phrase. What
waits on its stack is what is left of the frames of a `Position` when the phrases in them have been
written already (`Frame.waiting`, `Frame.output`), and reading a token does the same to both
(`Position.Reads.reorder`). So where `read?` succeeds, reordering gives the postorder of what was
read.
-/

namespace Criteria

namespace Postfix

variable {d : Dialect}

/-! ### Reordering token by token -/

theorem reorderFrom_value {stack : List Waiting} {t : Token TokenKind}
    {ts : List (Token TokenKind)} (h : t.kind = .operand ∨ t.kind = .null) :
    reorderFrom d stack (t :: ts) = ([.value t] ++ ·) <$> reorderFrom d stack ts := by
  rcases h with h | h <;> rw [reorderFrom, h] <;> rfl

theorem reorderFrom_unary {stack : List Waiting} {t : Token TokenKind} {op : Operator}
    {ts : List (Token TokenKind)} (h : t.Spells d .unaryOperator op) :
    reorderFrom d stack (t :: ts) = reorderFrom d (.operator op :: stack) ts := by
  rw [reorderFrom, h.1]
  simp only [lookUp, h.2]
  rfl

theorem reorderFrom_binary {stack : List Waiting} {t : Token TokenKind} {op : Operator}
    {ts : List (Token TokenKind)} (h : t.Spells d .binaryOperator op) :
    reorderFrom d stack (t :: ts) = (items (release op stack).1 ++ ·) <$>
      reorderFrom d (.operator op :: (release op stack).2) ts := by
  rw [reorderFrom, h.1]
  simp only [lookUp, h.2]
  rfl

theorem reorderFrom_open {stack : List Waiting} {t : Token TokenKind}
    {ts : List (Token TokenKind)} (h : t.kind = .bracketOpen) :
    reorderFrom d stack (t :: ts) = reorderFrom d (.bracket t :: stack) ts := by
  rw [reorderFrom, h]

theorem reorderFrom_close {stack : List Waiting} {t : Token TokenKind}
    {ts : List (Token TokenKind)} (h : t.kind = .bracketClose) :
    reorderFrom d stack (t :: ts) =
      close t stack >>= fun r => (items r.1 ++ ·) <$> reorderFrom d r.2 ts := by
  rw [reorderFrom, h]
  rfl

theorem reorderFrom_separator {stack : List Waiting} {t : Token TokenKind}
    {ts : List (Token TokenKind)} (h : t.kind = .separator) :
    reorderFrom d stack (t :: ts) =
      nextArgument t (releaseAll stack) >>= fun r => (items r.1 ++ ·) <$> reorderFrom d r.2 ts := by
  rw [reorderFrom, h]
  rfl

@[simp] theorem items_nil : items [] = [] := rfl

@[simp] theorem items_cons (op : Operator) (ops : List Operator) :
    items (op :: ops) = .operator op :: items ops := rfl

@[simp] theorem items_append (a b : List Operator) : items (a ++ b) = items a ++ items b := by
  simp [items]

/-- A closing bracket first releases all operators above the innermost bracket or method. -/
theorem close_eq (t : Token TokenKind) (stack : List Waiting) :
    close t stack = (fun r => ((releaseAll stack).1 ++ r.1, r.2)) <$>
      close t (releaseAll stack).2 := by
  induction stack with
  | nil => rfl
  | cons w stack ih =>
    cases w with
    | operator op =>
      rw [close, releaseAll, ih, Released.cons]
      cases close t (releaseAll stack).2 <;> rfl
    | bracket b => rfl
    | method op n offset =>
      rw [releaseAll]
      · cases close t (.method op n offset :: stack) <;> rfl
      · simp

/-- So does the end of the tokens. -/
theorem drain_eq (stack : List Waiting) :
    drain stack = ((releaseAll stack).1 ++ ·) <$> drain (releaseAll stack).2 := by
  induction stack with
  | nil => rfl
  | cons w stack ih =>
    cases w with
    | operator op =>
      rw [drain, releaseAll, ih, Released.cons]
      cases drain (releaseAll stack).2 <;> rfl
    | bracket b => rfl
    | method op n offset =>
      rw [releaseAll]
      · cases drain (.method op n offset :: stack) <;> rfl
      · simp

end Postfix

open Postfix

/-! ### Frames as they wait -/

namespace Frame

/-- The number of arguments before the last separator. -/
def doneCount : Option (Arguments × Token TokenKind) → Nat
  | none => 0
  | some (as, _) => as.count

/-- What of a frame waits on the stack of operators. -/
def waiting : Frame → List Waiting
  | before _ op | between _ _ op => [.operator op]
  | bracket o => [.bracket o]
  | call m op o done => [.method op (doneCount done + 1) m.start, .bracket o]

/-- What of a frame has been written. -/
def output : Frame → List Item
  | before _ _ | bracket _ | call _ _ _ none => []
  | between l _ _ => l.postorder
  | call _ _ _ (some (as, _)) => as.postorder

/-- What of a stack of frames waits. -/
def stackWaiting (stack : List Frame) : List Waiting := stack.flatMap waiting

/-- What of a stack of frames has been written. -/
def stackOutput : List Frame → List Item
  | [] => []
  | f :: stack => stackOutput stack ++ f.output

theorem count_add (done : Option (Arguments × Token TokenKind)) (e : Phrase) :
    (Arguments.add done e).count = doneCount done + 1 := by
  rcases done with _ | ⟨as, s⟩ <;> rfl

theorem postorder_add (done : Option (Arguments × Token TokenKind)) (m o : Token TokenKind)
    (op : Operator) (e : Phrase) :
    (Arguments.add done e).postorder = (call m op o done).output ++ e.postorder := by
  rcases done with _ | ⟨as, s⟩ <;> rfl

variable {d : Dialect}

theorem stackWaiting_cons {f : Frame} {op : Operator} (hf : f.operator? = some op)
    (stack : List Frame) : stackWaiting (f :: stack) = .operator op :: stackWaiting stack := by
  cases f <;> cases hf <;> rfl

theorem postorder_fill {f : Frame} {op : Operator} (hf : f.operator? = some op) (e : Phrase) :
    (f.fill e).postorder = f.output ++ e.postorder ++ [.operator op] := by
  cases f <;> cases hf <;> simp [fill, output, Phrase.postorder]

/-- An operator in between releases the operators of the frames that are closed for it. -/
theorem release_stackWaiting (hd : d.ArityMatched) {op : Operator} (hop : op.arity = 2)
    {stack : List Frame} (hv : Valid d stack) (e : Phrase) :
    (release op (stackWaiting stack)).2 = stackWaiting (settle op.precedence stack e).1 ∧
      stackOutput stack ++ e.postorder ++ items (release op (stackWaiting stack)).1 =
        stackOutput (settle op.precedence stack e).1 ++
          (settle op.precedence stack e).2.postorder := by
  induction stack generalizing e with
  | nil => simp [stackWaiting, release, settle]
  | cons f stack ih =>
    cases hf : f.operator? with
    | none => cases f <;> cases hf <;> simp [stackWaiting, waiting, release, settle]
    | some g =>
      have hb := Operator.bindsTighterThan_iff hop (hv.arity hd hf)
      rw [stackWaiting_cons hf, release, settle_cons hf]
      by_cases h : g.precedence < op.precedence
      · simp [hb.2 h, h, stackWaiting_cons hf]
      · obtain ⟨hw, ho⟩ := ih hv.tail (f.fill e)
        rw [if_neg (mt hb.1 h), if_neg h, Released.cons, ← hw, ← ho, postorder_fill hf]
        simp [stackOutput]

/-- What closes all frames up to the innermost bracket releases their operators. -/
theorem releaseAll_stackWaiting (stack : List Frame) (e : Phrase) :
    (releaseAll (stackWaiting stack)).2 = stackWaiting (settle 0 stack e).1 ∧
      stackOutput stack ++ e.postorder ++ items (releaseAll (stackWaiting stack)).1 =
        stackOutput (settle 0 stack e).1 ++ (settle 0 stack e).2.postorder := by
  induction stack generalizing e with
  | nil => simp [stackWaiting, releaseAll, settle]
  | cons f stack ih =>
    cases hf : f.operator? with
    | none => cases f <;> cases hf <;> simp [stackWaiting, waiting, releaseAll, settle]
    | some g =>
      obtain ⟨hw, ho⟩ := ih (f.fill e)
      rw [stackWaiting_cons hf, releaseAll, settle_cons hf, if_neg (Nat.not_lt_zero _),
        Released.cons, ← hw, ← ho, postorder_fill hf]
      simp [stackOutput]

theorem releaseAll_of_settle {stack rest : List Frame} {e a : Phrase}
    (h : settle 0 stack e = (rest, a)) :
    (releaseAll (stackWaiting stack)).2 = stackWaiting rest ∧
      stackOutput stack ++ e.postorder ++ items (releaseAll (stackWaiting stack)).1 =
        stackOutput rest ++ a.postorder := by
  have := releaseAll_stackWaiting stack e
  rwa [h] at this

end Frame

/-! ### Reordering and reading -/

namespace Position

open Criteria.Frame

/-- The rest of the reordering at a place between two tokens. -/
def reorder (d : Dialect) : Position → List (Token TokenKind) → Except SyntaxError (List Item)
  | expecting stack, ts | having stack _, ts => reorderFrom d (stackWaiting stack) ts
  | called stack m op, b :: ts =>
    if b.kind = .bracketOpen then
      reorderFrom d (.method op 1 m.start :: .bracket b :: stackWaiting stack) ts
    else .error (.missingMethodBracket m.text m.start)
  | called _ m _, [] => .error (.missingMethodBracket m.text m.start)

/-- What has been written in front of a place. -/
def output : Position → List Item
  | expecting stack | called stack _ _ => stackOutput stack
  | having stack e => stackOutput stack ++ e.postorder

variable {d : Dialect}

@[simp] theorem reorder_expecting (stack : List Frame) (ts : List (Token TokenKind)) :
    (expecting stack).reorder d ts = reorderFrom d (stackWaiting stack) ts := by
  cases ts <;> rfl

@[simp] theorem reorder_having (stack : List Frame) (e : Phrase) (ts : List (Token TokenKind)) :
    (having stack e).reorder d ts = reorderFrom d (stackWaiting stack) ts := by
  cases ts <;> rfl

theorem reorderFrom_called {stack : List Frame} {t : Token TokenKind} {op : Operator}
    (h : t.Spells d .method op) (ts : List (Token TokenKind)) :
    reorderFrom d (stackWaiting stack) (t :: ts) = (called stack t op).reorder d ts := by
  rw [reorderFrom, h.1]
  simp only [lookUp, h.2]
  rcases ts with _ | ⟨b, ts⟩
  · rfl
  · by_cases hb : b.kind = .bracketOpen
    · simp [reorder, hb]
    · simp only [ok_bind, hb, reorder, if_false]
      rfl

/-- Reordering writes what a token adds to the phrases that have been read. -/
theorem Reads.reorder (hd : d.ArityMatched) {p q : Position} {t : Token TokenKind}
    (hp : p.Valid d) (h : Reads d p t q) :
    ∃ added, (∀ ts, p.reorder d (t :: ts) = (added ++ ·) <$> q.reorder d ts) ∧
      p.output ++ added = q.output := by
  cases h with
  | value hk hv => exact ⟨[.value t], fun ts => reorderFrom_value hk, rfl⟩
  | before ht =>
    refine ⟨[], fun ts => ?_, by simp [output, stackOutput, Frame.output]⟩
    simpa using! reorderFrom_unary ht
  | method ht =>
    refine ⟨[], fun ts => ?_, by simp [output]⟩
    simpa using reorderFrom_called ht ts
  | bracket hk =>
    refine ⟨[], fun ts => ?_, by simp [output, stackOutput, Frame.output]⟩
    simpa using! reorderFrom_open hk
  | arguments hk =>
    refine ⟨[], fun ts => ?_, by simp [output, stackOutput, Frame.output]⟩
    simp [Position.reorder, hk, stackWaiting, waiting, doneCount]
  | @between stack rest e l t op ht hs =>
    obtain ⟨hw, ho⟩ := release_stackWaiting hd (hd.binary ht) hp.1 e
    rw [hs] at hw ho
    refine ⟨items (release op (stackWaiting stack)).1, fun ts => ?_, ho⟩
    rw [reorder_having, reorderFrom_binary ht, hw]
    rfl
  | @separator stack rest e a t m o op done hk hs =>
    obtain ⟨hw, ho⟩ := releaseAll_of_settle hs
    refine ⟨items (releaseAll (stackWaiting stack)).1, fun ts => ?_, ?_⟩
    · rw [reorder_having, reorderFrom_separator hk, nextArgument, hw]
      simp [stackWaiting, waiting, Position.reorder, doneCount, count_add]
    · simpa [output, stackOutput, Frame.output, postorder_add done m o op] using ho
  | @closed stack rest e a t o hk hs =>
    obtain ⟨hw, ho⟩ := releaseAll_of_settle hs
    refine ⟨items (releaseAll (stackWaiting stack)).1, fun ts => ?_, ?_⟩
    · rw [reorder_having, reorderFrom_close hk, close_eq, hw]
      simp [stackWaiting, waiting, Position.reorder, close]
    · simpa [output, stackOutput, Frame.output, Phrase.postorder] using ho
  | @returned stack rest e a t m o op done hk hs hc =>
    obtain ⟨hw, ho⟩ := releaseAll_of_settle hs
    rw [count_add] at hc
    refine ⟨items (releaseAll (stackWaiting stack)).1 ++ [.operator op], fun ts => ?_, ?_⟩
    · rw [reorder_having, reorderFrom_close hk, close_eq, hw]
      simp [stackWaiting, waiting, Position.reorder, close, hc, Released.cons]
    · simpa [output, stackOutput, Frame.output, Phrase.postorder,
        postorder_add done m o op] using congrArg (· ++ [.operator op]) ho

theorem reorder_run (hd : d.ArityMatched) {ts : List (Token TokenKind)} {p q : Position}
    (hp : p.Valid d) (h : p.run d ts = some q) :
    ∃ added, p.reorder d ts = (added ++ ·) <$> q.reorder d [] ∧ p.output ++ added = q.output := by
  induction ts generalizing p with
  | nil =>
    cases h
    exact ⟨[], by simp, by simp⟩
  | cons t ts ih =>
    obtain ⟨r, hr, h⟩ := Option.bind_eq_some_iff.1 h
    have hr := reads_of_step hr
    obtain ⟨a, ha, hao⟩ := hr.reorder hd hp
    obtain ⟨b, hb, hbo⟩ := ih (hp.reads hd hr) h
    refine ⟨a ++ b, ?_, by rw [← List.append_assoc, hao, hbo]⟩
    rw [ha, hb]
    simp

/-- What is left at the end are the operators of the frames that are still open. -/
theorem reorder_of_finish? {p : Position} {e : Phrase} (h : p.finish? = some e) :
    ∃ added, p.reorder d [] = .ok added ∧ p.output ++ added = e.postorder := by
  obtain ⟨stack, e₀, rfl, hs⟩ := finish?_eq_some_iff.1 h
  obtain ⟨hw, ho⟩ := releaseAll_of_settle hs
  refine ⟨items (releaseAll (stackWaiting stack)).1, ?_, by simpa [output, stackOutput] using ho⟩
  rw [reorder_having, reorderFrom, drain_eq, hw]
  simp [stackWaiting, drain]

end Position

/-- **Reordering gives the postorder of what is read.** -/
theorem Postfix.reorder_of_read? {d : Dialect} (hd : d.ArityMatched)
    {ts : List (Token TokenKind)} {e : Phrase} (h : read? d ts = some e) :
    reorder d ts = .ok e.postorder := by
  obtain ⟨q, hq, hf⟩ := Option.bind_eq_some_iff.1 h
  obtain ⟨a, ha, hao⟩ := Position.reorder_run hd (p := .expecting []) trivial hq
  obtain ⟨b, hb, hbo⟩ := Position.reorder_of_finish? (d := d) hf
  rw [Position.reorder_expecting, hb] at ha
  have hab : a ++ b = e.postorder := by
    rw [← hbo, ← hao]
    simp [Position.output, Frame.stackOutput]
  rw [← hab]
  exact ha

end Criteria

import Criteria.Proofs.Expression.Reordering

/-!
# Runs of the reordering

Every token has a place among the tokens. `Run` says what reordering does with the stack and with what
it writes at each token, and from which place each entry and each element comes. It leaves open which of
the operators on top are released by an operator in between; what holds whatever these are is proved by
induction on runs.

* `Seated`: every method waits above its bracket;
* `release_split`, `releaseAll_split`, `close_cases`, `drain_eq_ok`: what leaves the stack are operators
  on top, and a bracket or a method with its bracket behind them;
* `exists_run`: tokens that are put in order have a run.
-/

namespace Criteria

namespace Postfix

variable {d : Dialect}

theorem lookUp_eq_ok_iff {t : Token TokenKind} {op : Operator} :
    lookUp d t = .ok op ↔ d.operator? t.text t.kind = some op := by
  unfold lookUp
  cases d.operator? t.text t.kind <;> simp

/-! ### What leaves the stack -/

/-- Whether every method waits above a bracket. -/
def Seated : List Waiting → Prop
  | [] => True
  | .method _ _ _ :: .bracket _ :: stack => Seated stack
  | .method _ _ _ :: _ => False
  | _ :: stack => Seated stack

theorem Seated.of_append {ops : List Operator} {stack : List Waiting}
    (h : Seated (ops.map .operator ++ stack)) : Seated stack := by
  induction ops with
  | nil => exact h
  | cons op ops ih => exact ih h

theorem release_split (op : Operator) (stack : List Waiting) :
    stack = (release op stack).1.map .operator ++ (release op stack).2 := by
  fun_induction release op stack with
  | case1 | case3 => rfl
  | case2 top stack hb ih => exact congrArg (.operator top :: ·) ih

theorem releaseAll_split (stack : List Waiting) :
    stack = (releaseAll stack).1.map .operator ++ (releaseAll stack).2 := by
  fun_induction releaseAll stack with
  | case1 op stack ih => exact congrArg (.operator op :: ·) ih
  | case2 => rfl

theorem Seated.release (op : Operator) {stack : List Waiting} (hs : Seated stack) :
    Seated (release op stack).2 := by
  rw [release_split op stack] at hs
  exact hs.of_append

theorem Seated.releaseAll {stack : List Waiting} (hs : Seated stack) :
    Seated (releaseAll stack).2 := by
  rw [releaseAll_split stack] at hs
  exact hs.of_append

/-- A closing bracket releases the operators down to its opening bracket, and the method of a call that
has its arguments. -/
theorem close_cases {t : Token TokenKind} {stack : List Waiting} {r : Released} (hs : Seated stack)
    (h : close t stack = .ok r) :
    (∃ b, stack = r.1.map .operator ++ .bracket b :: r.2) ∨
      ∃ ops op offset b, r.1 = ops ++ [op] ∧
        stack = ops.map .operator ++ .method op op.arity offset :: .bracket b :: r.2 := by
  induction stack generalizing r with
  | nil => cases h
  | cons w stack ih =>
    cases w with
    | bracket b =>
      cases h
      exact .inl ⟨b, rfl⟩
    | operator op =>
      obtain ⟨r', hr, h⟩ := bind_eq_ok_iff.1 h
      cases h
      rcases ih hs hr with ⟨b, rfl⟩ | ⟨ops, f, offset, b, hops, rfl⟩
      · exact .inl ⟨b, rfl⟩
      · exact .inr ⟨op :: ops, f, offset, b, by rw [Released.cons, hops]; rfl, rfl⟩
    | method op n offset =>
      rw [close] at h
      by_cases hn : n = op.arity
      · simp only [hn, ne_eq, not_true_eq_false, if_false] at h
        obtain ⟨r', hr, h⟩ := bind_eq_ok_iff.1 h
        cases h
        rcases stack with _ | ⟨b | _ | _, stack⟩
        · cases hs
        · cases hr
          exact .inr ⟨[], op, offset, b, rfl, by rw [hn]; rfl⟩
        · cases hs
        · cases hs
      · simp only [hn, ne_eq, not_false_eq_true, if_true] at h
        cases h

theorem Seated.close {t : Token TokenKind} {stack : List Waiting} {r : Released} (hs : Seated stack)
    (h : close t stack = .ok r) : Seated r.2 := by
  rcases close_cases hs h with ⟨b, rfl⟩ | ⟨ops, op, offset, b, -, rfl⟩
  · exact hs.of_append
  · exact hs.of_append

/-- A separator stands in the brackets of a method. -/
theorem nextArgument_cases {t : Token TokenKind} {r r' : Released} (h : nextArgument t r = .ok r') :
    ∃ op n offset stack, r.2 = .method op n offset :: stack ∧
      r' = (r.1, .method op (n + 1) offset :: stack) := by
  obtain ⟨ops, stack⟩ := r
  rcases stack with _ | ⟨b | op | ⟨op, n, offset⟩, stack⟩
  · cases h
  · cases h
  · cases h
  · cases h
    exact ⟨op, n, offset, stack, rfl, rfl⟩

theorem Seated.nextArgument {t : Token TokenKind} {r r' : Released} (hs : Seated r.2)
    (h : nextArgument t r = .ok r') : Seated r'.2 := by
  obtain ⟨op, n, offset, stack, hr, rfl⟩ := nextArgument_cases h
  rw [hr] at hs
  rcases stack with _ | ⟨_ | _ | _, stack⟩ <;> exact hs

/-- At the end only operators wait. -/
theorem drain_eq_ok {stack : List Waiting} {ops : List Operator} (hs : Seated stack)
    (h : drain stack = .ok ops) : stack = ops.map .operator := by
  induction stack generalizing ops with
  | nil =>
    cases h
    rfl
  | cons w stack ih =>
    cases w with
    | bracket b => cases h
    | operator op =>
      obtain ⟨ops', hd, h⟩ := bind_eq_ok_iff.1 h
      cases h
      rw [List.map_cons, ih hs hd]
    | method op n offset =>
      -- its bracket is still open
      rcases stack with _ | ⟨_ | _ | _, stack⟩
      · cases hs
      · cases h
      · cases hs
      · cases hs

/-! ### Runs -/

/-- Operators with their places, as they wait. -/
def stacked (ops : List (Nat × Operator)) : List (Nat × Waiting) := ops.map (Prod.map id .operator)

/-- Operators with their places, as they are written. -/
def written (ops : List (Nat × Operator)) : List (Nat × Item) := ops.map (Prod.map id .operator)

/-- A run of the reordering over the tokens from place `n` on: what waits, the tokens, and what is
written, each entry and element with the place of the token that it comes from. -/
inductive Run (d : Dialect) :
    Nat → List (Nat × Waiting) → List (Token TokenKind) → List (Nat × Item) → Prop where
  | done (n : Nat) (ops : List (Nat × Operator)) : Run d n (stacked ops) [] (written ops)
  | value {n : Nat} {t : Token TokenKind} {ts : List (Token TokenKind)}
      {stack : List (Nat × Waiting)} {output : List (Nat × Item)}
      (h : t.kind = .operand ∨ t.kind = .null) (hrun : Run d (n + 1) stack ts output) :
      Run d n stack (t :: ts) ((n, .value t) :: output)
  | before {n : Nat} {t : Token TokenKind} {ts : List (Token TokenKind)} {op : Operator}
      {stack : List (Nat × Waiting)} {output : List (Nat × Item)}
      (h : t.Spells d .unaryOperator op) (hrun : Run d (n + 1) ((n, .operator op) :: stack) ts output) :
      Run d n stack (t :: ts) output
  | between {n : Nat} {t : Token TokenKind} {ts : List (Token TokenKind)} {op : Operator}
      {stack : List (Nat × Waiting)} {output : List (Nat × Item)}
      (h : t.Spells d .binaryOperator op) (released : List (Nat × Operator))
      (hrun : Run d (n + 1) ((n, .operator op) :: stack) ts output) :
      Run d n (stacked released ++ stack) (t :: ts) (written released ++ output)
  | called {n : Nat} {t b : Token TokenKind} {ts : List (Token TokenKind)} {op : Operator}
      {stack : List (Nat × Waiting)} {output : List (Nat × Item)}
      (h : t.Spells d .method op) (hb : b.kind = .bracketOpen)
      (hrun : Run d (n + 2) ((n, .method op 1 t.start) :: (n + 1, .bracket b) :: stack) ts output) :
      Run d n stack (t :: b :: ts) output
  | opened {n : Nat} {t : Token TokenKind} {ts : List (Token TokenKind)}
      {stack : List (Nat × Waiting)} {output : List (Nat × Item)}
      (h : t.kind = .bracketOpen) (hrun : Run d (n + 1) ((n, .bracket t) :: stack) ts output) :
      Run d n stack (t :: ts) output
  | closed {n p : Nat} {t b : Token TokenKind} {ts : List (Token TokenKind)}
      {stack : List (Nat × Waiting)} {output : List (Nat × Item)}
      (h : t.kind = .bracketClose) (released : List (Nat × Operator))
      (hrun : Run d (n + 1) stack ts output) :
      Run d n (stacked released ++ (p, .bracket b) :: stack) (t :: ts) (written released ++ output)
  | returned {n p q offset : Nat} {t b : Token TokenKind} {ts : List (Token TokenKind)}
      {op : Operator} {stack : List (Nat × Waiting)} {output : List (Nat × Item)}
      (h : t.kind = .bracketClose) (released : List (Nat × Operator))
      (hrun : Run d (n + 1) stack ts output) :
      Run d n (stacked released ++ (p, .method op op.arity offset) :: (q, .bracket b) :: stack)
        (t :: ts) (written released ++ (p, .operator op) :: output)
  | separated {n p k offset : Nat} {t : Token TokenKind} {ts : List (Token TokenKind)}
      {op : Operator} {stack : List (Nat × Waiting)} {output : List (Nat × Item)}
      (h : t.kind = .separator) (released : List (Nat × Operator))
      (hrun : Run d (n + 1) ((p, .method op (k + 1) offset) :: stack) ts output) :
      Run d n (stacked released ++ (p, .method op k offset) :: stack) (t :: ts)
        (written released ++ output)

theorem map_snd_written (ops : List (Nat × Operator)) :
    (written ops).map Prod.snd = items (ops.map Prod.snd) := by
  simp [written, items, Function.comp_def]

/-- Entries of which the first ones are operators, with their places. -/
theorem exists_stacked {marks : List (Nat × Waiting)} {ops : List Operator} {stack : List Waiting}
    (h : marks.map Prod.snd = ops.map .operator ++ stack) :
    ∃ released rest, marks = stacked released ++ rest ∧ released.map Prod.snd = ops ∧
      rest.map Prod.snd = stack := by
  induction ops generalizing marks with
  | nil => exact ⟨[], marks, rfl, rfl, h⟩
  | cons op ops ih =>
    obtain ⟨⟨p, w⟩, marks, rfl, hw, h⟩ := List.map_eq_cons_iff.1 h
    obtain ⟨released, rest, rfl, hops, hrest⟩ := ih h
    cases hw
    exact ⟨(p, op) :: released, rest, rfl, by rw [List.map_cons, hops], hrest⟩

/-- Entries of which the first ones are operators in front of one that is looked at. -/
theorem exists_stacked_cons {marks : List (Nat × Waiting)} {ops : List Operator} {w : Waiting}
    {stack : List Waiting} (h : marks.map Prod.snd = ops.map .operator ++ w :: stack) :
    ∃ released p below, marks = stacked released ++ (p, w) :: below ∧ released.map Prod.snd = ops ∧
      below.map Prod.snd = stack := by
  obtain ⟨released, marks, rfl, hops, hmarks⟩ := exists_stacked h
  obtain ⟨⟨p, _⟩, below, rfl, rfl, hbelow⟩ := List.map_eq_cons_iff.1 hmarks
  exact ⟨released, p, below, rfl, hops, hbelow⟩

/-- **Tokens that are put in order have a run**, whatever the places are from which the entries of the
stack come. -/
theorem exists_run {marks : List (Nat × Waiting)} {ts : List (Token TokenKind)}
    {sequence : List Item} (n : Nat) (hs : Seated (marks.map Prod.snd))
    (h : reorderFrom d (marks.map Prod.snd) ts = .ok sequence) :
    ∃ output, output.map Prod.snd = sequence ∧ Run d n marks ts output := by
  generalize hstack : marks.map Prod.snd = stack at hs h
  fun_induction reorderFrom d stack ts generalizing n marks sequence with
  | case1 stack =>
    obtain ⟨ops, hdrain, h⟩ := bind_eq_ok_iff.1 h
    cases h
    rw [drain_eq_ok hs hdrain, ← List.append_nil (ops.map _)] at hstack
    obtain ⟨released, rest, rfl, rfl, hrest⟩ := exists_stacked hstack
    rw [List.map_eq_nil_iff.1 hrest, List.append_nil]
    exact ⟨written released, map_snd_written released, .done n released⟩
  | case2 stack t ts hk ih | case3 stack t ts hk ih =>
    obtain ⟨rest, hr, h⟩ := bind_eq_ok_iff.1 h
    cases h
    obtain ⟨output, rfl, hrun⟩ := ih (n + 1) hstack hs hr
    exact ⟨(n, .value t) :: output, rfl, .value (by simp [hk]) hrun⟩
  | case4 stack t ts hk ih =>
    obtain ⟨op, hop, h⟩ := bind_eq_ok_iff.1 h
    have hmarks : ((n, Waiting.operator op) :: marks).map Prod.snd = .operator op :: stack :=
      congrArg (_ :: ·) hstack
    obtain ⟨output, rfl, hrun⟩ := ih op (n + 1) hmarks hs h
    exact ⟨output, rfl, .before ⟨hk, lookUp_eq_ok_iff.1 hop⟩ hrun⟩
  | case5 stack t ts hk ih =>
    obtain ⟨op, hop, h⟩ := bind_eq_ok_iff.1 h
    obtain ⟨rest, hr, h⟩ := bind_eq_ok_iff.1 h
    cases h
    have hsplit := release_split op stack
    rw [hsplit] at hs hstack
    obtain ⟨released, below, rfl, hops, hbelow⟩ := exists_stacked hstack
    have hmarks : ((n, Waiting.operator op) :: below).map Prod.snd =
      .operator op :: (release op stack).2 := congrArg (_ :: ·) hbelow
    obtain ⟨output, rfl, hrun⟩ := ih op _ (n + 1) hmarks hs.of_append hr
    exact ⟨written released ++ output, by rw [List.map_append, map_snd_written, hops],
      .between ⟨hk, lookUp_eq_ok_iff.1 hop⟩ released hrun⟩
  | case6 stack t ts hk ih =>
    obtain ⟨op, hop, h⟩ := bind_eq_ok_iff.1 h
    rcases ts with _ | ⟨b, ts⟩
    · cases h
    by_cases hb : b.kind = .bracketOpen
    · simp only [hb, if_true] at h
      have hmarks : ((n, .method op 1 t.start) :: (n + 1, .bracket b) :: marks).map Prod.snd =
        .method op 1 t.start :: .bracket b :: stack := congrArg (_ :: _ :: ·) hstack
      obtain ⟨output, rfl, hrun⟩ := ih op (n + 2) hmarks hs h
      exact ⟨output, rfl, .called ⟨hk, lookUp_eq_ok_iff.1 hop⟩ hb hrun⟩
    · simp only [hb, if_false] at h
      cases h
  | case7 stack t ts hk ih =>
    have hmarks : ((n, Waiting.bracket t) :: marks).map Prod.snd = .bracket t :: stack :=
      congrArg (_ :: ·) hstack
    obtain ⟨output, rfl, hrun⟩ := ih (n + 1) hmarks hs h
    exact ⟨output, rfl, .opened hk hrun⟩
  | case8 stack t ts hk ih =>
    obtain ⟨r, hc, h⟩ := bind_eq_ok_iff.1 h
    obtain ⟨rest, hr, h⟩ := bind_eq_ok_iff.1 h
    cases h
    rcases close_cases hs hc with ⟨b, rfl⟩ | ⟨ops, op, offset, b, hops, rfl⟩
    · obtain ⟨released, p, below, rfl, hops, hbelow⟩ := exists_stacked_cons hstack
      obtain ⟨output, rfl, hrun⟩ := ih r.2 (n + 1) hbelow hs.of_append hr
      exact ⟨written released ++ output, by rw [List.map_append, map_snd_written, hops],
        .closed hk released hrun⟩
    · obtain ⟨released, p, mid, rfl, rfl, hmid⟩ := exists_stacked_cons hstack
      obtain ⟨⟨q, _⟩, below, rfl, rfl, hbelow⟩ := List.map_eq_cons_iff.1 hmid
      obtain ⟨output, rfl, hrun⟩ := ih r.2 (n + 1) hbelow hs.of_append hr
      refine ⟨written released ++ (p, .operator op) :: output, ?_, .returned hk released hrun⟩
      rw [List.map_append, map_snd_written, hops]
      simp
  | case9 stack t ts hk ih =>
    obtain ⟨r, hn, h⟩ := bind_eq_ok_iff.1 h
    obtain ⟨rest, hr, h⟩ := bind_eq_ok_iff.1 h
    cases h
    have hseated := hs.releaseAll.nextArgument hn
    obtain ⟨op, k, offset, stack', hstack', rfl⟩ := nextArgument_cases hn
    rw [releaseAll_split stack, hstack'] at hstack
    obtain ⟨released, p, below, rfl, hops, hbelow⟩ := exists_stacked_cons hstack
    have hmarks : ((p, .method op (k + 1) offset) :: below).map Prod.snd =
      .method op (k + 1) offset :: stack' := congrArg (_ :: ·) hbelow
    obtain ⟨output, rfl, hrun⟩ := ih _ (n + 1) hmarks hseated hr
    exact ⟨written released ++ output, by rw [List.map_append, map_snd_written, hops],
      .separated hk released hrun⟩

theorem exists_run_of_reorder {ts : List (Token TokenKind)} {sequence : List Item}
    (h : reorder d ts = .ok sequence) :
    ∃ output, output.map Prod.snd = sequence ∧ Run d 0 [] ts output := by
  have hs : Seated (([] : List (Nat × Waiting)).map Prod.snd) := trivial
  exact exists_run 0 hs h

end Postfix

end Criteria

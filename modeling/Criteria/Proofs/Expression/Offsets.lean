import Criteria.Proofs.Expression.Errors

/-!
# Parsing and offsets

From the tokens on, parsing uses offsets only in errors. If the tokens are moved to other places,
then what is put in order and what fails is moved along, and the tree stays the same
(`reorder_fold_moved`). So tokens of the same categories and texts give the same tree or fail in the
same way up to offsets, wherever they stand (`mapError_of_alike`).
-/

namespace Criteria

/-- The token at another place. -/
def Token.moved {κ : Type} (f : Nat → Nat) (t : Token κ) : Token κ := { t with start := f t.start }

/-- The error with all of its offsets at other places. -/
def SyntaxError.moved (f : Nat → Nat) : SyntaxError → SyntaxError
  | unexpectedInput offset remainder => unexpectedInput (f offset) remainder
  | unbalancedBracket bracket offset => unbalancedBracket bracket (f offset)
  | missingMethodBracket method offset => missingMethodBracket method (f offset)
  | argumentCount method expected found offset => argumentCount method expected found (f offset)
  | misplacedSeparator offset => misplacedSeparator (f offset)
  | unknownOperator spelling offset => unknownOperator spelling (f offset)
  | invalidGrammar offset reason => invalidGrammar (f offset) reason
  | e => e

namespace Postfix

variable {d : Dialect} {f : Nat → Nat}

/-- The element with its token at another place. -/
def Item.moved (f : Nat → Nat) : Item → Item
  | value t => value (t.moved f)
  | operator op => operator op

/-- What waits with its token at another place. -/
def Waiting.moved (f : Nat → Nat) : Waiting → Waiting
  | bracket t => bracket (t.moved f)
  | operator op => operator op
  | method op arguments offset => method op arguments (f offset)

/-- What is released, with what stays on the stack at other places. -/
def Released.moved (f : Nat → Nat) (r : Released) : Released := (r.1, r.2.map (Waiting.moved f))

/-- The result or the error of a step, each moved. -/
def carry {α β : Type} (f : Nat → Nat) (g : α → β) : Except SyntaxError α → Except SyntaxError β
  | .ok a => .ok (g a)
  | .error e => .error (e.moved f)

/-- Steps one after the other are moved one after the other. -/
theorem carry_bind {α α' β β' : Type} {g : α → α'} {h : β → β'} {x : Except SyntaxError α}
    {k : α → Except SyntaxError β} {k' : α' → Except SyntaxError β'}
    (hk : ∀ a, k' (g a) = carry f h (k a)) : carry f g x >>= k' = carry f h (x >>= k) := by
  cases x with
  | error e => rfl
  | ok a => exact hk a

theorem carry_id {α : Type} (x : Except SyntaxError α) :
    carry f id x = x.mapError (SyntaxError.moved f) := by
  cases x <;> rfl

/-! ### Order -/

theorem release_moved (op : Operator) (stack : List Waiting) :
    release op (stack.map (Waiting.moved f)) = (release op stack).moved f := by
  induction stack with
  | nil => rfl
  | cons w stack ih =>
    cases w with
    | bracket | method => rfl
    | operator top =>
      rw [List.map_cons, Waiting.moved, release, release]
      split_ifs
      · rfl
      · rw [ih]
        rfl

theorem releaseAll_moved (stack : List Waiting) :
    releaseAll (stack.map (Waiting.moved f)) = (releaseAll stack).moved f := by
  induction stack with
  | nil => rfl
  | cons w stack ih =>
    cases w with
    | bracket | method => rfl
    | operator top =>
      rw [List.map_cons, Waiting.moved, releaseAll, releaseAll, ih]
      rfl

theorem close_moved (t : Token TokenKind) (stack : List Waiting) :
    close (t.moved f) (stack.map (Waiting.moved f)) =
      carry f (Released.moved f) (close t stack) := by
  induction stack with
  | nil => rfl
  | cons w stack ih =>
    cases w with
    | bracket => rfl
    | operator op =>
      rw [List.map_cons, Waiting.moved, close, close, ih]
      exact carry_bind fun r => rfl
    | method op arguments offset =>
      rw [List.map_cons, Waiting.moved, close, close, ih]
      split_ifs
      · rfl
      · exact carry_bind fun r => rfl

theorem nextArgument_moved (t : Token TokenKind) (r : Released) :
    nextArgument (t.moved f) (r.moved f) = carry f (Released.moved f) (nextArgument t r) := by
  obtain ⟨ops, stack⟩ := r
  rcases stack with _ | ⟨_ | _ | _, stack⟩ <;> rfl

theorem drain_moved (stack : List Waiting) :
    drain (stack.map (Waiting.moved f)) = carry f id (drain stack) := by
  induction stack with
  | nil => rfl
  | cons w stack ih =>
    cases w with
    | bracket => rfl
    | operator | method =>
      rw [List.map_cons, Waiting.moved, drain, drain, ih]
      exact carry_bind fun ops => rfl

theorem lookUp_moved (t : Token TokenKind) : lookUp d (t.moved f) = carry f id (lookUp d t) := by
  unfold lookUp
  rw [Token.moved]
  cases d.operator? t.text t.kind <;> rfl

theorem map_items_append (ops : List Operator) (sequence : List Item) :
    (items ops ++ sequence).map (Item.moved f) = items ops ++ sequence.map (Item.moved f) := by
  simp [items, Item.moved, Function.comp_def]

/-- **Tokens at other places are put in the same order.** -/
theorem reorderFrom_moved (stack : List Waiting) (ts : List (Token TokenKind)) :
    reorderFrom d (stack.map (Waiting.moved f)) (ts.map (Token.moved f)) =
      carry f (List.map (Item.moved f)) (reorderFrom d stack ts) := by
  -- what is released comes in front of what is put in order behind it
  have behind {ops : List Operator} {x y : Except SyntaxError (List Item)}
      (h : y = carry f (List.map (Item.moved f)) x) :
      (do return items ops ++ (← y) : Except _ _) =
        carry f (List.map (Item.moved f)) (do return items ops ++ (← x)) := by
    rw [h]
    exact carry_bind fun rest => congrArg Except.ok (map_items_append ops rest).symm
  fun_induction reorderFrom d stack ts with
  | case1 stack =>
    rw [List.map_nil, reorderFrom, drain_moved]
    refine carry_bind fun ops => congrArg Except.ok ?_
    simp [items, Item.moved]
  | case2 stack t ts hk ih | case3 stack t ts hk ih =>
    rw [List.map_cons, reorderFrom, show (t.moved f).kind = _ from hk, ih]
    exact carry_bind fun rest => rfl
  | case4 stack t ts hk ih =>
    rw [List.map_cons, reorderFrom, show (t.moved f).kind = _ from hk, lookUp_moved]
    exact carry_bind ih
  | case5 stack t ts hk ih =>
    rw [List.map_cons, reorderFrom, show (t.moved f).kind = _ from hk, lookUp_moved]
    refine carry_bind fun op => ?_
    rw [id_eq, release_moved]
    exact behind (ih op _)
  | case6 stack t ts hk ih =>
    rw [List.map_cons, reorderFrom, show (t.moved f).kind = _ from hk, lookUp_moved]
    refine carry_bind fun op => ?_
    -- a method looks at the token behind it
    rcases ts with _ | ⟨b, ts⟩
    · rfl
    · by_cases hb : b.kind = .bracketOpen
      · simp only [List.map_cons, show (b.moved f).kind = _ from hb, if_true, hb, id_eq]
        exact ih op
      · have hb' : (b.moved f).kind ≠ .bracketOpen := hb
        simp only [List.map_cons, hb', if_false, hb]
        rfl
  | case7 stack t ts hk ih =>
    rw [List.map_cons, reorderFrom, show (t.moved f).kind = _ from hk]
    exact ih
  | case8 stack t ts hk ih =>
    rw [List.map_cons, reorderFrom, show (t.moved f).kind = _ from hk, close_moved]
    exact carry_bind fun r => behind (ih r.2)
  | case9 stack t ts hk ih =>
    rw [List.map_cons, reorderFrom, show (t.moved f).kind = _ from hk, releaseAll_moved,
      nextArgument_moved]
    exact carry_bind fun r => behind (ih r.2)

/-! ### Trees -/

theorem resolve_moved (t : Token TokenKind) : resolve (t.moved f) = carry f id (resolve t) := by
  unfold resolve
  rw [Token.moved]
  split_ifs
  · rfl
  · cases Literal.classify t.text with
    | some v => rfl
    | none => cases Term.reference? t.text <;> rfl

theorem of?_moved (op : Operator) (operands : List Term) :
    Operation.of? op operands = carry f id (Operation.of? op operands) := by
  unfold Operation.of?
  split_ifs <;> rfl

theorem single_moved (stack : List Term) : single stack = carry f id (single stack) := by
  unfold single
  split <;> rfl

theorem push_moved (stack : List Term) (item : Item) :
    push stack (item.moved f) = carry f id (push stack item) := by
  cases item with
  | value t =>
    rw [Item.moved, push, resolve_moved]
    exact carry_bind fun v => rfl
  | operator op =>
    rw [Item.moved, push]
    split_ifs
    · rfl
    · exact (congrArg (· >>= _) (of?_moved _ _)).trans (carry_bind fun operation => rfl)

theorem foldlM_push_moved (sequence : List Item) (stack : List Term) :
    (sequence.map (Item.moved f)).foldlM push stack = carry f id (sequence.foldlM push stack) := by
  induction sequence generalizing stack with
  | nil => rfl
  | cons item sequence ih =>
    rw [List.map_cons, List.foldlM_cons, List.foldlM_cons, push_moved]
    exact carry_bind ih

/-- **Moved tokens give the same tree**, and what is wrong with them is moved along. -/
theorem reorder_fold_moved (ts : List (Token TokenKind)) :
    (reorder d (ts.map (Token.moved f)) >>= fold) =
      (reorder d ts >>= fold).mapError (SyntaxError.moved f) := by
  rw [← carry_id, reorder, ← List.map_nil (f := Waiting.moved f), reorderFrom_moved]
  refine carry_bind fun sequence => ?_
  rw [fold, foldlM_push_moved]
  exact carry_bind single_moved

/-- Tokens of the same categories and texts are parsed alike. -/
theorem mapError_of_alike {ts us : List (Token TokenKind)}
    (h : us.map (fun t => (t.kind, t.text)) = ts.map fun t => (t.kind, t.text)) :
    (reorder d us >>= fold).mapError (SyntaxError.moved fun _ => 0) =
      (reorder d ts >>= fold).mapError (SyntaxError.moved fun _ => 0) := by
  have hmoved (ts : List (Token TokenKind)) : ts.map (Token.moved fun _ => 0) =
      (ts.map fun t => (t.kind, t.text)).map fun p => ⟨p.1, p.2, 0⟩ := by
    simp [Token.moved, Function.comp_def]
  rw [← reorder_fold_moved, ← reorder_fold_moved, hmoved, h, hmoved]

end Postfix

end Criteria

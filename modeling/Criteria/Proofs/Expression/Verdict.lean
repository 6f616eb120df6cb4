import Criteria.Dialect.Builtin
import Criteria.Proofs.Expression.Errors
import Mathlib.Data.List.Forall2

/-!
# When tokens can be put in order

Whether tokens can be put into postfix order, and what is wrong with them otherwise, depends on their
brackets, separators and methods alone. `openBehind` reads the tokens with a stack of the brackets that
are open, a method being called with its arguments so far, and stops at the first fault. No operator is
on that stack.

The stack of `reorderFrom` holds the same brackets with operators in between (`openBrackets`). Each of
the steps that take operators from it leaves the brackets as they are, closes the innermost one or
counts an argument of it, so that both readings stop at the same fault (`reorderFrom_verdict`).
-/

namespace Criteria

namespace Postfix

/-- A bracket that is open. -/
inductive OpenBracket where
  | plain (t : Token TokenKind)
  /-- The bracket of a method that is being called: its arguments so far, the offset of its name and
  the bracket. -/
  | call (op : Operator) (arguments offset : Nat) (t : Token TokenKind)
  deriving DecidableEq, Repr

/-- The token of an open bracket. -/
def OpenBracket.token : OpenBracket → Token TokenKind
  | plain t | call _ _ _ t => t

/-- Closes the innermost bracket; a method has to have its arguments. -/
def closeBracket (t : Token TokenKind) : List OpenBracket → Except SyntaxError (List OpenBracket)
  | [] => .error (.unbalancedBracket t.text t.start)
  | .plain _ :: opened => .ok opened
  | .call op arguments offset _ :: opened =>
    if arguments = op.arity then .ok opened
    else .error (.argumentCount op.name op.arity arguments offset)

/-- Counts one more argument; the innermost bracket has to be that of a method. -/
def countArgument (t : Token TokenKind) : List OpenBracket → Except SyntaxError (List OpenBracket)
  | .call op arguments offset b :: opened => .ok (.call op (arguments + 1) offset b :: opened)
  | _ => .error (.misplacedSeparator t.start)

/-- The brackets that are open behind tokens, the innermost one first, or else the first fault of the
tokens. -/
def openBehind (d : Dialect) : List OpenBracket → List (Token TokenKind) →
    Except SyntaxError (List OpenBracket)
  | opened, [] => .ok opened
  | opened, t :: ts =>
    match t.kind with
    | .operand | .null => openBehind d opened ts
    | .unaryOperator | .binaryOperator => do
      let _ ← lookUp d t
      openBehind d opened ts
    | .method => do
      let op ← lookUp d t
      match ts with
      | [] => throw (.missingMethodBracket t.text t.start)
      | b :: ts =>
        if b.kind = .bracketOpen then openBehind d (.call op 1 t.start b :: opened) ts
        else throw (.missingMethodBracket t.text t.start)
    | .bracketOpen => openBehind d (.plain t :: opened) ts
    | .bracketClose => do openBehind d (← closeBracket t opened) ts
    | .separator => do openBehind d (← countArgument t opened) ts

/-- At the end no bracket may be open; of several the innermost one is reported. -/
def allClosed : List OpenBracket → Except SyntaxError Unit
  | [] => .ok ()
  | b :: _ => .error (.unbalancedBracket b.token.text b.token.start)

/-- What brackets, separators and methods say about tokens: the first fault, or else the innermost
bracket that is not closed, or else that there is nothing wrong. -/
def verdict (d : Dialect) (ts : List (Token TokenKind)) : Except SyntaxError Unit := do
  allClosed (← openBehind d [] ts)

/-! ### Other operators -/

/-- Whether two tokens are the same, or else operators in front of operands or in between that a
dialect knows. -/
inductive Exchangeable (d : Dialect) : Token TokenKind → Token TokenKind → Prop where
  | refl (t : Token TokenKind) : Exchangeable d t t
  | operators {t u : Token TokenKind} {f g : Operator}
      (ht : t.kind = .unaryOperator ∨ t.kind = .binaryOperator)
      (hu : u.kind = .unaryOperator ∨ u.kind = .binaryOperator) (hf : lookUp d t = .ok f)
      (hg : lookUp d u = .ok g) : Exchangeable d t u

variable {d : Dialect}

theorem Exchangeable.eq {t u : Token TokenKind} (h : Exchangeable d t u)
    (ht : t.kind ≠ .unaryOperator ∧ t.kind ≠ .binaryOperator) : u = t := by
  cases h with
  | refl => rfl
  | operators hk => exact absurd hk (not_or.2 ht)

theorem Exchangeable.kind_eq_bracketOpen_iff {t u : Token TokenKind} (h : Exchangeable d t u) :
    u.kind = .bracketOpen ↔ t.kind = .bracketOpen := by
  cases h with
  | refl => rfl
  | operators ht hu =>
    constructor
    · intro hk
      simp [hk] at hu
    · intro hk
      simp [hk] at ht

/-- An operator that the dialect knows opens and closes nothing. -/
theorem openBehind_operator {t : Token TokenKind} {op : Operator}
    (ht : t.kind = .unaryOperator ∨ t.kind = .binaryOperator) (hop : lookUp d t = .ok op)
    (opened : List OpenBracket) (ts : List (Token TokenKind)) :
    openBehind d opened (t :: ts) = openBehind d opened ts := by
  rcases ht with ht | ht <;> rw [openBehind, ht, hop] <;> rfl

theorem openBehind_exchange {opened : List OpenBracket} {ts us : List (Token TokenKind)}
    (h : List.Forall₂ (Exchangeable d) ts us) : openBehind d opened us = openBehind d opened ts := by
  fun_induction openBehind d opened ts generalizing us with
  | case1 opened =>
    cases h
    rfl
  | case2 opened t ts hk ih | case3 opened t ts hk ih | case7 opened t ts hk ih =>
    obtain ⟨u, us, hu, hus, rfl⟩ := List.forall₂_cons_left_iff.1 h
    obtain rfl := hu.eq (by simp [hk])
    rw [openBehind, hk, ih hus]
  | case4 opened t ts hk ih | case5 opened t ts hk ih =>
    obtain ⟨u, us, hu, hus, rfl⟩ := List.forall₂_cons_left_iff.1 h
    cases hu with
    | refl =>
      rw [openBehind, hk]
      exact bind_congr fun _ => ih hus
    | operators ht hu hf hg =>
      rw [openBehind_operator hu hg, hf]
      exact ih hus
  | case6 opened t ts hk ih =>
    obtain ⟨u, us, hu, hus, rfl⟩ := List.forall₂_cons_left_iff.1 h
    obtain rfl := hu.eq (by simp [hk])
    rw [openBehind, hk]
    refine bind_congr fun op => ?_
    -- the token behind a method is a bracket or else none that could be exchanged for one
    rcases ts with _ | ⟨b, ts⟩
    · cases hus
      rfl
    · obtain ⟨b', us, hb', htail, rfl⟩ := List.forall₂_cons_left_iff.1 hus
      by_cases hb : b.kind = .bracketOpen
      · obtain rfl := hb'.eq (by simp [hb])
        simp only [hb, if_true]
        exact ih op htail
      · simp only [hb, hb'.kind_eq_bracketOpen_iff, if_false]
  | case8 opened t ts hk ih | case9 opened t ts hk ih =>
    obtain ⟨u, us, hu, hus, rfl⟩ := List.forall₂_cons_left_iff.1 h
    obtain rfl := hu.eq (by simp [hk])
    rw [openBehind, hk]
    exact bind_congr fun opened' => ih opened' hus

/-! ### The brackets on the stack of operators -/

/-- The brackets on a stack. -/
def openBrackets : List Waiting → List OpenBracket
  | [] => []
  | .bracket t :: stack => .plain t :: openBrackets stack
  | .method op arguments offset :: .bracket t :: stack =>
    .call op arguments offset t :: openBrackets stack
  | .operator _ :: stack | .method _ _ _ :: stack => openBrackets stack

/-- A result without what has been computed. -/
def outcome {α : Type} (x : Except SyntaxError α) : Except SyntaxError Unit := (fun _ => ()) <$> x

theorem outcome_bind_ok {α β : Type} (x : Except SyntaxError α) (f : α → β) :
    outcome (do return f (← x)) = outcome x := by
  cases x <;> rfl

theorem outcome_bind_congr {α β γ : Type} {x : Except SyntaxError α} {y : Except SyntaxError β}
    {g : α → β} {f : α → Except SyntaxError γ} {k : β → Except SyntaxError Unit}
    (hxy : g <$> x = y) (hfk : ∀ a, x = .ok a → outcome (f a) = k (g a)) :
    outcome (x >>= f) = y >>= k := by
  subst hxy
  cases x with
  | error e => rfl
  | ok a => exact hfk a rfl

theorem openBrackets_release (op : Operator) (stack : List Waiting) :
    openBrackets (release op stack).2 = openBrackets stack := by
  fun_induction release op stack with
  | case1 | case3 => rfl
  | case2 top stack hb ih => exact ih

theorem openBrackets_close {t : Token TokenKind} {stack : List Waiting} (hs : Seated stack) :
    (fun r => openBrackets r.2) <$> close t stack = closeBracket t (openBrackets stack) := by
  induction stack with
  | nil => rfl
  | cons w stack ih =>
    cases w with
    | bracket b => rfl
    | operator op =>
      rw [openBrackets, ← ih hs, close]
      cases close t stack <;> rfl
    | method op n offset =>
      -- its bracket is right below it
      rcases stack with _ | ⟨b | _ | _, stack⟩
      · cases hs
      · by_cases hn : n = op.arity
        · simp [close, openBrackets, closeBracket, hn, Released.cons]
        · simp [close, openBrackets, closeBracket, hn]
          rfl
      · cases hs
      · cases hs

theorem openBrackets_nextArgument {t : Token TokenKind} {stack : List Waiting} (hs : Seated stack) :
    (fun r => openBrackets r.2) <$> nextArgument t (releaseAll stack) =
      countArgument t (openBrackets stack) := by
  induction stack with
  | nil => rfl
  | cons w stack ih =>
    cases w with
    | bracket b => rfl
    | operator op =>
      rw [openBrackets, ← ih hs, releaseAll]
      obtain ⟨ops, rest⟩ := releaseAll stack
      rcases rest with _ | ⟨_ | _ | _, rest⟩ <;> rfl
    | method op n offset =>
      rcases stack with _ | ⟨b | _ | _, stack⟩
      · cases hs
      · rfl
      · cases hs
      · cases hs

theorem outcome_drain {stack : List Waiting} (hs : Seated stack) :
    outcome (drain stack) = allClosed (openBrackets stack) := by
  induction stack with
  | nil => rfl
  | cons w stack ih =>
    cases w with
    | bracket b => rfl
    | operator op =>
      rw [openBrackets, ← ih hs, drain]
      cases drain stack <;> rfl
    | method op n offset =>
      rcases stack with _ | ⟨b | _ | _, stack⟩
      · cases hs
      · rfl
      · cases hs
      · cases hs

/-- **The stack of operators gives the verdict of the brackets on it.** -/
theorem reorderFrom_verdict {stack : List Waiting} {ts : List (Token TokenKind)} (hs : Seated stack) :
    outcome (reorderFrom d stack ts) = (do allClosed (← openBehind d (openBrackets stack) ts)) := by
  fun_induction reorderFrom d stack ts with
  | case1 stack =>
    rw [outcome_bind_ok, outcome_drain hs]
    rfl
  | case2 stack t ts hk ih | case3 stack t ts hk ih =>
    rw [outcome_bind_ok, ih hs, openBehind, hk]
  | case4 stack t ts hk ih =>
    rw [openBehind, hk, bind_assoc]
    exact outcome_bind_congr (g := id) (id_map _) fun op _ => ih op hs
  | case5 stack t ts hk ih =>
    rw [openBehind, hk, bind_assoc]
    refine outcome_bind_congr (g := id) (id_map _) fun op _ => ?_
    rw [outcome_bind_ok, ih op _ (hs.release op), openBrackets, openBrackets_release]
  | case6 stack t ts hk ih =>
    rw [openBehind, hk, bind_assoc]
    refine outcome_bind_congr (g := id) (id_map _) fun op _ => ?_
    rcases ts with _ | ⟨b, ts⟩
    · rfl
    · by_cases hb : b.kind = .bracketOpen
      · simp only [hb, if_true]
        exact ih op hs
      · simp only [hb, if_false]
        rfl
  | case7 stack t ts hk ih =>
    rw [ih hs, openBehind, hk]
    rfl
  | case8 stack t ts hk ih =>
    rw [openBehind, hk, bind_assoc]
    refine outcome_bind_congr (openBrackets_close hs) fun r hr => ?_
    rw [outcome_bind_ok, ih r.2 (hs.close hr)]
  | case9 stack t ts hk ih =>
    rw [openBehind, hk, bind_assoc]
    refine outcome_bind_congr (openBrackets_nextArgument hs) fun r hr => ?_
    rw [outcome_bind_ok, ih r.2 (hs.releaseAll.nextArgument hr)]

/-- **Brackets, separators and methods decide whether tokens can be put in order**, and which fault is
reported otherwise: the first one, or else the innermost bracket that is not closed. Operators that the
dialect knows may be exchanged for others of any precedence. -/
theorem reorder_verdict (d : Dialect) (ts : List (Token TokenKind)) :
    outcome (reorder d ts) = verdict d ts ∧
      ∀ us, List.Forall₂ (Exchangeable d) ts us → outcome (reorder d us) = outcome (reorder d ts) := by
  have hverdict (ts : List (Token TokenKind)) : outcome (reorder d ts) = verdict d ts :=
    reorderFrom_verdict trivial
  refine ⟨hverdict ts, fun us h => ?_⟩
  rw [hverdict, hverdict, verdict, verdict, openBehind_exchange h]

/-- One argument too many is reported for a sum and for a disjunction, and before the bracket that is
not closed. -/
theorem reorder_verdict_arguments :
    let d : Dialect := {
      name := "sharp"
      caseSensitive := false
      spellings := DialectDraft.sharp.spellings
      rules := []
      lexer := ⟨.ofDefinitions [], expressionGrammar⟩ }
    let ts (text : String) : List (Token TokenKind) :=
      [⟨.bracketOpen, "(", 0⟩, ⟨.method, "count", 1⟩, ⟨.bracketOpen, "(", 6⟩, ⟨.null, "null", 7⟩,
        ⟨.binaryOperator, text, 11⟩, ⟨.null, "null", 13⟩, ⟨.separator, ",", 17⟩, ⟨.null, "null", 18⟩,
        ⟨.bracketClose, ")", 22⟩]
    List.Forall₂ (Exchangeable d) (ts "+") (ts "||") ∧
      outcome (reorder d (ts "+")) = .error (.argumentCount "count" 1 2 1) ∧
        outcome (reorder d (ts "||")) = .error (.argumentCount "count" 1 2 1) := by
  intro d ts
  have hplus : lookUp d ⟨.binaryOperator, "+", 11⟩ = .ok .add := rfl
  have hor : lookUp d ⟨.binaryOperator, "||", 11⟩ = .ok .or := rfl
  have hexchange : List.Forall₂ (Exchangeable d) (ts "+") (ts "||") := by
    simp only [ts, List.forall₂_cons, List.forall₂_nil_left_iff, Exchangeable.refl, true_and, and_true]
    exact .operators (.inr rfl) (.inr rfl) hplus hor
  have hverdict : verdict d (ts "+") = .error (.argumentCount "count" 1 2 1) := rfl
  have hts := (reorder_verdict d (ts "+")).1.trans hverdict
  exact ⟨hexchange, hts, ((reorder_verdict d (ts "+")).2 (ts "||") hexchange).trans hts⟩

end Postfix

end Criteria

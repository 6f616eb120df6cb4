import Criteria.Proofs.Expression.Runs
import Criteria.Proofs.Scanning.Segments

/-!
# Operands and operators in balance

The grammar of token categories admits separators where an operand has to come, brackets that do
not match and a last operator without its operand. Reordering finds the brackets, and counting
finds the rest:

* an operand weighs one, an operator in between and a separator weigh minus one; what waits on the
  stack weighs one less for each operand that its operator takes, except that a method is
  charged for its arguments one by one. Reordering keeps the sum of all weights
  (`weight_of_reorderFrom`);
* along a path of the grammar the weights of the tokens add up to the difference of its ends, less
  one for each separator in the place of an operand (`sum_tokenWeight_le`).

A sequence that can be folded to a single tree weighs one, so in the tokens that it came from no
separator takes the place of an operand and the last operand is not missing. Such tokens are read
(`exists_read?_of_fold`).
-/

namespace Criteria

namespace Postfix

variable {d : Dialect}

/-- How many entries what waits will add to the stack of operands, arguments that were counted
already being taken off. -/
def Waiting.weight : Waiting → Int
  | .bracket _ => 0
  | .operator op => 1 - op.arity
  | .method _ arguments _ => 1 - arguments

/-- The weight of a stack of what waits. -/
def stackWeight (stack : List Waiting) : Int := (stack.map Waiting.weight).sum

/-- How many operands a token adds to those that are not taken yet. -/
def tokenWeight (t : Token TokenKind) : Int :=
  match t.kind with
  | .operand | .null => 1
  | .binaryOperator | .separator => -1
  | _ => 0

/-- The weight of a list of tokens. -/
def tokensWeight (ts : List (Token TokenKind)) : Int := (ts.map tokenWeight).sum

@[simp] theorem stackWeight_nil : stackWeight [] = 0 := rfl

@[simp] theorem stackWeight_cons (w : Waiting) (stack : List Waiting) :
    stackWeight (w :: stack) = w.weight + stackWeight stack := by simp [stackWeight]

@[simp] theorem stackWeight_append (a b : List Waiting) :
    stackWeight (a ++ b) = stackWeight a + stackWeight b := by simp [stackWeight]

@[simp] theorem tokensWeight_nil : tokensWeight [] = 0 := rfl

@[simp] theorem tokensWeight_cons (t : Token TokenKind) (ts : List (Token TokenKind)) :
    tokensWeight (t :: ts) = tokenWeight t + tokensWeight ts := by simp [tokensWeight]

/-- The operands among tokens. -/
def operands (ts : List (Token TokenKind)) : List (Token TokenKind) :=
  ts.filter fun t => t.kind = .operand ∨ t.kind = .null

/-- The operands of a sequence. -/
def values : List Item → List (Token TokenKind)
  | [] => []
  | .value t :: sequence => t :: values sequence
  | .operator _ :: sequence => values sequence

@[simp] theorem values_items_append (ops : List Operator) (sequence : List Item) :
    values (items ops ++ sequence) = values sequence := by
  induction ops with
  | nil => rfl
  | cons op ops ih => exact ih

theorem mem_of_mem_values {t : Token TokenKind} {sequence : List Item}
    (h : t ∈ values sequence) : .value t ∈ sequence := by
  induction sequence with
  | nil => cases h
  | cons i sequence ih =>
    cases i with
    | value u =>
      rcases List.mem_cons.1 h with rfl | h
      · exact List.mem_cons_self
      · exact List.mem_cons_of_mem _ (ih h)
    | operator op => exact List.mem_cons_of_mem _ (ih h)

/-! ### Reordering keeps the weight -/

/-- Operators weigh the same where they wait and where they are written. -/
@[simp] theorem stackWeight_stacked (ops : List (Nat × Operator)) :
    stackWeight ((stacked ops).map Prod.snd) = weight ((written ops).map Prod.snd) := by
  induction ops with
  | nil => rfl
  | cons op ops ih => exact congrArg (1 - (op.2.arity : Int) + ·) ih

/-- Along a run the sum of the weights is kept. -/
theorem Run.weight_eq (hd : d.ArityMatched) {n : Nat} {stack : List (Nat × Waiting)}
    {ts : List (Token TokenKind)} {output : List (Nat × Item)} (h : Run d n stack ts output) :
    weight (output.map Prod.snd) = stackWeight (stack.map Prod.snd) + tokensWeight ts := by
  induction h with
  | done n ops => simp
  | value hk _ ih =>
    rcases hk with hk | hk <;> simp [Item.weight, ih, tokenWeight, hk] <;> omega
  | before ht _ ih =>
    simp [ih, Waiting.weight, hd.unary ht, tokenWeight, ht.1]
  | between ht released _ ih =>
    simp [ih, Waiting.weight, hd.binary ht, tokenWeight, ht.1]
    omega
  | called ht hb _ ih => simp [ih, Waiting.weight, tokenWeight, ht.1, hb]
  | opened hk _ ih => simp [ih, Waiting.weight, tokenWeight, hk]
  | closed hk released _ ih =>
    simp [ih, Waiting.weight, tokenWeight, hk]
    omega
  | returned hk released _ ih =>
    simp [ih, Item.weight, Waiting.weight, tokenWeight, hk]
    omega
  | separated hk released _ ih =>
    simp [ih, Waiting.weight, tokenWeight, hk]
    omega

/-- A run writes the operands in their order. -/
theorem Run.values_eq {n : Nat} {stack : List (Nat × Waiting)} {ts : List (Token TokenKind)}
    {output : List (Nat × Item)} (h : Run d n stack ts output) :
    values (output.map Prod.snd) = operands ts := by
  induction h with
  | done n ops => simpa [map_snd_written] using! values_items_append (ops.map Prod.snd) []
  | value hk _ ih =>
    rw [List.map_cons, values, ih]
    rcases hk with hk | hk <;> simp [operands, hk]
  | before ht _ ih => simpa [operands, ht.1] using ih
  | between ht released _ ih => simpa [map_snd_written, operands, ht.1] using ih
  | called ht hb _ ih => simpa [operands, ht.1, hb] using ih
  | opened hk _ ih => simpa [operands, hk] using ih
  | closed hk released _ ih | separated hk released _ ih =>
    simpa [map_snd_written, operands, hk] using ih
  | returned hk released _ ih => simpa [map_snd_written, values, operands, hk] using ih

/-- The operands are written in their order. -/
theorem values_of_reorder {ts : List (Token TokenKind)} {sequence : List Item}
    (h : reorder d ts = .ok sequence) : values sequence = operands ts := by
  obtain ⟨output, rfl, hrun⟩ := exists_run_of_reorder h
  exact hrun.values_eq

/-- Reordering keeps the operands in their order and the sum of the weights. -/
theorem reorderFrom_spec (hd : d.ArityMatched) {stack : List Waiting}
    {ts : List (Token TokenKind)} {sequence : List Item} (hs : Seated stack)
    (h : reorderFrom d stack ts = .ok sequence) :
    weight sequence = stackWeight stack + tokensWeight ts ∧ values sequence = operands ts := by
  obtain ⟨marks, rfl⟩ : ∃ marks : List (Nat × Waiting), marks.map Prod.snd = stack :=
    ⟨stack.map (0, ·), by simp [Function.comp_def]⟩
  obtain ⟨output, rfl, hrun⟩ := exists_run 0 hs h
  exact ⟨hrun.weight_eq hd, hrun.values_eq⟩

end Postfix

open Postfix

/-! ### Weights along the grammar -/

/-- An operand is expected in the first state and has been read in the second. -/
theorem tokenWeight_le {t : Token TokenKind} {s s' : Nat}
    (h : expressionGrammar.next? s t.kind = some s') :
    s' ≤ 1 ∧ tokenWeight t ≤ (s' : Int) - s := by
  obtain ⟨k, text, start⟩ := t
  rcases s with _ | _ | s
  · cases k <;> cases h <;> simp [tokenWeight]
  · cases k <;> cases h <;> simp [tokenWeight]
  · simp [Grammar.next?, expressionGrammar] at h

/-- Along the grammar no more operands are read than its states tell apart. -/
theorem tokensWeight_le {ts : List (Token TokenKind)} {s s' : Nat} (hs : s ≤ 1)
    (h : expressionGrammar.after? s ts = some s') :
    s' ≤ 1 ∧ tokensWeight ts ≤ (s' : Int) - s := by
  induction ts generalizing s with
  | nil => cases h; exact ⟨hs, by simp⟩
  | cons t ts ih =>
    obtain ⟨m, hm, h⟩ := Option.bind_eq_some_iff.1 h
    obtain ⟨hm1, hmw⟩ := tokenWeight_le hm
    obtain ⟨h1, hw⟩ := ih hm1 h
    refine ⟨h1, ?_⟩
    rw [tokensWeight_cons]
    omega

/-! ### Balanced tokens are read -/

namespace Position

open Criteria.Frame

variable {d : Dialect}

/-- The state of the grammar at a place. -/
def state : Position → Nat
  | expecting _ | called _ _ _ => 0
  | having _ _ => 1

/-- A token is read along the grammar. -/
theorem Reads.next?_state {p q : Position} {t : Token TokenKind} (h : Reads d p t q) :
    expressionGrammar.next? p.state t.kind = some q.state := by
  cases h with
  | value hk hv => rcases hk with hk | hk <;> rw [hk] <;> rfl
  | before ht | method ht | between ht hs => rw [ht.1]; rfl
  | bracket hk | arguments hk | separator hk hs | closed hk hs | returned hk hs hc => rw [hk]; rfl

section

variable {stack : List Frame} {t : Token TokenKind} {ts : List (Token TokenKind)}
  {sequence : List Item} {s : Nat}

/-- A separator that reordering gets past stands between the arguments of a method. -/
theorem exists_settle_of_nextArgument {r : List Operator × List Waiting} (e : Phrase)
    (h : nextArgument t (releaseAll (stackWaiting stack)) = .ok r) :
    ∃ m op o done rest a, settle 0 stack e = (.call m op o done :: rest, a) := by
  rw [nextArgument, (releaseAll_stackWaiting stack e).1] at h
  rcases settle_zero_cases stack e with ⟨a, hs⟩ | ⟨o, rest, a, hs⟩ | hs
  · rw [hs] at h
    cases h
  · rw [hs] at h
    cases h
  · exact hs

/-- A closing bracket that reordering gets past closes a bracket, or a method with all of its
arguments. -/
theorem exists_settle_of_close {r : List Operator × List Waiting} (e : Phrase)
    (h : close t (stackWaiting stack) = .ok r) :
    (∃ o rest a, settle 0 stack e = (.bracket o :: rest, a)) ∨
      ∃ m op o done rest a, settle 0 stack e = (.call m op o done :: rest, a) ∧
        (Arguments.add done a).count = op.arity := by
  rw [close_eq, (releaseAll_stackWaiting stack e).1, map_eq_ok_iff] at h
  obtain ⟨r', h, -⟩ := h
  rcases settle_zero_cases stack e with ⟨a, hs⟩ | hs | ⟨m, op, o, done, rest, a, hs⟩
  · rw [hs] at h
    cases h
  · exact .inl hs
  · refine .inr ⟨m, op, o, done, rest, a, hs, ?_⟩
    by_contra hc
    rw [count_add] at hc
    simp only [hs, stackWaiting, List.flatMap_cons, waiting, List.cons_append, close, ne_eq, hc,
      not_false_eq_true, if_true] at h
    cases h

/-- Where the tokens may end, no bracket and no method is open. -/
theorem exists_settle_of_drain {ops : List Operator} (e : Phrase)
    (h : drain (stackWaiting stack) = .ok ops) : ∃ a, settle 0 stack e = ([], a) := by
  rw [drain_eq, (releaseAll_stackWaiting stack e).1, map_eq_ok_iff] at h
  obtain ⟨ops', h, -⟩ := h
  rcases settle_zero_cases stack e with hs | ⟨o, rest, a, hs⟩ | ⟨m, op, o, done, rest, a, hs⟩
  · exact hs
  · rw [hs] at h
    cases h
  · rw [hs] at h
    cases h

theorem exists_reads_expecting (h : reorderFrom d (stackWaiting stack) (t :: ts) = .ok sequence)
    (hn : expressionGrammar.next? 0 t.kind = some s) (hsep : t.kind ≠ .separator)
    (hv : t.kind = .operand ∨ t.kind = .null → ∃ v, resolve t = .ok v) :
    ∃ q, Reads d (expecting stack) t q := by
  rw [reorderFrom] at h
  cases hk : t.kind with
  | operand =>
    obtain ⟨v, hv⟩ := hv (.inl hk)
    exact ⟨_, .value (.inl hk) hv⟩
  | null =>
    obtain ⟨v, hv⟩ := hv (.inr hk)
    exact ⟨_, .value (.inr hk) hv⟩
  | unaryOperator =>
    rw [hk] at h
    obtain ⟨op, hop, -⟩ := bind_eq_ok_iff.1 h
    exact ⟨_, .before ⟨hk, lookUp_eq_ok_iff.1 hop⟩⟩
  | method =>
    rw [hk] at h
    obtain ⟨op, hop, -⟩ := bind_eq_ok_iff.1 h
    exact ⟨_, .method ⟨hk, lookUp_eq_ok_iff.1 hop⟩⟩
  | bracketOpen => exact ⟨_, .bracket hk⟩
  | separator => exact absurd hk hsep
  | binaryOperator | bracketClose =>
    rw [hk] at hn
    cases hn

theorem exists_reads_having {e : Phrase}
    (h : reorderFrom d (stackWaiting stack) (t :: ts) = .ok sequence)
    (hn : expressionGrammar.next? 1 t.kind = some s) : ∃ q, Reads d (having stack e) t q := by
  cases hk : t.kind with
  | binaryOperator =>
    rw [reorderFrom, hk] at h
    obtain ⟨op, hop, -⟩ := bind_eq_ok_iff.1 h
    exact ⟨_, .between ⟨hk, lookUp_eq_ok_iff.1 hop⟩ rfl⟩
  | separator =>
    rw [reorderFrom_separator hk] at h
    obtain ⟨r, hr, -⟩ := bind_eq_ok_iff.1 h
    obtain ⟨m, op, o, done, rest, a, hs⟩ := exists_settle_of_nextArgument e hr
    exact ⟨_, .separator hk hs⟩
  | bracketClose =>
    rw [reorderFrom_close hk] at h
    obtain ⟨r, hr, -⟩ := bind_eq_ok_iff.1 h
    obtain ⟨o, rest, a, hs⟩ | ⟨m, op, o, done, rest, a, hs, hc⟩ := exists_settle_of_close e hr
    · exact ⟨_, .closed hk hs⟩
    · exact ⟨_, .returned hk hs hc⟩
  | operand | null | unaryOperator | method | bracketOpen =>
    rw [hk] at hn
    cases hn

end

/-- A token that the grammar accepts and that reordering gets past is read, unless it is a
separator in the place of an operand. -/
theorem exists_reads {p : Position} {t : Token TokenKind} {ts : List (Token TokenKind)}
    {sequence : List Item} {s : Nat} (h : p.reorder d (t :: ts) = .ok sequence)
    (hn : expressionGrammar.next? p.state t.kind = some s)
    (hw : (s : Int) - p.state ≤ tokenWeight t)
    (hv : t.kind = .operand ∨ t.kind = .null → ∃ v, resolve t = .ok v) :
    ∃ q, Reads d p t q ∧ q.state = s := by
  have hread : ∃ q, Reads d p t q := by
    cases p with
    | expecting stack =>
      rw [reorder_expecting] at h
      refine exists_reads_expecting h hn (fun hk => ?_) hv
      simp only [tokenWeight, hk, state] at hw
      omega
    | called stack m op =>
      by_cases hk : t.kind = .bracketOpen
      · exact ⟨_, .arguments hk⟩
      · rw [reorder, if_neg hk] at h
        cases h
    | having stack e =>
      rw [reorder_having] at h
      exact exists_reads_having h hn
  obtain ⟨q, hq⟩ := hread
  exact ⟨q, hq, Option.some.inj (hq.next?_state.symm.trans hn)⟩

/-- Balanced tokens are read to the end. -/
theorem exists_run (hd : d.ArityMatched) {ts : List (Token TokenKind)} {p : Position}
    {sequence : List Item} {s : Nat} (hp : p.Valid d) (h : p.reorder d ts = .ok sequence)
    (ha : expressionGrammar.after? p.state ts = some s)
    (hw : (s : Int) - p.state ≤ tokensWeight ts)
    (hv : ∀ t ∈ ts, t.kind = .operand ∨ t.kind = .null → ∃ v, resolve t = .ok v) :
    ∃ q, p.run d ts = some q ∧ q.state = s := by
  induction ts generalizing p sequence with
  | nil => exact ⟨p, rfl, Option.some.inj ha⟩
  | cons t ts ih =>
    obtain ⟨m, hm, ha⟩ := Option.bind_eq_some_iff.1 ha
    obtain ⟨hm1, hmw⟩ := tokenWeight_le hm
    obtain ⟨-, hsw⟩ := tokensWeight_le hm1 ha
    rw [tokensWeight_cons] at hw
    -- neither the token nor the tokens behind it can make up for what the other lacks
    obtain ⟨q, hq, rfl⟩ := exists_reads h hm (by omega) (hv t List.mem_cons_self)
    obtain ⟨added, hadd, -⟩ := hq.reorder hd hp
    rw [hadd, map_eq_ok_iff] at h
    obtain ⟨rest, hrest, -⟩ := h
    obtain ⟨r, hr, hrs⟩ := ih (hp.reads hd hq) hrest ha (by omega) fun u hu =>
      hv u (List.mem_cons_of_mem t hu)
    exact ⟨r, by rw [hq.run_cons, hr], hrs⟩

/-- Where no bracket is open behind an operand, a phrase has been read. -/
theorem exists_finish? {p : Position} {sequence : List Item} (hp : p.state = 1)
    (h : p.reorder d [] = .ok sequence) : ∃ e, p.finish? = some e := by
  cases p with
  | expecting stack => cases hp
  | called stack m op => cases hp
  | having stack e =>
    rw [reorder_having, reorderFrom] at h
    obtain ⟨ops, hdr, -⟩ := bind_eq_ok_iff.1 h
    obtain ⟨a, hs⟩ := exists_settle_of_drain e hdr
    exact ⟨a, finish?_eq_some_iff.2 ⟨stack, e, rfl, hs⟩⟩

end Position

/-- Tokens that the grammar accepts and that make up a tree are read. -/
theorem exists_read?_of_fold {d : Dialect} (hd : d.ArityMatched) {ts : List (Token TokenKind)}
    {s : Nat} {sequence : List Item} {o : Operation} (ha : expressionGrammar.after? 0 ts = some s)
    (hr : Postfix.reorder d ts = .ok sequence) (hf : fold sequence = .ok o) :
    ∃ e, read? d ts = some e := by
  have hf := fold_eq_ok_iff.1 hf
  obtain ⟨hw, hvs⟩ := reorderFrom_spec hd (show Seated [] from trivial) hr
  have h1 : tokensWeight ts = 1 := by
    have hlen := length_of_foldlM_push hf
    simp [hw] at hlen
    omega
  obtain ⟨hs, hle⟩ := tokensWeight_le (Nat.zero_le 1) ha
  obtain rfl : s = 1 := by omega
  have hv : ∀ t ∈ ts, t.kind = .operand ∨ t.kind = .null → ∃ v, resolve t = .ok v := by
    intro t ht hk
    refine resolve_of_foldlM_push hf (mem_of_mem_values ?_)
    rw [hvs]
    simpa [operands, ht] using hk
  have hempty : (Position.expecting []).Valid d := trivial
  have hstart : (Position.expecting []).reorder d ts = .ok sequence := by
    rw [Position.reorder_expecting]
    exact hr
  obtain ⟨q, hq, hqs⟩ := Position.exists_run hd hempty hstart ha (by simp [Position.state, h1]) hv
  obtain ⟨added, hadd, -⟩ := Position.reorder_run hd hempty hq
  rw [hstart, eq_comm, map_eq_ok_iff] at hadd
  obtain ⟨rest, hrest, -⟩ := hadd
  obtain ⟨e, he⟩ := Position.exists_finish? hqs hrest
  exact ⟨e, by rw [read?, hq, Option.bind_some, he]⟩

end Criteria

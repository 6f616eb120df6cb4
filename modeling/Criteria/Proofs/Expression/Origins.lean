import Criteria.Dialect.Builtin
import Criteria.Proofs.Expression.Errors
import Criteria.Proofs.Expression.Runs

/-!
# Where the elements of a sequence come from

Putting tokens in order neither loses nor repeats anything: what is written is what the tokens give
(`Run.conserves`), the operands in their order. The operators move. `CallSpan` says which tokens a call
is made of: its method is written behind everything that comes of the tokens in its brackets and in
front of everything that comes of the tokens behind them (`Run.traces`).

What is followed for this is the stack. `Held` ties each operator that waits to its token, and each
method to the bracket behind it, which has not been closed.
-/

namespace Criteria

namespace Postfix

variable {d : Dialect}

/-! ### What tokens give -/

/-- What tokens give, in the order of the tokens, each element with the place of its token: operands
give themselves and operators what the dialect knows them as. Brackets and separators give nothing. -/
inductive Given (d : Dialect) : Nat → List (Token TokenKind) → List (Nat × Item) → Prop where
  | nil (n : Nat) : Given d n [] []
  | value {n : Nat} {t : Token TokenKind} {ts : List (Token TokenKind)} {given : List (Nat × Item)}
      (hk : t.kind = .operand ∨ t.kind = .null) (h : Given d (n + 1) ts given) :
      Given d n (t :: ts) ((n, .value t) :: given)
  | operator {n : Nat} {t : Token TokenKind} {ts : List (Token TokenKind)}
      {given : List (Nat × Item)} {op : Operator} (hk : t.kind ∈ TokenKind.operators)
      (hop : lookUp d t = .ok op) (h : Given d (n + 1) ts given) :
      Given d n (t :: ts) ((n, .operator op) :: given)
  | nothing {n : Nat} {t : Token TokenKind} {ts : List (Token TokenKind)}
      {given : List (Nat × Item)}
      (hk : t.kind = .bracketOpen ∨ t.kind = .bracketClose ∨ t.kind = .separator)
      (h : Given d (n + 1) ts given) : Given d n (t :: ts) given

/-- The operators of a sequence. -/
def operators (sequence : List Item) : List Operator :=
  sequence.filterMap fun
    | .value _ => none
    | .operator op => some op

/-- The tokens of operators. -/
def operatorTokens (ts : List (Token TokenKind)) : List (Token TokenKind) :=
  ts.filter (·.kind ∈ TokenKind.operators)

theorem Given.operators_eq {n : Nat} {ts : List (Token TokenKind)} {given : List (Nat × Item)}
    (h : Given d n ts given) :
    (operatorTokens ts).mapM (lookUp d) = .ok (operators (given.map Prod.snd)) := by
  rw [mapM_eq_ok_iff]
  induction h with
  | nil => exact .nil
  | value hk _ ih => rcases hk with hk | hk <;> simpa [operatorTokens, hk, TokenKind.operators] using! ih
  | operator hk hop _ ih => simpa [operatorTokens, hk, operators, hop] using ih
  | nothing hk _ ih =>
    rcases hk with hk | hk | hk <;> simpa [operatorTokens, hk, TokenKind.operators] using ih

theorem Given.le {n : Nat} {ts : List (Token TokenKind)} {given : List (Nat × Item)}
    (h : Given d n ts given) {e : Nat × Item} (he : e ∈ given) : n ≤ e.1 := by
  induction h with
  | nil => cases he
  | value _ _ ih | operator _ _ _ ih =>
    rcases List.mem_cons.1 he with rfl | he
    · exact Nat.le_refl _
    · exact Nat.le_of_succ_le (ih he)
  | nothing _ _ ih => exact Nat.le_of_succ_le (ih he)

/-- Every operator among the tokens is given. -/
theorem Given.exists_mem {n p : Nat} {ts : List (Token TokenKind)} {given : List (Nat × Item)}
    {t : Token TokenKind} (h : Given d n ts given) (ht : ts[p]? = some t)
    (hk : t.kind ∈ TokenKind.operators) : ∃ op, (n + p, .operator op) ∈ given := by
  induction h generalizing p with
  | nil => cases ht
  | value hu _ ih =>
    rcases p with _ | p
    · cases ht
      rcases hu with hu | hu <;> simp [hu, TokenKind.operators] at hk
    · obtain ⟨op, hop⟩ := ih ht
      exact ⟨op, List.mem_cons_of_mem _ (Nat.add_right_comm _ 1 p ▸ hop)⟩
  | operator _ _ _ ih =>
    rcases p with _ | p
    · exact ⟨_, List.mem_cons_self⟩
    · obtain ⟨op, hop⟩ := ih ht
      exact ⟨op, List.mem_cons_of_mem _ (Nat.add_right_comm _ 1 p ▸ hop)⟩
  | nothing hu _ ih =>
    rcases p with _ | p
    · cases ht
      rcases hu with hu | hu | hu <;> simp [hu, TokenKind.operators] at hk
    · obtain ⟨op, hop⟩ := ih ht
      exact ⟨op, Nat.add_right_comm _ 1 p ▸ hop⟩

/-- The operators on a stack with the places they come from. -/
def pending (stack : List (Nat × Waiting)) : List (Nat × Operator) :=
  stack.filterMap fun
    | (_, .bracket _) => none
    | (p, .operator op) | (p, .method op _ _) => some (p, op)

@[simp] theorem pending_operator (p : Nat) (op : Operator) (stack : List (Nat × Waiting)) :
    pending ((p, .operator op) :: stack) = (p, op) :: pending stack := rfl

@[simp] theorem pending_method (p : Nat) (op : Operator) (k offset : Nat)
    (stack : List (Nat × Waiting)) :
    pending ((p, .method op k offset) :: stack) = (p, op) :: pending stack := rfl

@[simp] theorem pending_bracket (p : Nat) (b : Token TokenKind) (stack : List (Nat × Waiting)) :
    pending ((p, .bracket b) :: stack) = pending stack := rfl

@[simp] theorem pending_stacked_append (ops : List (Nat × Operator)) (stack : List (Nat × Waiting)) :
    pending (stacked ops ++ stack) = ops ++ pending stack := by
  induction ops with
  | nil => rfl
  | cons op ops ih => exact congrArg (op :: ·) ih

@[simp] theorem written_append (a b : List (Nat × Operator)) :
    written (a ++ b) = written a ++ written b := List.map_append

@[simp] theorem written_cons (p : Nat) (op : Operator) (ops : List (Nat × Operator)) :
    written ((p, op) :: ops) = (p, .operator op) :: written ops := rfl

/-- **A run writes what waits and what its tokens give.** -/
theorem Run.conserves {n : Nat} {stack : List (Nat × Waiting)} {ts : List (Token TokenKind)}
    {output : List (Nat × Item)} (h : Run d n stack ts output) :
    ∃ given, Given d n ts given ∧ output.Perm (written (pending stack) ++ given) := by
  induction h with
  | done n ops =>
    have hops := pending_stacked_append ops []
    rw [List.append_nil] at hops
    refine ⟨[], .nil n, ?_⟩
    rw [hops]
    simp [pending]
  | value hk _ ih =>
    obtain ⟨given, hgiven, hperm⟩ := ih
    exact ⟨_, .value hk hgiven, (hperm.cons _).trans List.perm_middle.symm⟩
  | before ht _ ih =>
    obtain ⟨given, hgiven, hperm⟩ := ih
    refine ⟨_, .operator (by simp [ht.1, TokenKind.operators]) (lookUp_eq_ok_iff.2 ht.2) hgiven, ?_⟩
    exact hperm.trans List.perm_middle.symm
  | between ht released _ ih =>
    obtain ⟨given, hgiven, hperm⟩ := ih
    refine ⟨_, .operator (by simp [ht.1, TokenKind.operators]) (lookUp_eq_ok_iff.2 ht.2) hgiven, ?_⟩
    rw [pending_stacked_append, written_append, List.append_assoc]
    exact (hperm.trans List.perm_middle.symm).append_left _
  | called ht hb _ ih =>
    obtain ⟨given, hgiven, hperm⟩ := ih
    refine ⟨_, .operator (by simp [ht.1, TokenKind.operators]) (lookUp_eq_ok_iff.2 ht.2)
      (.nothing (.inl hb) hgiven), ?_⟩
    exact hperm.trans List.perm_middle.symm
  | opened hk _ ih =>
    obtain ⟨given, hgiven, hperm⟩ := ih
    exact ⟨given, .nothing (.inl hk) hgiven, hperm⟩
  | closed hk released _ ih | separated hk released _ ih =>
    obtain ⟨given, hgiven, hperm⟩ := ih
    refine ⟨given, .nothing (by simp [hk]) hgiven, ?_⟩
    rw [pending_stacked_append, written_append, List.append_assoc]
    exact hperm.append_left _
  | returned hk released _ ih =>
    obtain ⟨given, hgiven, hperm⟩ := ih
    refine ⟨given, .nothing (by simp [hk]) hgiven, ?_⟩
    rw [pending_stacked_append, written_append, List.append_assoc]
    exact (hperm.cons _).append_left _

/-! ### The tokens of a call -/

/-- What a token does to a number of open brackets; there is none where it closes another bracket. -/
def nest (k : Nat) (t : Token TokenKind) : Option Nat :=
  match t.kind, k with
  | .bracketOpen, k => some (k + 1)
  | .bracketClose, 0 => none
  | .bracketClose, k + 1 => some k
  | _, k => some k

/-- How many brackets are open in front of place `b` of those that are opened from place `a` on; there
is no such number where one more is closed. -/
def depth? (ts : List (Token TokenKind)) (a b : Nat) : Option Nat := ((ts.take b).drop a).foldlM nest 0

/-- Whether the tokens from place `m` to place `c` are a call: a method, its bracket, tokens in which
every bracket is closed that is opened, and the bracket that closes the call. -/
structure CallSpan (ts : List (Token TokenKind)) (m c : Nat) : Prop where
  method : ts[m]?.map Token.kind = some .method
  opened : ts[m + 1]?.map Token.kind = some .bracketOpen
  le : m + 2 ≤ c
  inside : depth? ts (m + 2) c = some 0
  closed : ts[c]?.map Token.kind = some .bracketClose

theorem nest_succ {k k' : Nat} {t : Token TokenKind} (h : nest k t = some k') :
    nest (k + 1) t = some (k' + 1) := by
  obtain ⟨kind, text, start⟩ := t
  cases kind <;> cases k <;> cases h <;> rfl

theorem depth?_self (ts : List (Token TokenKind)) (a : Nat) : depth? ts a a = some 0 := by
  rw [depth?, List.drop_take_self]
  rfl

theorem depth?_succ {ts : List (Token TokenKind)} {a b : Nat} {t : Token TokenKind} (hab : a ≤ b)
    (ht : ts[b]? = some t) : depth? ts a (b + 1) = (depth? ts a b).bind (nest · t) := by
  have hlen : a ≤ (ts.take b).length := by
    have hb := (List.getElem?_eq_some_iff.1 ht).1
    rw [List.length_take]
    omega
  rw [depth?, List.take_add_one, ht, List.drop_append_of_le_length hlen, List.foldlM_append]
  simp [depth?]

/-- Behind a call there is no number of brackets that are open in it. -/
theorem CallSpan.le_of_depth? {ts : List (Token TokenKind)} {m c n k : Nat} (h : CallSpan ts m c)
    (hn : depth? ts (m + 2) n = some k) : n ≤ c := by
  by_contra hlt
  obtain ⟨t, ht, hk⟩ := Option.map_eq_some_iff.1 h.closed
  have hclosed : depth? ts (m + 2) (c + 1) = none := by
    rw [depth?_succ h.le ht, h.inside]
    simp [nest, hk]
  have hsplit : (ts.take n).drop (m + 2) =
      (ts.take (c + 1)).drop (m + 2) ++ (ts.take n).drop (c + 1) := by
    have hlen : m + 2 ≤ (ts.take (c + 1)).length := by
      have hc := (List.getElem?_eq_some_iff.1 ht).1
      have hle := h.le
      rw [List.length_take]
      omega
    rw [← List.drop_append_of_le_length hlen, ← Nat.min_eq_left (show c + 1 ≤ n by omega),
      ← List.take_take, Nat.min_eq_left (by omega), List.take_append_drop]
  rw [depth?, hsplit, List.foldlM_append, ← depth?, hclosed] at hn
  cases hn

/-! ### The stack -/

/-- Whether what waits comes from the tokens in front of place `n`, where `k` brackets are open above
it. A method waits for the bracket behind it to be closed, above what comes from tokens before it. -/
inductive Held (ts : List (Token TokenKind)) (n : Nat) : Nat → List (Nat × Waiting) → Prop where
  | nil (k : Nat) : Held ts n k []
  | bracket {k p : Nat} {b : Token TokenKind} {stack : List (Nat × Waiting)}
      (h : Held ts n (k + 1) stack) : Held ts n k ((p, .bracket b) :: stack)
  | operator {k p : Nat} {op : Operator} {stack : List (Nat × Waiting)}
      (hk : ts[p]?.map Token.kind ≠ some .method) (hp : p < n) (h : Held ts n k stack) :
      Held ts n k ((p, .operator op) :: stack)
  | method {k p count offset : Nat} {op : Operator} {stack : List (Nat × Waiting)}
      (hk : ts[p]?.map Token.kind = some .method)
      (hb : ts[p + 1]?.map Token.kind = some .bracketOpen) (hp : p + 2 ≤ n)
      (hdepth : depth? ts (p + 2) n = some k) (hbelow : ∀ m ∈ pending stack, m.1 < p)
      (h : Held ts n k stack) : Held ts n k ((p, .method op count offset) :: stack)

variable {all ts : List (Token TokenKind)} {n k : Nat} {stack : List (Nat × Waiting)}
  {output : List (Nat × Item)}

theorem Held.lt (h : Held all n k stack) : ∀ m ∈ pending stack, m.1 < n := by
  induction h with
  | nil => nofun
  | bracket _ ih => exact ih
  | operator _ hp _ ih => exact List.forall_mem_cons.2 ⟨hp, ih⟩
  | method _ _ hp _ _ _ ih => exact List.forall_mem_cons.2 ⟨by omega, ih⟩

/-- A token that closes no bracket below leaves what waits where it is. -/
theorem Held.read {k' : Nat} {t : Token TokenKind} (h : Held all n k stack) (ht : all[n]? = some t)
    (hn : nest k t = some k') : Held all (n + 1) k' stack := by
  induction h generalizing k' with
  | nil => exact .nil k'
  | bracket _ ih => exact .bracket (ih (nest_succ hn))
  | operator hk hp _ ih => exact .operator hk (Nat.lt_succ_of_lt hp) (ih hn)
  | method hk hb hp hdepth hbelow _ ih =>
    refine .method hk hb (Nat.le_succ_of_le hp) ?_ hbelow (ih hn)
    rw [depth?_succ hp ht, hdepth, Option.bind_some, hn]

/-- Operators on top have been read, and are no methods. -/
theorem Held.of_stacked {ops : List (Nat × Operator)} (h : Held all n k (stacked ops ++ stack)) :
    (∀ e ∈ ops, e.1 < n ∧ all[e.1]?.map Token.kind ≠ some .method) ∧ Held all n k stack := by
  induction ops with
  | nil => exact ⟨nofun, h⟩
  | cons op ops ih =>
    cases h with
    | operator hk hp h =>
      obtain ⟨hops, h⟩ := ih h
      exact ⟨List.forall_mem_cons.2 ⟨⟨hp, hk⟩, hops⟩, h⟩

/-- A method that waits has its closing bracket among the tokens to come. -/
theorem Held.le_of_callSpan {c : Nat} {m : Nat × Operator} (h : Held all n k stack)
    (hm : m ∈ pending stack) (hc : CallSpan all m.1 c) : n ≤ c := by
  induction h with
  | nil => cases hm
  | bracket _ ih => exact ih hm
  | operator hk _ _ ih =>
    rcases List.mem_cons.1 hm with rfl | hm
    · exact absurd hc.method hk
    · exact ih hm
  | method _ _ _ hdepth _ _ ih =>
    rcases List.mem_cons.1 hm with rfl | hm
    · exact hc.le_of_depth? hdepth
    · exact ih hm

/-! ### Order -/

/-- Whether what comes from place `p` may stand in front of what comes from place `q`: not if `p` is a
method and `q` in its brackets, or if `q` is a method and `p` behind its brackets. -/
def Precedes (ts : List (Token TokenKind)) (p q : Nat) : Prop :=
  (∀ c, CallSpan ts p c → q < p ∨ c < q) ∧ ∀ c, CallSpan ts q c → p < c

/-- What a run writes has been waiting or comes from its tokens. -/
theorem Run.mem_pending_or_le (h : Run d n stack ts output) {e : Nat × Item} (he : e ∈ output) :
    (∃ m ∈ pending stack, m.1 = e.1) ∨ n ≤ e.1 := by
  obtain ⟨given, hgiven, hperm⟩ := h.conserves
  rcases List.mem_append.1 (hperm.mem_iff.1 he) with he | he
  · obtain ⟨m, hm, rfl⟩ := List.mem_map.1 he
    exact .inl ⟨m, hm, rfl⟩
  · exact .inr (hgiven.le he)

theorem Run.le_of_callSpan {c : Nat} (h : Run d n stack ts output) (hheld : Held all n 0 stack)
    {e : Nat × Item} (he : e ∈ output) (hc : CallSpan all e.1 c) : n ≤ c := by
  rcases h.mem_pending_or_le he with ⟨m, hm, hme⟩ | hle
  · exact hheld.le_of_callSpan hm (hme ▸ hc)
  · have := hc.le
    omega

/-- Whether elements are in order, and every method among them has been called. -/
def Ordered (ts : List (Token TokenKind)) (output : List (Nat × Item)) : Prop :=
  (output.Pairwise fun a b => Precedes ts a.1 b.1) ∧
    ∀ e ∈ output, ts[e.1]?.map Token.kind = some .method → ∃ c, CallSpan ts e.1 c

theorem Ordered.cons {e : Nat × Item} (h : Ordered all output)
    (hk : all[e.1]?.map Token.kind ≠ some .method)
    (hlate : ∀ f ∈ output, ∀ c, CallSpan all f.1 c → e.1 < c) : Ordered all (e :: output) :=
  ⟨List.pairwise_cons.2 ⟨fun f hf => ⟨fun _ hc => absurd hc.method hk, hlate f hf⟩, h.1⟩,
    List.forall_mem_cons.2 ⟨fun hm => absurd hm hk, h.2⟩⟩

/-- Operators that are no methods may be written in front of what the tokens to come give. -/
theorem Ordered.written_append {ops : List (Nat × Operator)} (h : Ordered all output)
    (hops : ∀ e ∈ ops, e.1 < n ∧ all[e.1]?.map Token.kind ≠ some .method)
    (hlate : ∀ e ∈ output, ∀ c, CallSpan all e.1 c → n ≤ c) : Ordered all (written ops ++ output) := by
  induction ops with
  | nil => exact h
  | cons op ops ih =>
    obtain ⟨⟨hp, hk⟩, hops⟩ := List.forall_mem_cons.1 hops
    refine (ih hops).cons hk fun e he c hc => ?_
    rcases List.mem_append.1 he with he | he
    · obtain ⟨o, ho, rfl⟩ := List.mem_map.1 he
      exact absurd hc.method (hops o ho).2
    · exact Nat.lt_of_lt_of_le hp (hlate e he c hc)

/-- A method may be written where its call ends, in front of what comes from its left or from behind
the call. -/
theorem Ordered.method {p : Nat} {op : Operator} (h : Ordered all output) (hspan : CallSpan all p n)
    (hout : ∀ e ∈ output, e.1 < p ∨ n < e.1)
    (hlate : ∀ e ∈ output, ∀ c, CallSpan all e.1 c → n < c) :
    Ordered all ((p, .operator op) :: output) := by
  have hpn : p + 2 ≤ n := hspan.le
  refine ⟨List.pairwise_cons.2 ⟨fun e he => ⟨fun c hc => ?_, fun c hc => ?_⟩, h.1⟩,
    List.forall_mem_cons.2 ⟨fun _ => ⟨n, hspan⟩, h.2⟩⟩
  · have hcn : c ≤ n := hspan.le_of_depth? hc.inside
    have := hout e he
    omega
  · have := hlate e he c hc
    omega

/-- What is released in front of a token stands in front of what the tokens behind it give. -/
theorem Run.ordered_written_append {ops : List (Nat × Operator)} (hrun : Run d (n + 1) stack ts output)
    (hheld : Held all (n + 1) 0 stack) (h : Ordered all output)
    (hops : ∀ e ∈ ops, e.1 < n ∧ all[e.1]?.map Token.kind ≠ some .method) :
    Ordered all (written ops ++ output) :=
  h.written_append hops fun _ he _ hc => Nat.le_of_succ_le (hrun.le_of_callSpan hheld he hc)

theorem getElem?_of_drop_eq_cons {t : Token TokenKind} (h : all.drop n = t :: ts) :
    all[n]? = some t ∧ all.drop (n + 1) = ts := by
  constructor
  · rw [← Nat.add_zero n, ← List.getElem?_drop, h]
    rfl
  · rw [← List.drop_drop, h]
    rfl

theorem nest_eq_self {t : Token TokenKind} (k : Nat) (ho : t.kind ≠ .bracketOpen)
    (hc : t.kind ≠ .bracketClose) : nest k t = some k := by
  obtain ⟨kind, text, start⟩ := t
  cases kind
  case bracketOpen => exact absurd rfl ho
  case bracketClose => exact absurd rfl hc
  all_goals rfl

/-- **What a run writes is in order, and every method that it writes has been called.** -/
theorem Run.ordered (h : Run d n stack ts output) (hts : all.drop n = ts)
    (hheld : Held all n 0 stack) : Ordered all output := by
  induction h with
  | done n ops =>
    rw [← List.append_nil (stacked ops)] at hheld
    have hordered : Ordered all [] := ⟨.nil, nofun⟩
    simpa using hordered.written_append hheld.of_stacked.1 nofun
  | @value n t ts stack output h hrun ih =>
    obtain ⟨ht, hts⟩ := getElem?_of_drop_eq_cons hts
    have hnest : nest 0 t = some 0 := by rcases h with h | h <;> simp [nest, h]
    have hheld := hheld.read ht hnest
    refine (ih hts hheld).cons (e := (n, .value t)) ?_ fun f hf c hc => hrun.le_of_callSpan hheld hf hc
    rcases h with h | h <;> simp [ht, h]
  | @before n t ts op stack output h hrun ih =>
    obtain ⟨ht, hts⟩ := getElem?_of_drop_eq_cons hts
    have hheld := hheld.read ht (nest_eq_self 0 (by simp [h.1]) (by simp [h.1]))
    exact ih hts (.operator (by simp [ht, h.1]) (Nat.lt_succ_self _) hheld)
  | @between n t ts op stack output h released hrun ih =>
    obtain ⟨ht, hts⟩ := getElem?_of_drop_eq_cons hts
    obtain ⟨hreleased, hheld⟩ := hheld.of_stacked
    have hheld : Held all (n + 1) 0 ((n, .operator op) :: stack) :=
      .operator (by simp [ht, h.1]) (Nat.lt_succ_self _)
        (hheld.read ht (nest_eq_self 0 (by simp [h.1]) (by simp [h.1])))
    exact hrun.ordered_written_append hheld (ih hts hheld) hreleased
  | @called n t b ts op stack output h hb hrun ih =>
    obtain ⟨ht, hts⟩ := getElem?_of_drop_eq_cons hts
    obtain ⟨hbt, hts⟩ := getElem?_of_drop_eq_cons hts
    have hbelow := hheld.lt
    have hheld := hheld.read ht (nest_eq_self 0 (by simp [h.1]) (by simp [h.1]))
    have hheld : Held all (n + 2) 1 stack := hheld.read hbt (by simp [nest, hb])
    exact ih hts (.method (by simp [ht, h.1]) (by simp [hbt, hb]) (Nat.le_refl _)
      (depth?_self all (n + 2)) hbelow (.bracket hheld))
  | opened h hrun ih =>
    obtain ⟨ht, hts⟩ := getElem?_of_drop_eq_cons hts
    exact ih hts (.bracket (hheld.read ht (by simp [nest, h])))
  | closed h released hrun ih =>
    obtain ⟨ht, hts⟩ := getElem?_of_drop_eq_cons hts
    obtain ⟨hreleased, hheld⟩ := hheld.of_stacked
    obtain _ | hheld := hheld
    have hheld := hheld.read ht (show nest 1 _ = some 0 by simp [nest, h])
    exact hrun.ordered_written_append hheld (ih hts hheld) hreleased
  | @returned n p q offset t b ts op stack output h released hrun ih =>
    obtain ⟨ht, hts⟩ := getElem?_of_drop_eq_cons hts
    obtain ⟨hreleased, hheld⟩ := hheld.of_stacked
    obtain _ | _ | _ | ⟨hk, hb, hp, hdepth, hbelow, hheld⟩ := hheld
    obtain _ | hheld := hheld
    have hheld := hheld.read ht (show nest 1 _ = some 0 by simp [nest, h])
    have hspan : CallSpan all p n := ⟨hk, hb, hp, hdepth, by simp [ht, h]⟩
    have hlate (e : Nat × Item) (he : e ∈ output) (c : Nat) (hc : CallSpan all e.1 c) : n + 1 ≤ c :=
      hrun.le_of_callSpan hheld he hc
    have hout (e : Nat × Item) (he : e ∈ output) : e.1 < p ∨ n < e.1 := by
      rcases hrun.mem_pending_or_le he with ⟨m, hm, hme⟩ | hle
      · exact .inl (hme ▸ hbelow m hm)
      · exact .inr hle
    refine ((ih hts hheld).method hspan hout hlate).written_append hreleased ?_
    exact List.forall_mem_cons.2
      ⟨fun c hc => hc.le_of_depth? hdepth, fun e he c hc => Nat.le_of_succ_le (hlate e he c hc)⟩
  | @separated n p k offset t ts op stack output h released hrun ih =>
    obtain ⟨ht, hts⟩ := getElem?_of_drop_eq_cons hts
    obtain ⟨hreleased, hheld⟩ := hheld.of_stacked
    have hheld := hheld.read ht (nest_eq_self 0 (by simp [h]) (by simp [h]))
    have hheld : Held all (n + 1) 0 ((p, .method op (k + 1) offset) :: stack) := by
      obtain _ | _ | _ | ⟨hk, hb, hp, hdepth, hbelow, hheld⟩ := hheld
      exact .method hk hb hp hdepth hbelow hheld
    exact hrun.ordered_written_append hheld (ih hts hheld) hreleased

/-- **Putting tokens in order loses nothing and repeats nothing.** The operands are written in their
order. The operators are written as often as tokens give them. With the places of their tokens the
elements are those that the tokens give, in another order; every method has been called, and stands
behind what comes from its brackets and in front of what comes from the tokens behind them. -/
theorem reorder_conserves {sequence : List Item} (h : reorder d ts = .ok sequence) :
    values sequence = operands ts ∧
      (∃ ops, (operatorTokens ts).mapM (lookUp d) = .ok ops ∧ (operators sequence).Perm ops) ∧
      ∃ given output, Given d 0 ts given ∧ output.Perm given ∧ output.map Prod.snd = sequence ∧
        ∀ m, ts[m]?.map Token.kind = some .method →
          (∃ c, CallSpan ts m c) ∧ ∀ c, CallSpan ts m c →
            ∃ inner op outer, output = inner ++ (m, .operator op) :: outer ∧
              (∀ e ∈ inner, e.1 < c) ∧ ∀ e ∈ outer, e.1 < m ∨ c < e.1 := by
  obtain ⟨output, rfl, hrun⟩ := exists_run_of_reorder h
  obtain ⟨given, hgiven, hperm⟩ := hrun.conserves
  have hordered : Ordered ts output := hrun.ordered List.drop_zero (.nil 0)
  refine ⟨hrun.values_eq, ⟨_, hgiven.operators_eq, (hperm.map Prod.snd).filterMap _⟩, given, output,
    hgiven, hperm, rfl, fun m hm => ?_⟩
  obtain ⟨t, ht, hk⟩ := Option.map_eq_some_iff.1 hm
  obtain ⟨op, hop⟩ := hgiven.exists_mem ht (by simp [hk, TokenKind.operators])
  rw [Nat.zero_add] at hop
  have hmem : (m, .operator op) ∈ output := hperm.mem_iff.2 hop
  refine ⟨hordered.2 _ hmem hm, fun c hc => ?_⟩
  obtain ⟨inner, outer, rfl⟩ := List.append_of_mem hmem
  obtain ⟨-, houter, hinner⟩ := List.pairwise_append.1 hordered.1
  exact ⟨inner, op, outer, rfl, fun e he => (hinner e he _ List.mem_cons_self).2 c hc,
    fun e he => ((List.pairwise_cons.1 houter).1 e he).1 c hc⟩

/-- In `! startsWith(a || b + c, d) && e` two operators wait in front of a separator, one in front of a
call and one to the end. -/
theorem reorder_conserves_startsWith :
    let d : Dialect := {
      name := "sharp"
      caseSensitive := false
      spellings := DialectDraft.sharp.spellings
      rules := []
      lexer := ⟨.ofDefinitions [], expressionGrammar⟩ }
    let ts : List (Token TokenKind) :=
      [⟨.unaryOperator, "!", 0⟩, ⟨.method, "startsWith", 2⟩, ⟨.bracketOpen, "(", 12⟩,
        ⟨.operand, "a", 13⟩, ⟨.binaryOperator, "||", 15⟩, ⟨.operand, "b", 18⟩,
        ⟨.binaryOperator, "+", 20⟩, ⟨.operand, "c", 22⟩, ⟨.separator, ",", 23⟩, ⟨.operand, "d", 25⟩,
        ⟨.bracketClose, ")", 26⟩, ⟨.binaryOperator, "&&", 28⟩, ⟨.operand, "e", 31⟩]
    let sequence : List Item :=
      [.value ⟨.operand, "a", 13⟩, .value ⟨.operand, "b", 18⟩, .value ⟨.operand, "c", 22⟩,
        .operator .add, .operator .or, .value ⟨.operand, "d", 25⟩, .operator .startsWith,
        .operator .not, .value ⟨.operand, "e", 31⟩, .operator .and]
    reorder d ts = .ok sequence ∧ CallSpan ts 1 10 ∧
      ∃ output inner op outer, output.map Prod.snd = sequence ∧
        output = inner ++ (1, .operator op) :: outer ∧ (∀ e ∈ inner, e.1 < 10) ∧
          ∀ e ∈ outer, e.1 < 1 ∨ 10 < e.1 := by
  intro d ts sequence
  have hsequence : reorder d ts = .ok sequence := rfl
  have hspan : CallSpan ts 1 10 := ⟨rfl, rfl, by decide, rfl, rfl⟩
  obtain ⟨-, -, given, output, -, -, houtput, hcalls⟩ := reorder_conserves hsequence
  obtain ⟨inner, op, outer, hsplit, hinner, houter⟩ := (hcalls 1 rfl).2 10 hspan
  exact ⟨hsequence, hspan, output, inner, op, outer, houtput, hsplit, hinner, houter⟩

end Postfix

end Criteria

import Criteria.Proofs.Dialect.Spacing
import Criteria.Proofs.Expression.Paths
import Criteria.Proofs.Expression.Verdict

/-!
# Methods and their brackets

The guard of a method looks for an opening bracket in the text behind the name. The token behind the
name is found by the scan, which skips blanks, tries one pattern after the other and asks the grammar.
Both see the same bracket: its pattern is the first one that is tried, and it may come next
(`Spaceable.exists_cons_of_bracket`). Behind an operand no bracket may come next.

So in a built-in dialect the error about a method without a bracket does not occur. Neither does that
about an operand which names nothing: whatever is found as an operand has a character that does not
separate segments (`IsOperandText.exists_not_isSeparator`).
-/

namespace Criteria

open Text Scanner TokenPattern

/-- Whether the next token behind a method is an opening bracket, and that behind an operand none. -/
structure CallsOpen (ts : List (Token TokenKind)) : Prop where
  method : ∀ front t rest, ts = front ++ t :: rest → t.kind = .method →
    ∃ b ∈ rest.head?, b.kind = .bracketOpen
  operand : ∀ front t rest, ts = front ++ t :: rest → t.kind = .operand →
    ∀ b ∈ rest.head?, b.kind ≠ .bracketOpen

theorem CallsOpen.tail {t : Token TokenKind} {ts : List (Token TokenKind)} (h : CallsOpen (t :: ts)) :
    CallsOpen ts :=
  ⟨fun front u rest hsplit => h.method (t :: front) u rest (congrArg (t :: ·) hsplit),
    fun front u rest hsplit => h.operand (t :: front) u rest (congrArg (t :: ·) hsplit)⟩

theorem CallsOpen.cons {t : Token TokenKind} {ts : List (Token TokenKind)} (h : CallsOpen ts)
    (hmethod : t.kind = .method → ∃ b ∈ ts.head?, b.kind = .bracketOpen)
    (hoperand : t.kind = .operand → ∀ b ∈ ts.head?, b.kind ≠ .bracketOpen) : CallsOpen (t :: ts) where
  method front u rest hsplit hk := by
    rcases front with _ | ⟨a, front⟩
    · obtain ⟨rfl, rfl⟩ := List.cons.inj hsplit
      exact hmethod hk
    · exact h.method front u rest (List.cons.inj hsplit).2 hk
  operand front u rest hsplit hk := by
    rcases front with _ | ⟨a, front⟩
    · obtain ⟨rfl, rfl⟩ := List.cons.inj hsplit
      exact hoperand hk
    · exact h.operand front u rest (List.cons.inj hsplit).2 hk

/-! ### What is found behind a method or an operand -/

namespace Spaceable

variable {patterns : List (TokenPattern TokenKind)} {ts : List (Token TokenKind)}
  {text : List Char} {offset state : Nat}

/-- Behind an operand no bracket may be opened. -/
theorem kind_ne_bracketOpen {b : Token TokenKind}
    (h : tokensFrom expressionGrammar (patterns.map definition) offset text 1 = .ok (b :: ts)) :
    b.kind ≠ .bracketOpen := by
  obtain ⟨rest, c, target, _, -, -, hpick, hkind, -⟩ := exists_pick_of_tokensFrom_cons h
  obtain ⟨d, -, -, hckind, hnext⟩ := exists_of_pick? hpick
  intro hb
  rw [← hckind, ← hkind, hb] at hnext
  cases hnext

/-- The tokens of a text open a bracket behind every method, and behind no operand. -/
theorem callsOpen (hp : Spaceable patterns)
    (h : tokensFrom expressionGrammar (patterns.map definition) offset text state = .ok ts) :
    CallsOpen ts := by
  induction ts generalizing offset text state with
  | nil => exact ⟨by simp, by simp⟩
  | cons u ts ih =>
    obtain ⟨rest, c, target, offset', -, -, hpick, hkind, -, hts⟩ := exists_pick_of_tokensFrom_cons h
    obtain ⟨before, t, after, x, tail, hsplit, rfl, hsize, hckind, -, hfollows, hnext, -⟩ :=
      exists_split_of_pick? (fun t ht => (hp.plain t ht).1) hpick
    rw [← hsize, List.drop_left] at hts
    refine (ih hts).cons (fun hk => ?_) fun hk => ?_
    · -- the guard has seen a bracket, and the scan goes on in front of an operand
      have ht : t ∈ patterns := by simp [hsplit]
      have hmethod : t.kind = .method := by rw [← hckind, ← hkind, hk]
      have hcall := hp.call t ht hmethod
      obtain ⟨blanks, more, rfl, hblanks⟩ := (follows_call_iff hcall).1 hfollows
      rw [hmethod] at hnext
      rcases state_of_next? hnext with rfl | rfl
      · cases hnext
        obtain ⟨b, us, rfl, hb, -⟩ := hp.exists_cons_of_bracket hblanks hts
        exact ⟨b, rfl, hb⟩
      · cases hnext
    · rw [← hckind, ← hkind, hk] at hnext
      rcases state_of_next? hnext with rfl | rfl
      · cases hnext
        rintro b hb
        obtain ⟨us, rfl⟩ := List.head?_eq_some_iff.1 hb
        exact kind_ne_bracketOpen hts
      · cases hnext

end Spaceable

/-! ### Errors that do not occur -/

namespace Postfix

variable {d : Dialect} {ts : List (Token TokenKind)}

/-- No bracket is missing behind a method where every method is followed by one. -/
theorem openBehind_ne_missing {opened : List OpenBracket} (hts : CallsOpen ts) {method : String}
    {offset : Nat} : openBehind d opened ts ≠ .error (.missingMethodBracket method offset) := by
  intro h
  have hlook {t : Token TokenKind} : lookUp d t ≠ .error (.missingMethodBracket method offset) :=
    fun h => by cases (lookUp_eq_error_iff.1 h).2
  fun_induction openBehind d opened ts with
  | case1 opened => cases h
  | case2 opened t ts hk ih | case3 opened t ts hk ih | case7 opened t ts hk ih => exact ih hts.tail h
  | case4 opened t ts hk ih | case5 opened t ts hk ih =>
    rcases bind_eq_error_iff.1 h with h | ⟨op, -, h⟩
    · exact hlook h
    · exact ih hts.tail h
  | case6 opened t ts hk ih =>
    rcases bind_eq_error_iff.1 h with h | ⟨op, -, h⟩
    · exact hlook h
    obtain ⟨b, hb, hopen⟩ := hts.method [] t ts rfl hk
    obtain ⟨ts, rfl⟩ := List.head?_eq_some_iff.1 hb
    simp only [hopen, if_true] at h
    exact ih op hts.tail.tail h
  | case8 opened t ts hk ih =>
    rcases bind_eq_error_iff.1 h with h | ⟨opened', -, h⟩
    · unfold closeBracket at h
      split at h
      · cases h
      · cases h
      · split_ifs at h
        cases h
    · exact ih opened' hts.tail h
  | case9 opened t ts hk ih =>
    rcases bind_eq_error_iff.1 h with h | ⟨opened', -, h⟩
    · unfold countArgument at h
      split at h <;> cases h
    · exact ih opened' hts.tail h

/-- So tokens are not put in order, if not, for other reasons. -/
theorem reorder_ne_missing (hts : CallsOpen ts) {method : String} {offset : Nat} :
    reorder d ts ≠ .error (.missingMethodBracket method offset) := by
  intro h
  have hverdict := (reorder_verdict d ts).1
  rw [h] at hverdict
  rcases bind_eq_error_iff.1 hverdict.symm with h | ⟨opened, -, h⟩
  · exact openBehind_ne_missing hts h
  · rcases opened with _ | ⟨b, opened⟩ <;> cases h

theorem reorder_ne_unexpected {offset : Nat} {text : String} :
    reorder d ts ≠ .error (.unexpectedInput offset text) := by
  intro h
  rcases error_of_reorderFrom h with ⟨t, -, -, hlook⟩ | horder
  · cases (lookUp_eq_error_iff.1 hlook).2
  · cases horder

/-- A tree is not built, if not, for other reasons than an operand that names nothing, where every
operand stands for a term. -/
theorem fold_ne_unexpected {sequence : List Item}
    (hvalues : ∀ t ∈ values sequence, ∃ v, resolve t = .ok v) {offset : Nat} {text : String} :
    fold sequence ≠ .error (.unexpectedInput offset text) := by
  have foldlM_ne {stack : List Term} :
      sequence.foldlM push stack ≠ .error (.unexpectedInput offset text) := by
    induction sequence generalizing stack with
    | nil => nofun
    | cons item sequence ih =>
      intro h
      rw [List.foldlM_cons] at h
      rcases bind_eq_error_iff.1 h with h | ⟨stack', -, h⟩
      · obtain ⟨t, rfl, hr⟩ | ⟨op, -, -, ⟨⟩⟩ := push_error_cases h
        obtain ⟨v, hv⟩ := hvalues t List.mem_cons_self
        rw [hv] at hr
        cases hr
      · refine ih (fun t ht => hvalues t ?_) h
        cases item with
        | value u => exact List.mem_cons_of_mem u ht
        | operator op => exact ht
  intro h
  rcases bind_eq_error_iff.1 h with h | ⟨stack, -, h⟩
  · exact foldlM_ne h
  · unfold single at h
    split at h <;> cases h

end Postfix

/-- A text of digits, one at least, has a digit. -/
theorem Numeral.IsNumeral.exists_digit {exponents marks : CharSet} {x : List Char}
    (h : Numeral.IsNumeral exponents marks x) : ∃ c ∈ x, isAsciiDigit c = true := by
  have first {digits : List Char} (hne : digits ≠ []) (hd : Digits digits) :
      ∃ c ∈ digits, isAsciiDigit c = true := by
    obtain ⟨c, more, rfl⟩ := List.exists_cons_of_ne_nil hne
    exact ⟨c, List.mem_cons_self, hd c List.mem_cons_self⟩
  obtain ⟨s, m, e, f, rfl, -, hm, -, -⟩ := h
  have hdigit : ∃ c ∈ m, isAsciiDigit c = true := by
    cases hm with
    | pointed hne hw _ =>
      obtain ⟨c, hc, hdigit⟩ := first hne hw
      exact ⟨c, List.mem_append_left _ hc, hdigit⟩
    | fraction hne hf =>
      obtain ⟨c, hc, hdigit⟩ := first hne hf
      exact ⟨c, List.mem_cons_of_mem _ hc, hdigit⟩
    | whole hne hw => exact first hne hw
  obtain ⟨c, hc, hdigit⟩ := hdigit
  exact ⟨c, by simp [hc], hdigit⟩

/-- The text of an operand has a character that does not separate segments. -/
theorem IsOperandText.exists_not_isSeparator {x : List Char} (h : IsOperandText x) :
    ∃ c ∈ x, FieldPath.isSeparator c = false := by
  have hstarts : ∀ t ∈ operands, t.pattern = Operand.number ∨ t.pattern.advances = true ∧
      ∀ c ∈ ['/', '.', '\\'], t.pattern.mayStart c = false := by decide
  obtain ⟨t, ht, htakes⟩ : ∃ t ∈ operands, t.pattern.Takes x [] := by
    rcases h with ⟨t, ht, htakes⟩ | ⟨hpath, -⟩
    · exact ⟨t, List.mem_append_left _ ht, htakes⟩
    · exact ⟨path, List.mem_append_right _ List.mem_cons_self, hpath⟩
  rcases hstarts t ht with hnumber | ⟨hadvances, hstart⟩
  · rw [hnumber] at htakes
    obtain ⟨y, rfl, hy⟩ := Operand.takes_number.1 htakes
    obtain ⟨c, hc, hdigit⟩ := hy.exists_digit
    have hmarks : ∀ d ∈ ['/', '.', '\\'], isAsciiDigit d = false := by decide
    have hne : ∀ d ∈ ['/', '.', '\\'], c ≠ d := fun d hd => Numeral.digit_ne hdigit (hmarks d hd)
    refine ⟨c, List.mem_append_left _ hc, ?_⟩
    simpa [FieldPath.isSeparator, and_assoc] using hne
  · have hlt := htakes.length_lt hadvances
    rcases htakes.mayStart with rfl | ⟨c, more, rfl, hc⟩
    · exact absurd hlt (Nat.lt_irrefl _)
    · refine ⟨c, List.mem_cons_self, ?_⟩
      by_contra hsep
      simp only [FieldPath.isSeparator, Bool.or_eq_true, beq_iff_eq, Bool.not_eq_false] at hsep
      rw [hstart c (by simpa [or_assoc] using hsep)] at hc
      cases hc

/-- What is found as an operand stands for a term. -/
theorem exists_resolve_of_isOperandText {t : Token TokenKind} (hk : t.kind = .operand)
    (h : IsOperandText t.text.toList) : ∃ v, Postfix.resolve t = .ok v := by
  cases hl : Literal.classify t.text with
  | some v => exact ⟨_, (Postfix.resolve_operand_iff hk).2 (.inl ⟨v, hl, rfl⟩)⟩
  | none =>
    obtain ⟨p, hp⟩ := FieldPath.exists_parse? h.exists_not_isSeparator
    exact ⟨_, (Postfix.resolve_operand_iff hk).2 (.inr ⟨hl, p, hp, rfl⟩)⟩

/-- What is wrong with a text that is not split into tokens is where no token starts. -/
theorem Dialect.exists_of_tokenize_eq_error {d : Dialect} {input : String} {e : SyntaxError}
    (h : d.tokenize input = .error e) : ∃ offset text, e = .unexpectedInput offset text := by
  unfold tokenize Lexer.tokenize Scan.result at h
  split at h
  · cases h
  · cases h
    exact ⟨_, _, rfl⟩

/-- **In a built-in dialect every method is called.** The next token behind a method is an opening
bracket, that behind an operand is none; parsing does not fail for a method without its bracket, and
for unexpected input only if there are no tokens. -/
theorem callsOpen_of_tokenize {draft : DialectDraft} (hd : draft ∈ DialectDraft.builtins)
    {d : Dialect} (hbuild : draft.build = .ok d) (input : String) :
    (∀ ts, d.tokenize input = .ok ts → CallsOpen ts ∧
      ∀ offset text, d.parse input ≠ .error (.unexpectedInput offset text)) ∧
    ∀ method offset, d.parse input ≠ .error (.missingMethodBracket method offset) := by
  obtain ⟨patterns, hpatterns, hp⟩ := exists_spaceable hd
  have hcalls {ts : List (Token TokenKind)} (hts : d.tokenize input = .ok ts) : CallsOpen ts := by
    cases hbuild.symm.trans hpatterns
    exact hp.callsOpen hts
  refine ⟨fun ts hts => ⟨hcalls hts, fun offset text h => ?_⟩, fun method offset h => ?_⟩
  · rw [Dialect.parse, hts, ok_bind] at h
    rcases bind_eq_error_iff.1 h with h | ⟨sequence, hsequence, h⟩
    · exact Postfix.reorder_ne_unexpected h
    refine Postfix.fold_ne_unexpected (fun t ht => ?_) h
    -- the operands of the sequence are those of the text
    rw [Postfix.values_of_reorder hsequence] at ht
    obtain ⟨hmem, hk⟩ := List.mem_filter.1 ht
    rcases of_decide_eq_true hk with hk | hk
    · exact exists_resolve_of_isOperandText hk (isOperandText_of_tokenize hd hbuild hts t hmem hk)
    · exact ⟨.literal .null, by rw [Postfix.resolve, if_pos hk]⟩
  · rcases bind_eq_error_iff.1 h with h | ⟨ts, hts, h⟩
    · obtain ⟨_, _, ⟨⟩⟩ := Dialect.exists_of_tokenize_eq_error h
    rcases bind_eq_error_iff.1 h with h | ⟨sequence, -, h⟩
    · exact Postfix.reorder_ne_missing (hcalls hts) h
    · cases Postfix.ofTree_of_fold h

/-- In `count (count) > 1` the name is that of a method in front of the bracket, and of a field in it. -/
theorem callsOpen_of_tokenize_count :
    ∃ ts, Dialect.sharp.tokenize "count (count) > 1" = .ok ts ∧
      ts.map Token.kind = [.method, .bracketOpen, .operand, .bracketClose, .binaryOperator, .operand] ∧
      CallsOpen ts ∧
      ∀ method offset, Dialect.sharp.parse "count (count) > 1" ≠
        .error (.missingMethodBracket method offset) := by
  have hsharp : DialectDraft.sharp ∈ DialectDraft.builtins := by simp [DialectDraft.builtins]
  have htokens : Dialect.sharp.tokenize "count (count) > 1" =
      .ok [⟨.method, "count", 0⟩, ⟨.bracketOpen, "(", 6⟩, ⟨.operand, "count", 7⟩,
        ⟨.bracketClose, ")", 12⟩, ⟨.binaryOperator, ">", 14⟩, ⟨.operand, "1", 16⟩] := by
    decide +kernel
  obtain ⟨hcalls, hmissing⟩ := callsOpen_of_tokenize hsharp build_sharp "count (count) > 1"
  exact ⟨_, htokens, rfl, (hcalls _ htokens).1, hmissing⟩

end Criteria

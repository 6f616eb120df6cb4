import Criteria.Proofs.Dialect.Patterns

/-!
# The rules of a dialect

A dialect is built by reading its rules, and every token that it finds is found by one of them where
the token starts (`exists_rule_of_tokenize`). A rule that finds a token need not be the one that was
tried first: `TokenRule.Finds` only says that its pattern gives the token at its offset.
-/

namespace Criteria

open Text Scanner TokenPattern

/-! ### What rules are made of -/

/-- The rules of a dialect that is made up as usual. -/
theorem DialectDraft.rules_usual {draft : DialectDraft} (h : draft.parts = []) :
    draft.usual.rules =
      punctuationRules ++ (DialectDraft.expand draft.spellings .operators ++ operandRules) := by
  obtain ⟨name, sensitive, spellings, parts⟩ := draft
  subst h
  rfl

theorem DialectDraft.caseSensitive_usual (draft : DialectDraft) :
    draft.usual.caseSensitive = draft.caseSensitive := by
  obtain ⟨name, sensitive, spellings, parts⟩ := draft
  rfl

theorem DialectDraft.kind_of_mem_expand {spellings : List Spelling} {r : TokenRule}
    (h : r ∈ DialectDraft.expand spellings .operators) :
    r.kind = .method ∨ r.kind = .unaryOperator ∨ r.kind = .binaryOperator := by
  obtain ⟨kind, hkind, h⟩ := List.mem_flatMap.1 h
  have hr : r.kind = kind := by
    unfold operatorRules at h
    rcases List.mem_append.1 h with h | h
    all_goals
      split_ifs at h
      · cases h
      · rw [List.mem_singleton.1 h]
  rw [hr]
  simpa using hkind

theorem Definition.kind_of_ofText? {kind : TokenKind} {ignoreCase : Bool} {source : String}
    {follow : Option String} {d : Definition TokenKind}
    (h : Definition.ofText? kind ignoreCase source follow = .ok d) : d.kind = kind := by
  unfold Definition.ofText? at h
  split at h
  · cases h
  · split at h
    · cases h
      rfl
    · split at h
      · cases h
      · cases h
        rfl

/-- A finished dialect has the rules, the spellings and the case of its draft. -/
theorem DialectDraft.fields_of_build {draft : DialectDraft} {d : Dialect}
    (h : draft.build = .ok d) :
    d.rules = draft.rules ∧ d.spellings = draft.spellings ∧
      d.caseSensitive = draft.caseSensitive := by
  obtain ⟨definitions, -, hd⟩ := bind_eq_ok_iff.1 h
  cases hd
  exact ⟨rfl, rfl, rfl⟩

/-! ### Which rule finds a token -/

/-- Whether a token is what a rule finds at the offset of the token. -/
def TokenRule.Finds (r : TokenRule) (ignoreCase : Bool) (input : String) (t : Token TokenKind) :
    Prop :=
  ∃ d, Definition.ofText? r.kind ignoreCase r.source r.follow = .ok d ∧
    ∃ front rest c, input.toList = front ++ rest ∧ d.candidate? rest = some c ∧
      t = ⟨c.kind, c.text rest, byteLength front⟩

theorem TokenRule.Finds.kind_eq {r : TokenRule} {ignoreCase : Bool} {input : String}
    {t : Token TokenKind} (h : r.Finds ignoreCase input t) : t.kind = r.kind := by
  obtain ⟨d, hd, front, rest, c, -, hc, rfl⟩ := h
  exact (Definition.candidate?_eq_some.1 hc).2.2.trans (Definition.kind_of_ofText? hd)

/-- The text of a token is taken by the pattern of any rule that finds it. -/
theorem TokenRule.Finds.takes {r : TokenRule} {ignoreCase : Bool} {input : String}
    {t : Token TokenKind} (h : r.Finds ignoreCase input t) {p : TokenPattern TokenKind}
    (hp : Definition.ofText? r.kind ignoreCase r.source r.follow = .ok p.definition)
    (hplain : p.plain = true) (hfree : p.pattern.unconditional = true) :
    p.pattern.Takes t.text.toList [] := by
  obtain ⟨d, hd, front, rest, c, -, hc, rfl⟩ := h
  rw [hp] at hd
  cases hd
  rw [Candidate.text, String.toList_ofList]
  exact takes_of_candidate? hplain hfree hc

/-- **Every token of a dialect is found by one of its rules.** -/
theorem exists_rule_of_tokenize {draft : DialectDraft} {d : Dialect} (hbuild : draft.build = .ok d)
    {input : String} {ts : List (Token TokenKind)} (h : d.tokenize input = .ok ts) :
    ∀ t ∈ ts, ∃ r ∈ d.rules, r.Finds (!d.caseSensitive) input t := by
  obtain ⟨definitions, hdefinitions, hd⟩ := bind_eq_ok_iff.1 hbuild
  cases hd
  have hscan : tokensFrom expressionGrammar definitions 0 input.toList 0 = .ok ts := h
  intro t ht
  obtain ⟨front, rest, state, c, target, hinput, hpick, rfl⟩ :=
    exists_pick_of_mem_tokensFrom hscan t ht
  obtain ⟨definition, hmem, hc, -⟩ := exists_of_pick? hpick
  obtain ⟨r, hr, hread⟩ := exists_of_mapM hdefinitions definition hmem
  refine ⟨r, hr, definition, hread, front, rest, c, hinput, hc, ?_⟩
  rw [Nat.zero_add]

end Criteria

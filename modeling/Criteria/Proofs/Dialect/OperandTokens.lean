import Criteria.Proofs.Dialect.OperandTexts
import Criteria.Proofs.Dialect.Rules

/-!
# The operands that built-in dialects find

All built-in dialects have the patterns of punctuation in front of those of their operators, and the
patterns of operands behind them. So the text of an operand is the same in all of them
(`IsOperandText`): one that a pattern of operands takes as a whole, and if that is the pattern of
paths, one that does not start with the word `null`, since `null` comes first.
-/

namespace Criteria

open Text Scanner TokenPattern

/-! ### The patterns of a dialect -/

/-- The definitions of a dialect: those of operators are between punctuation and operands. -/
def usualDefinitions (operators : List (Definition TokenKind)) : List (Definition TokenKind) :=
  punctuation.map definition ++ (operators ++ operands.map definition)

/-- A dialect that is made up as usual scans with the usual definitions. -/
theorem DialectDraft.exists_operators {draft : DialectDraft} (hparts : draft.parts = [])
    (hcase : draft.caseSensitive = false) {d : Dialect} (h : draft.usual.build = .ok d) :
    ∃ operators : List (Definition TokenKind),
      (∀ o ∈ operators, o.kind ≠ .operand ∧ o.kind ≠ .null) ∧
        d.lexer = ⟨.ofDefinitions (usualDefinitions operators), expressionGrammar⟩ := by
  obtain ⟨definitions, hdefinitions, hd⟩ := bind_eq_ok_iff.1 h
  cases hd
  rw [DialectDraft.rules_usual hparts, draft.caseSensitive_usual, hcase, Bool.not_false,
    List.mapM_append, mapM_punctuationRules, List.mapM_append, mapM_operandRules] at hdefinitions
  obtain ⟨_, hfirst, hdefinitions⟩ := bind_eq_ok_iff.1 hdefinitions
  cases hfirst
  obtain ⟨rest, hrest, hdefinitions⟩ := bind_eq_ok_iff.1 hdefinitions
  cases hdefinitions
  obtain ⟨operators, hoperators, hrest⟩ := bind_eq_ok_iff.1 hrest
  cases hrest
  refine ⟨operators, fun o ho => ?_, rfl⟩
  obtain ⟨r, hr, ho⟩ := exists_of_mapM hoperators o ho
  rw [Definition.kind_of_ofText? ho]
  rcases DialectDraft.kind_of_mem_expand hr with h | h | h <;> simp [h]

/-- The built-in dialects are made up as usual. -/
theorem DialectDraft.usual_of_mem_builtins {draft : DialectDraft} (h : draft ∈ builtins) :
    ∃ plain : DialectDraft, draft = plain.usual ∧ plain.parts = [] ∧ plain.caseSensitive = false := by
  simp only [builtins, List.mem_cons, List.not_mem_nil, or_false] at h
  rcases h with rfl | rfl | rfl | rfl <;> exact ⟨_, rfl, rfl, rfl⟩

/-! ### The word `null` -/

theorem contains_letterSet_null : ∀ l ∈ "null".toList, ∀ c, asciiLower c = l →
    (Pattern.letterSet l).contains c = true := by
  intro l hl c hc
  have hascii : ∀ l ∈ "null".toList, l.toNat < 128 := by decide
  have table : ∀ n < 128, ∀ l ∈ "null".toList, asciiLower (Char.ofNat n) = l →
      (Pattern.letterSet l).contains (Char.ofNat n) = true := by decide
  by_cases hsmall : c.toNat < 128
  · exact forall_ascii (p := fun c => ∀ l ∈ "null".toList, asciiLower c = l →
      (Pattern.letterSet l).contains c = true) table hsmall l hl hc
  · -- only letters of ASCII are changed
    have hself : asciiLower c = c := by
      unfold asciiLower
      rw [if_neg]
      simp only [Bool.and_eq_true, decide_eq_true_eq, not_and]
      intro _ hle
      have hle : c.toNat ≤ 'Z'.toNat := hle
      have : 'Z'.toNat < 128 := by decide
      omega
    rw [hself] at hc
    exact absurd (hc ▸ hascii l hl) hsmall

theorem spells_null {x : List Char} (h : x.map asciiLower = "null".toList) :
    Pattern.Spells nullSets x := Pattern.Spells.of_map_eq h contains_letterSet_null

/-- Where a text starts with the word `null`, a pattern finds it. -/
theorem exists_candidate_null {x tail : List Char} (hx : StartsWithNull x)
    (hend : x.length = 4 → ∀ c ∈ tail.head?, isWord c = false) :
    ∃ c, nullToken.definition.candidate? (x ++ tail) = some c := by
  obtain ⟨hword, hnext⟩ := hx
  have hspells := spells_null hword
  have hlen : (x.take 4).length = 4 := (List.Forall₂.length_eq hspells).symm
  have htext : x ++ tail = x.take 4 ++ (x.drop 4 ++ tail) := by
    rw [← List.append_assoc, List.take_append_drop]
  have hconsume : nullToken.pattern.consume (x ++ tail) some = some (x.drop 4 ++ tail) := by
    rw [htext, nullToken, Pattern.consume_of_sets? (Pattern.sets?_spelled "null")]
    exact congrArg (·.bind some) (Pattern.behind_append hspells (x.drop 4 ++ tail))
  have hhead : ∀ c ∈ (x.drop 4 ++ tail).head?, isWord c = false := by
    intro c hc
    rcases hdrop : x.drop 4 with _ | ⟨d, more⟩
    · have hxlen : x.length = 4 := by
        have hle := List.drop_eq_nil_iff.1 hdrop
        rw [List.length_take] at hlen
        omega
      rw [hdrop] at hc
      exact hend hxlen c hc
    · refine hnext c ?_
      rw [hdrop] at hc
      rw [← List.head?_drop, hdrop]
      exact hc
  refine ⟨⟨.null, (x.take 4).length, by omega⟩, ?_⟩
  exact (candidate?_eq_some_iff (by decide)).2
    ⟨x.take 4, x.drop 4 ++ tail, htext, hconsume, (follows_endOfWord_iff rfl).2 hhead, rfl, rfl⟩

/-! ### The text of an operand -/

/-- Whether a text may be that of an operand. -/
def IsOperandText (x : List Char) : Prop :=
  (∃ t ∈ literals, t.pattern.Takes x []) ∨ Operand.path.Takes x [] ∧ ¬ StartsWithNull x

/-- A path is taken to the end of its last word. -/
theorem not_isWord_of_consume_path {x tail : List Char} (hx : Operand.path.Takes x [])
    (h : Operand.path.consume (x ++ tail) some = some tail) :
    ∀ c ∈ tail.head?, isWord c = false := by
  intro c hc
  by_contra hword
  rw [Bool.not_eq_false] at hword
  have hchar := Operand.pathChar_of_isWord hword
  rw [Operand.not_pathChar_of_consume_path hx h c hc] at hchar
  cases hchar

/-- An expression has two states: in front of an operand, and behind one. -/
theorem state_of_next? {state target : Nat} {kind : TokenKind}
    (h : expressionGrammar.next? state kind = some target) : state = 0 ∨ state = 1 := by
  rcases state with _ | _ | state
  · exact .inl rfl
  · exact .inr rfl
  · cases h

/-- Where an operand may come next, `null` may. -/
theorem next?_null_of_operand {state target : Nat}
    (h : expressionGrammar.next? state .operand = some target) :
    expressionGrammar.next? state .null ≠ none := by
  rcases state_of_next? h with rfl | rfl
  · decide
  · cases h

/-- What is picked as an operand has the text of one. -/
theorem isOperandText_of_pick? {operators : List (Definition TokenKind)}
    (hoperators : ∀ o ∈ operators, o.kind ≠ .operand ∧ o.kind ≠ .null) {text : List Char}
    {state target : Nat} {c : Candidate TokenKind}
    (h : pick? expressionGrammar (usualDefinitions operators) text state = some (c, target))
    (hc : c.kind = .operand) : IsOperandText (text.take c.size) := by
  have hpunctuation : ∀ t ∈ punctuation, t.kind ≠ .operand := by decide
  have hplain : ∀ t ∈ operands, t.plain = true ∧ t.pattern.unconditional = true := by decide
  have hnull : nullToken ∈ punctuation := by decide
  -- neither punctuation nor operators are operands
  have hpunctuation' : ∀ d ∈ punctuation.map definition, d.kind ≠ c.kind := by
    intro d hd
    obtain ⟨t, ht, rfl⟩ := List.mem_map.1 hd
    exact hc ▸ hpunctuation t ht
  obtain ⟨hfirst, h⟩ := pick?_of_append hpunctuation' h
  obtain ⟨-, h⟩ := pick?_of_append (fun d hd => hc ▸ (hoperators d hd).1) h
  obtain ⟨d, hd, hcandidate, -, hnext⟩ := exists_of_pick? h
  obtain ⟨t, ht, rfl⟩ := List.mem_map.1 hd
  obtain ⟨x, tail, rfl, hconsume, -, -, hsize⟩ :=
    (candidate?_eq_some_iff (hplain t ht).1).1 hcandidate
  rw [hsize, List.take_left]
  have htakes : t.pattern.Takes x [] := by
    have htakes := takes_of_candidate? (hplain t ht).1 (hplain t ht).2 hcandidate
    rwa [hsize, List.take_left] at htakes
  rcases List.mem_append.1 ht with ht | ht
  · exact .inl ⟨t, ht, htakes⟩
  · cases List.mem_singleton.1 ht
    refine .inr ⟨htakes, fun hx => ?_⟩
    -- the word comes first, unless more of its characters follow
    obtain ⟨c', hc'⟩ := exists_candidate_null hx fun _ =>
      not_isWord_of_consume_path htakes hconsume
    have hno := next?_of_pick?_eq_none hfirst (List.mem_map_of_mem hnull) hc'
    exact next?_null_of_operand hnext hno

/-- **The operands that a built-in dialect finds have the texts of operands.** -/
theorem isOperandText_of_tokenize {draft : DialectDraft} (hd : draft ∈ DialectDraft.builtins)
    {d : Dialect} (hbuild : draft.build = .ok d) {input : String} {ts : List (Token TokenKind)}
    (h : d.tokenize input = .ok ts) :
    ∀ t ∈ ts, t.kind = .operand → IsOperandText t.text.toList := by
  obtain ⟨plain, rfl, hparts, hcase⟩ := DialectDraft.usual_of_mem_builtins hd
  obtain ⟨operators, hoperators, hlexer⟩ := DialectDraft.exists_operators hparts hcase hbuild
  have htokens : tokensFrom expressionGrammar (usualDefinitions operators) 0 input.toList 0 =
      .ok ts := by
    rw [Dialect.tokenize, hlexer] at h
    exact h
  refine forall_mem_of_tokensFrom (P := fun kind text => kind = .operand →
    IsOperandText text.toList) (fun text state c target hpick hc => ?_) htokens
  rw [Candidate.text, String.toList_ofList]
  exact isOperandText_of_pick? hoperators hpick hc

end Criteria

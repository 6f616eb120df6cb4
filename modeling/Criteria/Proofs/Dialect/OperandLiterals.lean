import Criteria.Proofs.Dialect.OperandTokens
import Criteria.Proofs.Expression.Paths
import Criteria.Proofs.Literal.Classification

/-!
# What the literals that a dialect finds stand for

The rules of operands look at a text first, and the families of literals look at it again. Both have
patterns for strings, identifiers and lists, and these agree on strings and identifiers. They do not
agree on lists: for a rule a list goes on to the next closing bracket, and for the classification it
is on one line. A list over several lines is one operand, and stands for the field with that name
(`resolve_of_rule`).
-/

namespace Criteria

open Text Scanner TokenPattern

namespace TokenRule

/-- The rule of strings: between quotes, where two quotes stand for one. -/
def string : TokenRule := operandRules.get ⟨0, by decide⟩

/-- The rule of lists: an opening bracket and everything up to the next closing one. -/
def list : TokenRule := operandRules.get ⟨2, by decide⟩

/-- The rule of identifiers: five groups of hexadecimal digits with hyphens between them. -/
def guid : TokenRule := operandRules.get ⟨3, by decide⟩

/-- The rules of operands are read as the patterns of operands. -/
theorem ofText?_operandRules {i : Nat} (hi : i < operandRules.length) (hi' : i < operands.length) :
    Definition.ofText? (operandRules.get ⟨i, hi⟩).kind true (operandRules.get ⟨i, hi⟩).source
      (operandRules.get ⟨i, hi⟩).follow = .ok (operands.get ⟨i, hi'⟩).definition := by
  have hplaces := (mapM_eq_ok_iff.1 mapM_operandRules).get hi (by simpa using hi')
  simpa using hplaces

variable {input : String} {t : Token TokenKind}

/-- A rule of operands finds a text that its pattern takes. -/
theorem Finds.takes_operand {i : Nat} {hi : i < operandRules.length}
    (h : (operandRules.get ⟨i, hi⟩).Finds true input t) (hi' : i < operands.length) :
    t.kind = .operand ∧ (operands.get ⟨i, hi'⟩).pattern.Takes t.text.toList [] := by
  have hkind : ∀ r ∈ operandRules, r.kind = .operand := by decide
  have hplain : ∀ p ∈ operands, p.plain = true ∧ p.pattern.unconditional = true := by decide
  obtain ⟨hplain, hfree⟩ := hplain _ (List.get_mem operands ⟨i, hi'⟩)
  exact ⟨h.kind_eq.trans (hkind _ (List.get_mem _ _)),
    h.takes (ofText?_operandRules hi hi') hplain hfree⟩

/-! ### Strings, identifiers and lists -/

theorem resolve_literal (hk : t.kind = .operand) {v : Value}
    (h : Literal.classifyChars t.text.toList = some v) : Postfix.resolve t = .ok (.literal v) :=
  (Postfix.resolve_operand_iff hk).2 (.inl ⟨v, h, rfl⟩)

/-- What the rule of strings finds stands for a string. -/
theorem Finds.resolve_string (h : string.Finds true input t) :
    ∃ s, Postfix.resolve t = .ok (.literal (.string s)) := by
  obtain ⟨hk, htakes⟩ := h.takes_operand (by decide)
  obtain ⟨s, hs⟩ := Operand.takes_string htakes
  refine ⟨String.ofList s, resolve_literal hk ?_⟩
  rw [hs]
  exact Literal.classifyChars_quoted s

/-- Both patterns of identifiers take the same texts. -/
theorem takes_guid_of_operand {cs : List Char} (h : Operand.guid.Takes cs []) :
    Literal.Family.guid.pattern.Takes cs [] := by
  have hspells := (Pattern.takes_iff_spells Operand.sets?_guid).1 h
  refine Literal.takes_guid.2 (Literal.spells_guidSets_imp hspells ?_ ?_)
  · intro c hc
    rw [CharSet.contains_only_iff] at hc
    exact (Literal.hyphen_iff c).2 hc
  · exact fun c hc =>
      CharSet.forall_folded (p := fun c => Literal.hexSet.contains c = true) rfl (by decide) hc

/-- What the rule of identifiers finds stands for an identifier. -/
theorem Finds.resolve_guid (h : guid.Finds true input t) :
    ∃ g, Postfix.resolve t = .ok (.literal (.guid g)) := by
  obtain ⟨hk, htakes⟩ := h.takes_operand (by decide)
  obtain ⟨g, hg⟩ := Literal.exists_classifyChars_guid (takes_guid_of_operand htakes)
  exact ⟨g, resolve_literal hk hg⟩

/-- What the rule of lists finds stands for a list if it is on one line, and else for a field. -/
theorem Finds.resolve_list (h : list.Finds true input t) :
    if '\n' ∈ t.text.toList then ∃ p, Postfix.resolve t = .ok (.reference p)
    else ∃ items, Postfix.resolve t = .ok (.literal (.list items)) := by
  obtain ⟨hk, htakes⟩ := h.takes_operand (by decide)
  obtain ⟨body, hchars, -⟩ := Operand.takes_list.1 htakes
  split_ifs with hline
  · have hbody : '\n' ∈ body := by
      rw [hchars] at hline
      simpa using hline
    have hnone : Literal.classify t.text = none := by
      rw [Literal.classify, hchars]
      exact Literal.classifyChars_brackets_eq_none hbody
    -- a field is named by any text with a character that is no separator, such as a bracket
    have hname : ∃ c ∈ t.text.toList, FieldPath.isSeparator c = false :=
      ⟨'[', by simp [hchars], rfl⟩
    obtain ⟨p, hp⟩ := FieldPath.exists_parse? hname
    exact ⟨p, (Postfix.resolve_operand_iff hk).2 (.inr ⟨hnone, p, hp, rfl⟩)⟩
  · have hbody : ∀ c ∈ body, c ≠ '\n' := by
      rintro c hc rfl
      exact hline (by simp [hchars, hc])
    have hread := Literal.classifyChars_brackets body hbody
    rw [← hchars] at hread
    exact ⟨_, resolve_literal hk hread⟩

end TokenRule

/-! ### Built-in dialects -/

/-- **Every operand of a built-in dialect is found by a rule of operands**, and what the rules of
strings, identifiers and lists find stands for a literal of that kind, if it is no list over several
lines. Such a list stands for a field. -/
theorem resolve_of_rule {draft : DialectDraft} (hd : draft ∈ DialectDraft.builtins) {d : Dialect}
    (hbuild : draft.build = .ok d) {input : String} {ts : List (Token TokenKind)}
    (h : d.tokenize input = .ok ts) {t : Token TokenKind} (ht : t ∈ ts) :
    (t.kind = .operand → ∃ r ∈ operandRules, r.Finds true input t) ∧
      (TokenRule.string.Finds true input t →
        ∃ s, Postfix.resolve t = .ok (.literal (.string s))) ∧
      (TokenRule.guid.Finds true input t → ∃ g, Postfix.resolve t = .ok (.literal (.guid g))) ∧
      (TokenRule.list.Finds true input t →
        if '\n' ∈ t.text.toList then ∃ p, Postfix.resolve t = .ok (.reference p)
        else ∃ items, Postfix.resolve t = .ok (.literal (.list items))) := by
  refine ⟨fun hk => ?_, TokenRule.Finds.resolve_string, TokenRule.Finds.resolve_guid,
    TokenRule.Finds.resolve_list⟩
  obtain ⟨plain, rfl, hparts, hcase⟩ := DialectDraft.usual_of_mem_builtins hd
  obtain ⟨hrules, -, hsensitive⟩ := DialectDraft.fields_of_build hbuild
  obtain ⟨r, hr, hfinds⟩ := exists_rule_of_tokenize hbuild h t ht
  rw [hsensitive, plain.caseSensitive_usual, hcase] at hfinds
  rw [hrules, DialectDraft.rules_usual hparts] at hr
  have hkind : r.kind = .operand := hfinds.kind_eq.symm.trans hk
  -- neither punctuation nor operators are operands
  have hpunctuation : ∀ r ∈ punctuationRules, r.kind ≠ .operand := by decide
  rcases List.mem_append.1 hr with hr | hr
  · exact absurd hkind (hpunctuation r hr)
  rcases List.mem_append.1 hr with hr | hr
  · rcases DialectDraft.kind_of_mem_expand hr with hother | hother | hother <;>
      rw [hkind] at hother <;> cases hother
  · exact ⟨r, hr, hfinds⟩

/-- In `!'a'` the rule of strings finds an operand. -/
theorem resolve_of_rule_quoted :
    TokenRule.string.Finds true "!'a'" ⟨.operand, "'a'", 1⟩ ∧
      ∃ s, Postfix.resolve ⟨.operand, "'a'", 1⟩ = .ok (.literal (.string s)) := by
  have htokens : Dialect.java.tokenize "!'a'" =
      .ok [⟨.unaryOperator, "!", 0⟩, ⟨.operand, "'a'", 1⟩] := by decide +kernel
  have hfinds : TokenRule.string.Finds true "!'a'" ⟨.operand, "'a'", 1⟩ :=
    ⟨_, TokenRule.ofText?_operandRules (i := 0) (by decide) (by decide), ['!'], "'a'".toList,
      ⟨.operand, 3, by decide⟩, by decide, by decide, by decide⟩
  have hjava : DialectDraft.java ∈ DialectDraft.builtins := by simp [DialectDraft.builtins]
  obtain ⟨-, hstring, -⟩ := resolve_of_rule hjava build_java htokens (t := ⟨.operand, "'a'", 1⟩)
    (by decide)
  exact ⟨hfinds, hstring hfinds⟩

/-- A list over two lines is found by the rule of lists, and stands for a field with that name. -/
theorem parse_sharp_list_lines :
    ∃ ts, Dialect.sharp.tokenize "x in [1,\n2]" = .ok ts ∧ ⟨.operand, "[1,\n2]", 5⟩ ∈ ts ∧
      TokenRule.list.Finds true "x in [1,\n2]" ⟨.operand, "[1,\n2]", 5⟩ ∧
      Postfix.resolve ⟨.operand, "[1,\n2]", 5⟩ = .ok (.reference ⟨[], "[1,\n2]"⟩) ∧
      (do (← DialectDraft.sharp.build).parse "x in [1,\n2]") =
        Except.ok ⟨.isIn, [.reference ⟨[], "x"⟩, .reference ⟨[], "[1,\n2]"⟩]⟩ := by
  have htokens : Dialect.sharp.tokenize "x in [1,\n2]" =
      .ok [⟨.operand, "x", 0⟩, ⟨.binaryOperator, "in", 2⟩, ⟨.operand, "[1,\n2]", 5⟩] := by
    decide +kernel
  have hfinds : TokenRule.list.Finds true "x in [1,\n2]" ⟨.operand, "[1,\n2]", 5⟩ :=
    ⟨_, TokenRule.ofText?_operandRules (i := 2) (by decide) (by decide), "x in ".toList,
      "[1,\n2]".toList, ⟨.operand, 6, by decide⟩, by decide, by decide +kernel, by decide⟩
  have hfirst : Postfix.resolve ⟨.operand, "x", 0⟩ = .ok (.reference ⟨[], "x"⟩) :=
    (Postfix.resolve_operand_iff rfl).2
      (.inr ⟨by decide +kernel, ⟨[], "x"⟩, by decide, rfl⟩)
  have hline : '\n' ∈ "1,\n2".toList := by decide
  have hsecond : Postfix.resolve ⟨.operand, "[1,\n2]", 5⟩ =
      .ok (.reference ⟨[], "[1,\n2]"⟩) :=
    (Postfix.resolve_operand_iff rfl).2
      (.inr ⟨Literal.classifyChars_brackets_eq_none hline, ⟨[], "[1,\n2]"⟩, by decide, rfl⟩)
  refine ⟨_, htokens, by decide, hfinds, hsecond, ?_⟩
  rw [build_sharp, ok_bind, Dialect.parse, htokens, ok_bind,
    show Postfix.reorder Dialect.sharp _ = .ok [.value _, .value _, .operator .isIn] from rfl,
    ok_bind]
  simp only [Postfix.fold, List.foldlM_cons, Postfix.push, hfirst, hsecond]
  rfl

end Criteria

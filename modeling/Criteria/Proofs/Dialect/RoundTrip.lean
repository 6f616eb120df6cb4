import Criteria.Proofs.Dialect.OperandTexts
import Criteria.Proofs.Expression.Paths
import Criteria.Proofs.Literal.Classification

/-!
# Trees are parsed back

`sharp` parses the text of a tree to the tree (`parse_render`), if each operator has as many
operands as it takes and the leaves can be written: values as `Value.Writable` says, and references
whose text looks like a name and like nothing else.
-/

namespace Criteria

open Text Dialect

/-! ### Values -/

theorem isOperand_integer (n : Int) {mark : List Char}
    (hmark : Numeral.Mark Operand.widthMarks mark) : IsOperand ((toString n).toList ++ mark) := by
  obtain ⟨s, d, hchars, hs, hne, hd, -⟩ := Literal.integer_chars n
  refine isOperand_number (Operand.takes_number.2 ⟨_, (List.append_nil _).symm, s, d, [], mark, ?_, hs,
    .whole hne hd, .absent, hmark⟩)
  rw [hchars, List.nil_append, List.append_assoc]

/-- The text of a value other than null is one operand. -/
theorem isOperand_render {v : Value} (h : v.Writable) (hnull : v ≠ .null) :
    IsOperand v.render.toList := by
  cases v with
  | null => exact absurd rfl hnull
  | boolean b =>
    have table : ∀ b, Literal.matchesWhole Operand.path (Value.boolean b).render.toList = true ∧
        (((Value.boolean b).render.toList).take 4).map asciiLower ≠ "null".toList := by
      decide +kernel
    obtain ⟨hpath, hword⟩ := table b
    exact isOperand_path ((Literal.matchesWhole_iff rfl).1 hpath) fun h => hword h.1
  | integer n => simpa [Value.render] using isOperand_integer n.toInt .absent
  | long n =>
    have hmark : Operand.widthMarks.contains 'L' = true := by decide
    simpa [Value.render] using isOperand_integer n.toInt (.mk hmark)
  | double x =>
    obtain ⟨t, hchars, -⟩ := Number.exists_doubleText (f := Value.doubleFormat) rfl h
    have hchars : (Value.double x).render.toList = t.chars := hchars
    rw [hchars]
    exact isOperand_number (Operand.takes_number.2 ⟨_, (List.append_nil _).symm,
      t.isNumeral_chars (by decide) _⟩)
  | string s =>
    rw [Value.render, Literal.toList_quote]
    exact isOperand_quote _
  | guid g =>
    have hspells : Pattern.Spells Operand.guidSets g.render.toList :=
      Literal.spells_guid (by decide) (by decide) g
    exact isOperand_guid ((Pattern.takes_iff_spells Operand.sets?_guid).2 hspells)
  | date d =>
    have hspells : Pattern.Spells Operand.dateSets d.chars := Date.Writable.spells h (by decide)
    have hchars : (Value.date d).render.toList = d.chars := Date.Writable.toList_render h
    rw [hchars]
    exact isOperand_date ((Pattern.takes_iff_spells Operand.sets?_date).2 hspells)
  | dateTime d =>
    have hspells : Pattern.Spells Operand.minuteSets d.minuteChars :=
      DateTime.Writable.spells h (by decide) (by decide) (by decide)
    have hchars : (Value.dateTime d).render.toList = d.minuteChars ++ d.secondChars :=
      DateTime.Writable.toList_render_eq h
    rw [hchars]
    exact isOperand_dateTime (Operand.takes_dateTime.2 ⟨_, _, by rw [List.append_nil], hspells,
      DateTime.Writable.seconds h⟩)
  | list items =>
    obtain ⟨body, hchars, hbody⟩ := Literal.toList_render_list h
    rw [hchars]
    exact isOperand_list fun c hc => (hbody c hc).1
  | object fields => exact h.elim

/-! ### Leaves -/

/-- A leaf is read if its text is one operand that stands for it. -/
theorem Term.reads_of_isOperand {t : Term} (h : IsOperand t.render.toList)
    (hresolve : ∀ offset, Postfix.resolve ⟨.operand, t.render, offset⟩ = .ok t) : t.Reads := by
  intro offset tail htail
  obtain ⟨offset', htokens⟩ := h offset tail htail
  rw [String.ofList_toList] at htokens
  exact ⟨⟨.operand, t.render, offset⟩, offset', .inl rfl, hresolve offset, htokens⟩

theorem reads_null : (Term.literal .null).Reads := by
  intro offset tail htail
  have hpasses : Passes 3 0 'n' := by decide
  have hspells : Pattern.Spells nullSets "null".toList :=
    .cons (by decide) (.cons (by decide) (.cons (by decide) (.cons (by decide) .nil)))
  have hconsume : nullToken.pattern.consume ("null".toList ++ tail) some = some tail := by
    rw [nullToken, Pattern.consume_of_sets? (Pattern.sets?_spelled "null")]
    exact congrArg (·.bind some) (Pattern.behind_append hspells tail)
  have htokens := sharpTokens_piece (n := 3) (t := nullToken) rfl offset 'n' "ull".toList
    (hpasses.misses _) rfl hconsume (follows_of_resumes (.inr rfl) htail) rfl
  exact ⟨_, _, .inr rfl, rfl, htokens⟩

/-- The text of a value that can be written is read as the value. -/
theorem reads_literal {v : Value} (h : v.Writable) : (Term.literal v).Reads := by
  by_cases hnull : v = .null
  · rw [hnull]
    exact reads_null
  · refine Term.reads_of_isOperand (isOperand_render h hnull) fun offset => ?_
    have hclassify : Literal.classify (Term.literal v).render = some v :=
      Literal.classifyChars_render h
    exact (Postfix.resolve_operand_iff rfl).2 (.inl ⟨v, hclassify, rfl⟩)

namespace FieldPath

/-- Whether the text of a path is read as a reference to it: the path is one that is read, and the
text looks like a name, is not that of a literal and does not start with the word `null`. -/
structure Writable (p : FieldPath) : Prop where
  parsed : ∃ text, parse? text = some p
  name : Literal.matchesWhole Operand.path p.render.toList = true
  noLiteral : Literal.classify p.render = none
  notNull : ¬ StartsWithNull p.render.toList

end FieldPath

theorem resolve_reference {p : FieldPath} (hp : p.WellFormed) (hl : Literal.classify p.render = none)
    (offset : Nat) : Postfix.resolve ⟨.operand, p.render, offset⟩ = .ok (.reference p) :=
  (Postfix.resolve_operand_iff rfl).2 (.inr ⟨hl, p, FieldPath.parse?_render hp, rfl⟩)

/-- The text of a reference that can be written is read as the reference. -/
theorem reads_reference {p : FieldPath} (h : p.Writable) : (Term.reference p).Reads :=
  Term.reads_of_isOperand
    (isOperand_path ((Literal.matchesWhole_iff rfl).1 h.name) h.notNull)
    (resolve_reference (FieldPath.wellFormed_iff.2 h.parsed) h.noLiteral)

/-- Whether the text of a leaf is read as the leaf. -/
def Term.Writable : Term → Prop
  | .literal v => v.Writable
  | .reference p => p.Writable
  | .external _ | .apply .. => False

theorem Term.Writable.reads {t : Term} (h : t.Writable) : t.Reads := by
  cases t with
  | literal v => exact reads_literal h
  | reference p => exact reads_reference h
  | external | apply => exact h.elim

/-- **`sharp` parses the text of a tree to the tree**, if every operator has its number of operands
and every leaf can be written. -/
theorem parse_render {o : Operation} (hc : o.toTerm.Complete)
    (h : ∀ v ∈ o.toTerm.leaves, v.Writable) :
    (do (← DialectDraft.sharp.build).parse o.render) = Except.ok o := by
  rw [build_sharp]
  exact parse_render_of_reads hc fun v hv => (h v hv).reads

/-- A path with two segments, a double and a truth value are read back. -/
theorem parse_render_total :
    (do (← DialectDraft.sharp.build).parse "((order/total > 1.5) && !true)") =
      Except.ok ⟨.and, [.apply .greater [.reference ⟨["order"], "total"⟩,
        .literal (.double ⟨0x3FF8000000000000⟩)], .apply .not [.literal (.boolean true)]]⟩ := by
  have hpath : FieldPath.Writable ⟨["order"], "total"⟩ := by
    refine ⟨⟨"order/total", by decide +kernel⟩, by decide +kernel, ?_, fun h => absurd h.1 (by decide)⟩
    have hscalar : Literal.scalar? "order/total".toList = none := by decide +kernel
    have hlist : Literal.matchesWhole Literal.listPattern "order/total".toList = false := by
      decide +kernel
    change Literal.classifyChars "order/total".toList = none
    rw [Literal.classifyChars, hscalar, hlist]
    rfl
  have hleaves : ∀ t ∈ [Term.reference ⟨["order"], "total"⟩,
      .literal (.double ⟨0x3FF8000000000000⟩), .literal (.boolean true)], t.Writable := by
    have hfinite : Binary64.isFinite ⟨0x3FF8000000000000⟩ = true := by decide
    simp [Term.Writable, Value.Writable, Value.IsScalar, hpath, hfinite]
  exact parse_render (o := ⟨.and, [.apply .greater [.reference ⟨["order"], "total"⟩,
    .literal (.double ⟨0x3FF8000000000000⟩)], .apply .not [.literal (.boolean true)]]⟩)
    ⟨rfl, ⟨rfl, trivial, trivial, trivial⟩, ⟨rfl, trivial, trivial⟩, trivial⟩ hleaves

end Criteria

import Criteria.Proofs.Dialect.BuiltinPatterns
import Criteria.Proofs.Dialect.Operands
import Criteria.Proofs.Expression.Errors

/-!
# Spellings that are found and spellings that are known

Operators are found by patterns and known by their spellings. Both ignore case, the patterns by
simple case folding and the lookup for the letters of ASCII only. Spellings have an `s` and no `k`,
and so the two differ in one character: the long s folds to `s`, and the lookup knows no spelling
that has it (`isSome_operator?_iff`).
-/

namespace Criteria

open Text Scanner TokenPattern

/-- The long s, which simple case folding takes to `s`. -/
def longS : Char := '\u017f'

/-! ### Looking up -/

/-- Where case is ignored, an operator is known by any spelling that is the same in small letters. -/
theorem Dialect.isSome_operator? {d : Dialect} (hcase : d.caseSensitive = false) {text : String}
    {kind : TokenKind} : (d.operator? text kind).isSome = true ↔
      ∃ s ∈ d.spellings, s.kind = kind ∧ sameIgnoringCase s.text text = true := by
  simp [operator?, spells, hcase]

/-- Whether the letters of a name are ASCII letters without variants beyond ASCII, `s` apart. -/
def KnownLetters (name : String) : Prop :=
  ∀ l ∈ name.toList, l.toNat < 128 ∧
    ∀ v ∈ caseVariants l, v = longS ∨ asciiLower v = asciiLower l

instance (name : String) : Decidable (KnownLetters name) := by
  unfold KnownLetters
  infer_instance

/-- A text that is the same as an ASCII name in small letters has no long s. -/
theorem KnownLetters.not_mem {name text : String} (h : KnownLetters name)
    (hsame : sameIgnoringCase name text = true) : longS ∉ text.toList := by
  have table : ∀ n < 128, asciiLower (Char.ofNat n) ≠ asciiLower longS := by decide
  rw [sameIgnoringCase, beq_iff_eq] at hsame
  intro hmem
  have hlower := List.mem_map_of_mem (f := asciiLower) hmem
  rw [← hsame] at hlower
  obtain ⟨l, hl, heq⟩ := List.mem_map.1 hlower
  exact forall_ascii (p := fun l => asciiLower l ≠ asciiLower longS) table (h l hl).1 heq

/-- **A text that spells a name is known as it just if it has no long s.** -/
theorem KnownLetters.sameIgnoringCase_iff {name text : String} (h : KnownLetters name)
    (hspells : Pattern.Spells (name.toList.map Pattern.letterSet) text.toList) :
    sameIgnoringCase name text = true ↔ longS ∉ text.toList := by
  refine ⟨h.not_mem, fun hlong => ?_⟩
  rw [sameIgnoringCase, beq_iff_eq]
  -- character by character: the long s is the only variant that is not the same in small letters
  refine (hspells.map_eq_map fun l hl c hc hset => ?_).symm
  obtain ⟨hascii, hvariants⟩ := h l hl
  refine (hvariants c (Pattern.contains_letterSet hascii hset)).resolve_left ?_
  rintro rfl
  exact hlong hc

/-! ### Built-in dialects -/

theorem knownLetters_of_mem_builtins :
    ∀ draft ∈ DialectDraft.builtins, ∀ s ∈ draft.spellings, KnownLetters s.text := by
  decide +kernel

/-- The text of an operator spells one of the names of its category. -/
theorem exists_spelling_of_tokenize {draft : DialectDraft} (hd : draft ∈ DialectDraft.builtins)
    {d : Dialect} (hbuild : draft.build = .ok d) {input : String} {ts : List (Token TokenKind)}
    (h : d.tokenize input = .ok ts) {t : Token TokenKind} (ht : t ∈ ts)
    (hk : t.kind ∈ TokenKind.operators) :
    ∃ s ∈ draft.spellings, s.kind = t.kind ∧
      Pattern.Spells (s.text.toList.map Pattern.letterSet) t.text.toList := by
  obtain ⟨operators, hbuilt, hserves⟩ := exists_operatorNames hd
  rw [hbuilt] at hbuild
  cases hbuild
  have hscan : tokensFrom expressionGrammar ((OperatorNames.patterns operators).map definition) 0
      input.toList 0 = .ok ts := h
  obtain ⟨front, rest, state, c, target, -, hpick, rfl⟩ := exists_pick_of_mem_tokensFrom hscan t ht
  obtain ⟨_, hmem, hcandidate, hkind, -⟩ := exists_of_pick? hpick
  obtain ⟨p, hp, rfl⟩ := List.mem_map.1 hmem
  have hkind : c.kind = p.kind := hkind
  have hk : c.kind ∈ TokenKind.operators := hk
  rw [hkind] at hk
  -- neither punctuation nor operands are operators
  have hpunctuation : ∀ p ∈ punctuation, p.kind ∉ TokenKind.operators := by decide
  have hoperands : ∀ p ∈ operands, p.kind ∉ TokenKind.operators := by decide
  rcases List.mem_append.1 hp with hp | hp
  · rcases List.mem_append.1 hp with hp | hp
    · exact absurd hk (hpunctuation p hp)
    obtain ⟨o, ho, rfl⟩ := List.mem_map.1 hp
    obtain ⟨hne, hspelled, hplain, hfree⟩ := hserves o ho
    have htakes := takes_of_candidate? hplain hfree hcandidate
    obtain ⟨n, hn, htakes⟩ := (Pattern.takes_spelledAny hne).1 htakes
    obtain ⟨piece, heq, hpiece⟩ := Pattern.takes_spelled.1 htakes
    obtain ⟨s, hs, rfl, hskind⟩ := hspelled n hn
    rw [List.append_nil] at heq
    refine ⟨s, hs, hskind.trans hkind.symm, ?_⟩
    rw [Candidate.text, String.toList_ofList, heq]
    exact hpiece
  · exact absurd hk (hoperands p hp)

/-- **The operators that a built-in dialect finds are known unless they are written with a long s**,
and parsing finds no operator unknown but such ones. -/
theorem isSome_operator?_iff {draft : DialectDraft} (hd : draft ∈ DialectDraft.builtins)
    {d : Dialect} (hbuild : draft.build = .ok d) {input : String} {ts : List (Token TokenKind)}
    (h : d.tokenize input = .ok ts) :
    (∀ t ∈ ts, t.kind ∈ TokenKind.operators →
      ((d.operator? t.text t.kind).isSome = true ↔ longS ∉ t.text.toList)) ∧
    ∀ spelling offset, d.parse input = .error (.unknownOperator spelling offset) →
      longS ∈ spelling.toList ∧
        ∃ t ∈ ts, t.kind ∈ TokenKind.operators ∧ t.text = spelling ∧ t.start = offset := by
  have hcase : ∀ draft ∈ DialectDraft.builtins, draft.caseSensitive = false := by decide
  obtain ⟨-, hspellings, hsensitive⟩ := DialectDraft.fields_of_build hbuild
  have hknown : ∀ t ∈ ts, t.kind ∈ TokenKind.operators →
      ((d.operator? t.text t.kind).isSome = true ↔ longS ∉ t.text.toList) := by
    intro t ht hk
    rw [Dialect.isSome_operator? (hsensitive.trans (hcase draft hd)), hspellings]
    constructor
    · rintro ⟨s, hs, -, hsame⟩
      exact (knownLetters_of_mem_builtins draft hd s hs).not_mem hsame
    · intro hlong
      obtain ⟨s, hs, hskind, hspells⟩ := exists_spelling_of_tokenize hd hbuild h ht hk
      exact ⟨s, hs, hskind,
        ((knownLetters_of_mem_builtins draft hd s hs).sameIgnoringCase_iff hspells).2 hlong⟩
  refine ⟨hknown, fun spelling offset herror => ?_⟩
  obtain ⟨t, ht, hk, hnone, rfl, rfl⟩ := Dialect.exists_of_unknownOperator h herror
  refine ⟨?_, t, ht, hk, rfl, rfl⟩
  by_contra hlong
  rw [← hknown t ht hk, hnone] at hlong
  cases hlong

/-- The tokens of `a sub b sub 1`, the second operator written with a long s. -/
theorem tokenize_odata_sub : Dialect.odata.tokenize "a sub b \u017fub 1" =
    .ok [⟨.operand, "a", 0⟩, ⟨.binaryOperator, "sub", 2⟩, ⟨.operand, "b", 6⟩,
      ⟨.binaryOperator, "\u017fub", 8⟩, ⟨.operand, "1", 13⟩] := by decide +kernel

/-- Of the two operators in `a sub b sub 1` the one without a long s is known. -/
theorem isSome_operator?_sub : (Dialect.odata.operator? "sub" .binaryOperator).isSome = true ∧
    ¬ (Dialect.odata.operator? "\u017fub" .binaryOperator).isSome = true := by
  have hodata : DialectDraft.odata ∈ DialectDraft.builtins := by simp [DialectDraft.builtins]
  obtain ⟨hknown, -⟩ := isSome_operator?_iff hodata build_odata tokenize_odata_sub
  have hsub := hknown ⟨.binaryOperator, "sub", 2⟩ (by decide) (by decide)
  have hlong := hknown ⟨.binaryOperator, "\u017fub", 8⟩ (by decide) (by decide)
  exact ⟨hsub.2 (by decide), fun h => absurd (hlong.1 h) (by decide)⟩

/-- An operator with a long s is found, and parsing fails at it. -/
theorem parse_odata_longS :
    ∃ ts, Dialect.odata.tokenize "a sub b \u017fub 1" = .ok ts ∧
      ⟨.binaryOperator, "\u017fub", 8⟩ ∈ ts ∧
      Dialect.odata.operator? "\u017fub" .binaryOperator = none ∧
      (do (← DialectDraft.odata.build).parse "a sub b \u017fub 1") =
        Except.error (.unknownOperator "\u017fub" 8) := by
  refine ⟨_, tokenize_odata_sub, by decide, by decide +kernel, ?_⟩
  rw [build_odata, ok_bind, Dialect.parse, tokenize_odata_sub, ok_bind]
  simp only [Postfix.reorder, Postfix.reorderFrom]
  rfl

end Criteria

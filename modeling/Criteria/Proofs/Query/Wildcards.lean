import Criteria.Proofs.Query.Steps
import Mathlib.Data.List.Infix

/-!
# Patterns with wildcards

Queries search in texts by patterns in which `%` stands for any characters. A pattern with `%` around
a text, behind it or in front of it finds the texts that evaluation finds, and these only as long as
there is no `%` in the text itself (`like_of_evaluate`).

The text is what the second operand evaluates to without a document, and so with any
(`evaluate_of_none`).
-/

namespace Criteria

/-! ### Matching -/

namespace Query

/-- Whether a text matches a pattern, in which `%` stands for any characters and all others for
themselves. -/
def matchesPattern : List Char → List Char → Bool
  | [], text => text.isEmpty
  | c :: pattern, text =>
    if c = '%' then text.tails.any (matchesPattern pattern ·)
    else
      match text with
      | [] => false
      | d :: rest => c == d && matchesPattern pattern rest

theorem matchesPattern_wildcard {pattern text : List Char} :
    matchesPattern ('%' :: pattern) text = true ↔
      ∃ rest, rest <:+ text ∧ matchesPattern pattern rest = true := by
  simp [matchesPattern]

theorem matchesPattern_cons {c : Char} (hc : c ≠ '%') {pattern text : List Char} :
    matchesPattern (c :: pattern) text = true ↔
      ∃ rest, text = c :: rest ∧ matchesPattern pattern rest = true := by
  cases text <;> simp [matchesPattern, hc]
  grind

/-- Characters without a wildcard among them match themselves only. -/
theorem matchesPattern_append {part pattern text : List Char} (h : '%' ∉ part) :
    matchesPattern (part ++ pattern) text = true ↔
      ∃ rest, text = part ++ rest ∧ matchesPattern pattern rest = true := by
  induction part generalizing text with
  | nil => simp
  | cons c part ih =>
    obtain ⟨hc, hpart⟩ := not_or.1 (mt List.mem_cons.2 h)
    rw [List.cons_append, matchesPattern_cons (Ne.symm hc)]
    simp only [ih hpart]
    constructor
    · rintro ⟨_, rfl, rest, rfl, h⟩
      exact ⟨rest, rfl, h⟩
    · rintro ⟨rest, rfl, h⟩
      exact ⟨part ++ rest, rfl, rest, rfl, h⟩

/-- Any characters match themselves, a wildcard among them included. -/
theorem matchesPattern_append_self (part : List Char) {pattern rest : List Char}
    (h : matchesPattern pattern rest = true) :
    matchesPattern (part ++ pattern) (part ++ rest) = true := by
  induction part with
  | nil => exact h
  | cons c part ih =>
    by_cases hc : c = '%'
    · subst hc
      exact matchesPattern_wildcard.2 ⟨_, List.suffix_cons _ _, ih⟩
    · exact (matchesPattern_cons hc).2 ⟨_, rfl, ih⟩

/-- Characters match also without the wildcards among them. -/
theorem matchesPattern_filter (part : List Char) {pattern rest : List Char}
    (h : matchesPattern pattern rest = true) :
    matchesPattern (part ++ pattern) (part.filter (· ≠ '%') ++ rest) = true := by
  induction part with
  | nil => exact h
  | cons c part ih =>
    by_cases hc : c = '%'
    · subst hc
      exact matchesPattern_wildcard.2 ⟨_, List.suffix_rfl, ih⟩
    · rw [List.filter_cons_of_pos (by simpa using hc)]
      exact (matchesPattern_cons hc).2 ⟨_, rfl, ih⟩

theorem matchesPattern_any (text : List Char) : matchesPattern ['%'] text = true :=
  matchesPattern_wildcard.2 ⟨[], List.nil_suffix, rfl⟩

end Query

open Query

/-! ### Patterns around a text -/

/-- The operators on texts. -/
def Operator.isSearch : Operator → Bool
  | .contains | .startsWith | .endsWith => true
  | _ => false

/-- Whether a text is found in another: anywhere, at its beginning or at its end. -/
def Operator.finds (op : Operator) (part text : List Char) : Bool :=
  match op with
  | .startsWith => part.isPrefixOf text
  | .endsWith => part.isSuffixOf text
  | _ => Text.hasPart part text

theorem Text.hasPart_iff {part text : List Char} : hasPart part text = true ↔ part <:+: text := by
  induction text with
  | nil => simp [hasPart]
  | cons c cs ih => rw [hasPart, Bool.or_eq_true, ih, List.infix_cons_iff, List.isPrefixOf_iff_prefix]

namespace Operator

variable {op : Operator}

theorem finds_iff {part text : List Char} : op.finds part text = true ↔
    match op with
    | .startsWith => part <+: text
    | .endsWith => part <:+ text
    | _ => part <:+: text := by
  unfold finds
  cases op
  case startsWith => exact List.isPrefixOf_iff_prefix
  case endsWith => exact List.isSuffixOf_iff_suffix
  all_goals exact Text.hasPart_iff

theorem length_le_of_finds {part text : List Char} (h : op.finds part text = true) :
    part.length ≤ text.length := by
  rw [finds_iff] at h
  cases op
  case startsWith => exact List.IsPrefix.length_le h
  case endsWith => exact List.IsSuffix.length_le h
  all_goals exact List.IsInfix.length_le h

/-- What is found matches. -/
theorem matchesPattern_of_finds (hop : op.isSearch = true) {part : String} {text : List Char}
    (h : op.finds part.toList text = true) :
    matchesPattern (likePattern op part).toList text = true := by
  rw [finds_iff] at h
  cases op <;> try cases hop
  case contains =>
    obtain ⟨before, after, rfl⟩ := h
    have hpart := matchesPattern_append_self part.toList (matchesPattern_any after)
    simpa [likePattern] using matchesPattern_wildcard.2
      ⟨_, ⟨before, (List.append_assoc ..).symm⟩, hpart⟩
  case startsWith =>
    obtain ⟨after, rfl⟩ := h
    simpa [likePattern] using matchesPattern_append_self part.toList (matchesPattern_any after)
  case endsWith =>
    obtain ⟨before, rfl⟩ := h
    have hpart : matchesPattern (part.toList ++ []) (part.toList ++ []) = true :=
      matchesPattern_append_self part.toList rfl
    rw [List.append_nil] at hpart
    simpa [likePattern] using matchesPattern_wildcard.2 ⟨_, ⟨before, rfl⟩, hpart⟩

/-- What matches is found, if the wildcards of the pattern are those around the text. -/
theorem finds_of_matchesPattern (hop : op.isSearch = true) {part : String} {text : List Char}
    (hpart : '%' ∉ part.toList) (h : matchesPattern (likePattern op part).toList text = true) :
    op.finds part.toList text = true := by
  rw [finds_iff]
  cases op <;> try cases hop
  case contains =>
    obtain ⟨rest, ⟨before, rfl⟩, hrest⟩ := matchesPattern_wildcard.1 (by simpa [likePattern] using h)
    obtain ⟨after, rfl, -⟩ := (matchesPattern_append hpart).1 hrest
    exact ⟨before, after, List.append_assoc ..⟩
  case startsWith =>
    obtain ⟨after, rfl, -⟩ := (matchesPattern_append hpart).1 (by simpa [likePattern] using h)
    exact ⟨after, rfl⟩
  case endsWith =>
    obtain ⟨rest, ⟨before, rfl⟩, hrest⟩ := matchesPattern_wildcard.1 (by simpa [likePattern] using h)
    rw [← List.append_nil part.toList] at hrest
    obtain ⟨after, rfl, hafter⟩ := (matchesPattern_append hpart).1 hrest
    obtain rfl : after = [] := by simpa [matchesPattern] using hafter
    exact ⟨before, by rw [List.append_nil]⟩

/-- A text matches also without the wildcards in it. -/
theorem matchesPattern_without_wildcards (hop : op.isSearch = true) (part : String) :
    matchesPattern (likePattern op part).toList (part.toList.filter (· ≠ '%')) = true := by
  have hany := matchesPattern_filter part.toList (matchesPattern_any [])
  have hend : matchesPattern (part.toList ++ []) (part.toList.filter (· ≠ '%') ++ []) = true :=
    matchesPattern_filter part.toList rfl
  rw [List.append_nil] at hany
  rw [List.append_nil, List.append_nil] at hend
  cases op <;> try cases hop
  case contains => simpa [likePattern] using matchesPattern_wildcard.2 ⟨_, List.suffix_rfl, hany⟩
  case startsWith => simpa [likePattern] using hany
  case endsWith => simpa [likePattern] using matchesPattern_wildcard.2 ⟨_, List.suffix_rfl, hend⟩

/-- With a wildcard in it, a text is longer than what is left without. -/
theorem not_finds_without_wildcards {part : List Char} (hpart : '%' ∈ part) :
    op.finds part (part.filter (· ≠ '%')) = false := by
  have hlt : (part.filter (· ≠ '%')).length < part.length :=
    List.length_filter_lt_length_iff_exists.2 ⟨'%', hpart, by simp⟩
  rw [Bool.eq_false_iff]
  exact fun h => absurd (length_le_of_finds h) (Nat.not_le.2 hlt)

end Operator

/-! ### Searches compiled and evaluated -/

theorem Operator.evaluate_search {op : Operator} (hop : op.isSearch = true)
    {document : Option Value} {x y : Term} {a v : Value} (hx : x.evaluate document = .ok a)
    (hy : y.evaluate document = .ok v) : op.evaluate document [x, y] =
      .ok (.boolean (op.finds v.asText.toList a.asText.toList)) := by
  cases op <;> try cases hop
  all_goals
    rw [evaluate_pair rfl (by decide), hx, hy]
    rfl

theorem Operator.compile_search {σ ν ε : Type} [DecidableEq ν] (b : Backend σ ν ε) {op : Operator}
    (hop : op.isSearch = true) {y : Term} {v : Value} (hy : y.evaluate none = .ok v) (x : Term) :
    op.compile b [x, y] = (do
      let c ← x.compile b none
      flagJoins b op [c]
      call (b.like c.expr (likePattern op v.asText))) := by
  have hv : (evaluated (y.evaluate none) : Compiling σ ν Value) = pure v := by
    rw [hy]
    rfl
  rw [compile_pair]
  cases op <;> try cases hop
  all_goals simp only [compilePair, hv, pure_bind]

/-- **Patterns find what evaluation finds**, and nothing else just if there is no wildcard in the
text. -/
theorem like_of_evaluate {op : Operator} (hop : op.isSearch = true) {y : Term} {v : Value}
    (hy : y.evaluate none = .ok v) :
    ∃ pattern : String,
      (∀ {σ ν ε : Type} [DecidableEq ν] (b : Backend σ ν ε) (x : Term), op.compile b [x, y] = do
        let c ← x.compile b none
        flagJoins b op [c]
        call (b.like c.expr pattern)) ∧
      (∀ document x s, x.evaluate document = .ok (.string s) →
        op.evaluate document [x, y] = .ok (.boolean true) →
          matchesPattern pattern.toList s.toList = true) ∧
      ('%' ∉ v.asText.toList → ∀ document x s, x.evaluate document = .ok (.string s) →
        op.evaluate document [x, y] = .ok (.boolean (matchesPattern pattern.toList s.toList))) ∧
      ('%' ∈ v.asText.toList → ∃ s : String, matchesPattern pattern.toList s.toList = true ∧
        ∀ document, op.evaluate document [.literal (.string s), y] = .ok (.boolean false)) := by
  refine ⟨likePattern op v.asText, fun b x => Operator.compile_search b hop hy x, ?_, ?_, ?_⟩
  · intro document x s hx h
    rw [Operator.evaluate_search hop hx (Term.evaluate_of_none hy document)] at h
    exact Operator.matchesPattern_of_finds hop (Value.boolean.inj (Except.ok.inj h))
  · intro hno document x s hx
    rw [Operator.evaluate_search hop hx (Term.evaluate_of_none hy document)]
    congr 2
    exact Bool.eq_iff_iff.2
      ⟨Operator.matchesPattern_of_finds hop, Operator.finds_of_matchesPattern hop hno⟩
  · intro hmem
    refine ⟨String.ofList (v.asText.toList.filter (· ≠ '%')), ?_, fun document => ?_⟩
    · rw [String.toList_ofList]
      exact Operator.matchesPattern_without_wildcards hop _
    · rw [Operator.evaluate_search hop rfl (Term.evaluate_of_none hy document)]
      rw [Value.asText, String.toList_ofList, Operator.not_finds_without_wildcards hmem]

/-- So `startsWith(name, '5')` is compiled to the pattern `5%`, in which there is one wildcard. -/
theorem like_of_evaluate_five : ∃ pattern : String, ∀ document x s,
    x.evaluate document = .ok (.string s) →
      Operator.startsWith.evaluate document [x, .literal (.string "5")] =
        .ok (.boolean (matchesPattern pattern.toList s.toList)) :=
  have hsearch : Operator.startsWith.isSearch = true := rfl
  have hy : (Term.literal (.string "5")).evaluate none = .ok (.string "5") := rfl
  let ⟨pattern, _, _, h, _⟩ := like_of_evaluate hsearch hy
  ⟨pattern, h (by decide)⟩

/-- The pattern for `startsWith('500', '50%')` matches `500`, but evaluation does not find `50%` in
it. -/
theorem like_ne_evaluate :
    (∀ (b : Backend Unit String String) (x : Term),
      Operator.startsWith.compile b [x, .literal (.string "50%")] = (do
        let c ← x.compile b none
        flagJoins b .startsWith [c]
        call (b.like c.expr "50%%"))) ∧
      matchesPattern "50%%".toList "500".toList = true ∧
      Operator.startsWith.evaluate none [.literal (.string "500"), .literal (.string "50%")] =
        .ok (.boolean false) := by
  have hpattern : likePattern .startsWith "50%" = "50%%" := by decide
  have hy : (Term.literal (.string "50%")).evaluate none = .ok (.string "50%") := rfl
  refine ⟨fun b x => ?_, by decide, by decide⟩
  rw [← hpattern]
  exact Operator.compile_search b rfl hy x

end Criteria

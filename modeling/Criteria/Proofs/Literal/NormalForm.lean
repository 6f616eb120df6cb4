import Criteria.Proofs.Literal.Classification

/-!
# Classification is a normal form

What a text is classified as is written in a text that is classified as it again
(`classify_render`). The values that come of classification are known from their shape
(`Value.Normal`): scalars whose text is read back, and lists of items that stay whole between
commas. A comma always ends an item, so a list among the items has one item at most.

Values that do not come of classification are not read back. For a list of scalars that is a matter
of its strings, which have to do without commas and line feeds, and of leap seconds
(`classify_render_list_iff`).
-/

namespace Criteria

open Text

namespace Value

/-- Whether a value may be an item of a list that is read back. No comma and no line feed may stand
in its text, and so a list has one item at most. -/
inductive FitsItem : Value → Prop where
  | scalar {v : Value} (h : v.IsScalar)
      (whole : ∀ s, v = .string s → ∀ c ∈ s.toList, c ≠ ',' ∧ c ≠ '\n') : FitsItem v
  | empty : FitsItem (.list [])
  | single {v : Value} (h : FitsItem v) : FitsItem (.list [v])

/-- Whether a value is one that texts are classified as. -/
inductive Normal : Value → Prop where
  | scalar {v : Value} (h : v.IsScalar) : Normal v
  | list {items : List Value} (h : ∀ v ∈ items, v.FitsItem) : Normal (.list items)

end Value

namespace Literal

/-! ### Normal values are read back -/

theorem isPiece_quote {s : String} (h : ∀ c ∈ s.toList, c ≠ ',' ∧ c ≠ '\n') :
    IsPiece (Value.quote s).toList := by
  refine ⟨(ends_quote s).1, (ends_quote s).2, fun c hc => ?_⟩
  rcases mem_quote hc with rfl | hc
  · decide
  · exact h c hc

theorem isPiece_brackets {body : List Char} (h : ∀ c ∈ body, c ≠ ',' ∧ c ≠ '\n') :
    IsPiece ('[' :: (body ++ [']'])) := by
  refine ⟨⟨'[', rfl, rfl⟩, fun c hc => ?_, fun c hc => ?_⟩
  · rw [← List.cons_append, List.getLast?_concat] at hc
    cases hc
    rfl
  · simp only [List.mem_cons, List.mem_append, List.not_mem_nil, or_false] at hc
    rcases hc with rfl | hc | rfl
    · decide
    · exact h c hc
    · decide

/-- An item is read back, and its text stays whole. -/
theorem classifyChars_render_item {v : Value} (h : v.FitsItem) :
    IsPiece v.render.toList ∧ classifyChars v.render.toList = some v := by
  induction h with
  | @scalar v h whole =>
    refine ⟨?_, classifyChars_render_scalar h⟩
    by_cases hs : ∃ s, v = .string s
    · obtain ⟨s, rfl⟩ := hs
      exact isPiece_quote (whole s rfl)
    · exact (isItem_scalar h (not_exists.1 hs)).isPiece
  | empty =>
    have hbody : ∀ c ∈ ([] : List Char), c ≠ ',' ∧ c ≠ '\n' := nofun
    exact ⟨isPiece_brackets hbody, classifyChars_render_list nofun nofun⟩
  | @single v _ ih =>
    obtain ⟨hpiece, hread⟩ := ih
    have hchars : (Value.list [v]).render.toList = '[' :: (v.render.toList ++ [']']) := by
      simp [Value.render, Value.renderItems]
    refine ⟨hchars ▸ isPiece_brackets hpiece.whole, ?_⟩
    exact classifyChars_render_list (List.forall_mem_singleton.2 hpiece)
      (List.forall_mem_singleton.2 hread)

theorem classifyChars_render_of_normal {v : Value} (h : v.Normal) :
    classifyChars v.render.toList = some v := by
  cases h with
  | scalar h => exact classifyChars_render_scalar h
  | list h =>
    exact classifyChars_render_list (fun v hv => (classifyChars_render_item (h v hv)).1)
      fun v hv => (classifyChars_render_item (h v hv)).2

/-! ### What is read is normal -/

/-- The items of a list without commas: there is one at most. -/
theorem listItems_of_no_comma {body : List Char} (h : ∀ c ∈ body, c ≠ ',') :
    listItems ('[' :: (body ++ [']'])) = [] ∨
      listItems ('[' :: (body ++ [']'])) = [trim body] := by
  unfold listItems
  rw [inner_append]
  dsimp only
  split_ifs with hempty
  · exact .inl rfl
  · rw [splitAt_eq_singleton fun c hc => by simpa using h c hc]
    exact .inr rfl

/-- What the text of an item stands for may be an item. -/
theorem fitsItem_of_item {item : List Char} (h : ∀ c ∈ item, c ≠ ',' ∧ c ≠ '\n') :
    ((classifyChars item).getD (.string (String.ofList item))).FitsItem := by
  -- by induction on the length of the text, since a list in it has a shorter item
  generalize hn : item.length = n
  induction n using Nat.strongRecOn generalizing item with
  | ind n ih =>
  subst hn
  cases hscalar : scalar? item with
  | some v =>
    obtain ⟨hv, hstring⟩ := isScalar_of_scalar? hscalar
    rw [classifyChars_of_scalar? hscalar]
    exact .scalar hv fun s hs c hc => h c (hstring s hs c hc)
  | none =>
    by_cases hbrackets : ∃ body, item = '[' :: (body ++ [']'])
    · obtain ⟨body, rfl⟩ := hbrackets
      have hbody : ∀ c ∈ body, c ≠ ',' ∧ c ≠ '\n' := fun c hc => h c (by simp [hc])
      rw [classifyChars_brackets body fun c hc => (hbody c hc).2]
      rcases listItems_of_no_comma fun c hc => (hbody c hc).1 with hitems | hitems
      · rw [hitems]
        exact .empty
      · have hshort : (trim body).length < ('[' :: (body ++ [']'])).length :=
          length_of_mem_listItems (by simp [hitems])
        rw [hitems]
        exact .single (ih _ hshort (fun c hc => hbody c (mem_of_mem_trim hc)) rfl)
    · have hlist : matchesWhole listPattern item = false := by
        rw [Bool.eq_false_iff, ne_eq, matchesWhole_listPattern]
        exact fun ⟨body, heq, _⟩ => hbrackets ⟨body, heq⟩
      rw [classifyChars_eq_none hscalar hlist]
      refine .scalar trivial ?_
      rintro _ ⟨⟩ c hc
      rw [String.toList_ofList] at hc
      exact h c hc

theorem normal_of_classifyChars {cs : List Char} {v : Value} (h : classifyChars cs = some v) :
    v.Normal := by
  cases hscalar : scalar? cs with
  | some w =>
    rw [classifyChars_of_scalar? hscalar] at h
    cases h
    exact .scalar (isScalar_of_scalar? hscalar).1
  | none =>
    cases hlist : matchesWhole listPattern cs with
    | true =>
      obtain ⟨body, rfl, hbody⟩ := matchesWhole_listPattern.1 hlist
      rw [classifyChars_brackets body hbody] at h
      cases h
      -- an item stands between two commas, and the whole list on one line
      refine .list (List.forall_mem_map.2 fun item hitem => fitsItem_of_item fun c hc => ?_)
      obtain ⟨hcomma, hmem⟩ := mem_of_mem_listItems hitem c hc
      exact ⟨hcomma, hbody c hmem⟩
    | false =>
      rw [classifyChars_eq_none hscalar hlist] at h
      cases h

/-- **The values that are read back from their texts are the normal ones.** -/
theorem classifyChars_render_iff {v : Value} :
    classifyChars v.render.toList = some v ↔ v.Normal :=
  ⟨normal_of_classifyChars, classifyChars_render_of_normal⟩

/-- **What a text is classified as is read back from its own text.** -/
theorem classify_render {text : String} {v : Value} (h : classify text = some v) :
    classify v.render = some v :=
  classifyChars_render_iff.2 (normal_of_classifyChars h)

/-- A list in a list, a text that is no literal, a number with zeros in front and an item of no
characters are read back. -/
theorem classify_render_nested :
    let v : Value := .list [.list [.string "x"], .integer 7, .string "it's", .string ""]
    classify "[[ x ],007, it's,]" = some v ∧ classify "[['x'],7,'it''s','']" = some v := by
  have hscalar : scalar? "x".toList = none ∧ scalar? "007".toList = some (.integer 7) ∧
      scalar? "it's".toList = none ∧ scalar? [] = none := by decide +kernel
  have hlist : matchesWhole listPattern "x".toList = false ∧
      matchesWhole listPattern "it's".toList = false ∧ matchesWhole listPattern [] = false := by
    decide +kernel
  have hinner : classifyChars "[ x ]".toList = some (.list [.string "x"]) := by
    refine (classifyChars_brackets " x ".toList (by decide)).trans ?_
    rw [show listItems ('[' :: (" x ".toList ++ [']'])) = ["x".toList] by decide]
    simp only [List.map_cons, List.map_nil, classifyChars_eq_none hscalar.1 hlist.1]
    rfl
  have hread : classify "[[ x ],007, it's,]" = some (.list [.list [.string "x"], .integer 7,
      .string "it's", .string ""]) := by
    refine (classifyChars_brackets "[ x ],007, it's,".toList (by decide)).trans ?_
    rw [show listItems ('[' :: ("[ x ],007, it's,".toList ++ [']'])) =
      ["[ x ]".toList, "007".toList, "it's".toList, []] by decide]
    simp only [List.map_cons, List.map_nil, hinner, classifyChars_of_scalar? hscalar.2.1,
      classifyChars_eq_none hscalar.2.2.1 hlist.2.1, classifyChars_eq_none hscalar.2.2.2 hlist.2.2]
    rfl
  exact ⟨hread, classify_render hread⟩

end Literal

/-! ### Lists of scalars -/

namespace Value

/-- Whether a value is a scalar with a year of four digits, if it has one, and finite, if it is a
double. -/
def InRange : Value → Prop
  | double x => x.isFinite = true
  | date d => d.Writable
  | dateTime d => d.date.Writable ∧ d.hour < 24 ∧ d.minute < 60 ∧ d.second < 60 ∧
      d.nanos < 2 * nanosPerSecond
  | list _ | object _ => False
  | null | boolean _ | integer _ | long _ | string _ | guid _ => True

/-- Whether a scalar stays the same as an item of a list: nothing in a string ends an item or the
line, and a leap second is the last of its minute. -/
def StaysWhole : Value → Prop
  | string s => ∀ c ∈ s.toList, c ≠ ',' ∧ c ≠ '\n'
  | dateTime d => nanosPerSecond ≤ d.nanos → d.second = 59
  | _ => True

theorem fitsItem_iff {v : Value} (h : v.InRange) : v.FitsItem ↔ v.StaysWhole := by
  cases v with
  | string s =>
    refine ⟨fun hv => ?_, fun hv => .scalar trivial ?_⟩
    · cases hv with
      | scalar _ whole => exact whole s rfl
    · rintro _ ⟨⟩
      exact hv
  | dateTime d =>
    refine ⟨fun hv => ?_, fun hv => .scalar ?_ nofun⟩
    · cases hv with
      | scalar hd _ => exact DateTime.Writable.leap hd
    · obtain ⟨hdate, hhour, hminute, hsecond, hnanos⟩ := h
      exact DateTime.Writable.mk hdate hhour hminute hsecond hnanos hv
  | double x => exact ⟨fun _ => trivial, fun _ => .scalar h nofun⟩
  | date d => exact ⟨fun _ => trivial, fun _ => .scalar h nofun⟩
  | list | object => exact h.elim
  | _ => exact ⟨fun _ => trivial, fun _ => .scalar trivial nofun⟩

end Value

namespace Literal

/-- **A list of scalars is read back from its text just if each of them stays whole in it.** -/
theorem classify_render_list_iff {vs : List Value} (h : ∀ v ∈ vs, v.InRange) :
    classify (Value.list vs).render = some (.list vs) ↔ ∀ v ∈ vs, v.StaysWhole := by
  have hitems : (Value.list vs).Normal ↔ ∀ v ∈ vs, v.FitsItem := by
    refine ⟨fun hn => ?_, .list⟩
    cases hn with
    | scalar hv => exact hv.elim
    | list hv => exact hv
  rw [classify, classifyChars_render_iff, hitems]
  exact forall₂_congr fun v hv => Value.fitsItem_iff (h v hv)

/-- Brackets, quotes and blanks may stand in the strings of a list. -/
theorem classify_render_list_brackets :
    let vs : List Value := [.string " ]['", .integer 1]
    (∀ v ∈ vs, v.InRange ∧ v.StaysWhole) ∧ classify "[' ][''',1]" = some (.list vs) := by
  have hrange : ∀ v ∈ [Value.string " ]['", .integer 1], v.InRange ∧ v.StaysWhole := by
    have hwhole : ∀ c ∈ " ]['".toList, c ≠ ',' ∧ c ≠ '\n' := by decide
    exact List.forall_mem_cons.2 ⟨⟨trivial, hwhole⟩, List.forall_mem_singleton.2 ⟨trivial, trivial⟩⟩
  exact ⟨hrange, (classify_render_list_iff fun v hv => (hrange v hv).1).2 fun v hv => (hrange v hv).2⟩

/-- A string with a comma in it is read as two items. -/
theorem classify_render_comma :
    (Value.list [.string "a,b"]).render = "['a,b']" ∧ (∀ v ∈ [Value.string "a,b"], v.InRange) ∧
      classify "['a,b']" = some (.list [.string "'a", .string "b'"]) ∧
      classify "['a,b']" ≠ some (.list [.string "a,b"]) := by
  have hscalar : scalar? "'a".toList = none ∧ scalar? "b'".toList = none := by decide +kernel
  have hlist : matchesWhole listPattern "'a".toList = false ∧
      matchesWhole listPattern "b'".toList = false := by decide +kernel
  have hread : classify "['a,b']" = some (.list [.string "'a", .string "b'"]) := by
    refine (classifyChars_brackets "'a,b'".toList (by decide)).trans ?_
    rw [show listItems ('[' :: ("'a,b'".toList ++ [']'])) = ["'a".toList, "b'".toList] by decide]
    simp only [List.map_cons, List.map_nil, classifyChars_eq_none hscalar.1 hlist.1,
      classifyChars_eq_none hscalar.2 hlist.2]
    rfl
  refine ⟨by decide, List.forall_mem_singleton.2 trivial, hread, ?_⟩
  rw [hread]
  decide

end Literal

end Criteria

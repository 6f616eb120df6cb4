import Criteria.Proofs.Literal.Dates

/-!
# Literals are read back

What `Value.render` writes is classified as the value, for every value that can be written
(`classifyChars_render`), and what is classified as a value can be written (`Value.Writable`). The
items of lists are scalars, and strings among them are free of the characters that end items.
-/

namespace Criteria

open Text Numeral Pattern

/-! ### Values that can be written -/

namespace Value

/-- Whether a value is a scalar whose text is read back. -/
def IsScalar : Value → Prop
  | double x => x.isFinite = true
  | date d => d.Writable
  | dateTime d => d.Writable
  | list _ | object _ => False
  | null | boolean _ | integer _ | long _ | string _ | guid _ => True

/-- Whether a character may stand in a string that is an item of a list. -/
def InList (c : Char) : Prop := c ≠ ',' ∧ c ≠ ']' ∧ c ≠ '\n'

/-- Whether a value may be an item of a list. -/
def FitsList (v : Value) : Prop := v.IsScalar ∧ ∀ s, v = string s → ∀ c ∈ s.toList, InList c

/-- Whether the text of a value is read back. -/
def Writable : Value → Prop
  | list items => ∀ v ∈ items, v.FitsList
  | v => v.IsScalar

end Value

namespace Pattern

/-- The characters of a pattern all of whose sets ignore case, before case is ignored. -/
def unfolded? : Pattern → Option CharSet
  | empty | anchor _ => some .none
  | one (.folded a) => some a
  | one _ => none
  | seq p q | alt p q => do return .union (← p.unfolded?) (← q.unfolded?)
  | opt _ p | star _ p | plus _ p => p.unfolded?

theorem contains_unfolded {p : Pattern} {a : CharSet} (ha : p.unfolded? = some a) {c : Char}
    (hc : p.mayTake c = true) : (CharSet.folded a).contains c = true := by
  have hunion {a b : CharSet} : (CharSet.folded (.union a b)).contains c =
      ((CharSet.folded a).contains c || (CharSet.folded b).contains c) := by
    rw [Bool.eq_iff_iff]
    simp only [CharSet.contains_folded_iff, Bool.or_eq_true, CharSet.contains_union]
    grind
  induction p generalizing a with
  | empty | anchor => cases hc
  | one set =>
    cases set with
    | folded b =>
      cases ha
      exact hc
    | _ => cases ha
  | seq p q ihp ihq | alt p q ihp ihq =>
    obtain ⟨b, hb, ha⟩ := Option.bind_eq_some_iff.1 ha
    obtain ⟨d, hd, ha⟩ := Option.bind_eq_some_iff.1 ha
    cases ha
    rw [hunion, Bool.or_eq_true]
    exact (Bool.or_eq_true_iff.1 hc).imp (ihp hb) (ihq hd)
  | opt _ p ih | star _ p ih | plus _ p ih => exact ih ha hc

end Pattern

namespace Literal

/-! ### Scalars -/

theorem decides_null : Family.null.Decides Value.null.render.toList .null := by
  have htakes : matchesWhole Family.null.pattern Value.null.render.toList = true := by decide
  exact ⟨by simp [Family.earlier, Family.all], (matchesWhole_iff Family.null.plain_pattern).1 htakes,
    rfl⟩

theorem decides_boolean (b : Bool) :
    Family.boolean.Decides (Value.boolean b).render.toList (.boolean b) := by
  have table : ∀ b, matchesWhole Family.null.pattern (Value.boolean b).render.toList = false ∧
      matchesWhole Family.boolean.pattern (Value.boolean b).render.toList = true := by
    decide +kernel
  obtain ⟨hnull, htakes⟩ := table b
  refine ⟨?_, (matchesWhole_iff Family.boolean.plain_pattern).1 htakes, by cases b <;> rfl⟩
  intro g hg
  have hg : g = .null := by simpa [Family.earlier, Family.all] using hg
  rw [hg, ← matchesWhole_iff Family.null.plain_pattern, hnull]
  simp

/-- **The text of a scalar is read by a family**, and strings alone by that of quoted text. -/
theorem exists_decides {v : Value} (h : v.IsScalar) :
    ∃ f : Family, f.Decides v.render.toList v ∧ (f = .text → ∃ s, v = .string s) := by
  cases v with
  | null => exact ⟨.null, decides_null, by simp⟩
  | boolean b => exact ⟨.boolean, decides_boolean b, by simp⟩
  | integer n => exact ⟨.integer, decides_integer n, by simp⟩
  | long n => exact ⟨.long, by simpa [Value.render] using decides_long n, by simp⟩
  | double x => exact ⟨.double, decides_double h, by simp⟩
  | string s => exact ⟨.text, decides_text s, fun _ => ⟨s, rfl⟩⟩
  | guid g => exact ⟨.guid, decides_guid g, by simp⟩
  | date d => exact ⟨.date, decides_date h, by simp⟩
  | dateTime d => exact ⟨.dateTime, decides_dateTime h, by simp⟩
  | list | object => exact h.elim

/-- Whether a character is no blank and does not end an item of a list. -/
def Bare (c : Char) : Prop := isBlank c = false ∧ c ≠ ',' ∧ c ≠ ']'

instance (c : Char) : Decidable (Bare c) := by
  unfold Bare
  infer_instance

/-- Only strings have blanks in their text, or characters that end items. -/
theorem bare_of_takes {f : Family} (hf : f ≠ .text) {cs : List Char} (h : f.pattern.Takes cs []) :
    ∀ c ∈ cs, Bare c := by
  obtain ⟨front, rfl, hfront⟩ := h.mayTake
  rw [List.append_nil]
  intro c hc
  have hc := hfront c hc
  have hset {a : CharSet} (ha : f.pattern.unfolded? = some a) (hascii : a.isAscii = true)
      (htable : ∀ n < 128, a.contains (Char.ofNat n) = true →
        ∀ v ∈ caseVariants (Char.ofNat n), Bare v) : Bare c :=
    CharSet.forall_folded hascii htable (contains_unfolded ha hc)
  cases f with
  | text => exact absurd rfl hf
  | _ => exact hset rfl rfl (by decide +kernel)

/-! ### Lists -/

/-- The text of an item: it has no blanks at its ends, and nothing in it ends an item. -/
structure IsItem (cs : List Char) : Prop where
  first : ∃ c ∈ cs.head?, isBlank c = false
  last : ∀ c ∈ cs.getLast?, isBlank c = false
  inList : ∀ c ∈ cs, Value.InList c

/-- A text that stays whole between commas: it has no blanks at its ends, and no comma and no line
feed in it. -/
structure IsPiece (cs : List Char) : Prop where
  first : ∃ c ∈ cs.head?, isBlank c = false
  last : ∀ c ∈ cs.getLast?, isBlank c = false
  whole : ∀ c ∈ cs, c ≠ ',' ∧ c ≠ '\n'

theorem IsItem.isPiece {cs : List Char} (h : IsItem cs) : IsPiece cs :=
  ⟨h.first, h.last, fun c hc => ⟨(h.inList c hc).1, (h.inList c hc).2.2⟩⟩

theorem isItem_of_bare {cs : List Char} (hne : cs ≠ []) (h : ∀ c ∈ cs, Bare c) : IsItem cs := by
  refine ⟨⟨cs.head hne, List.head?_eq_some_head hne, (h _ (List.head_mem hne)).1⟩, ?_, ?_⟩
  · exact fun c hc => (h c (List.mem_of_mem_getLast? hc)).1
  · intro c hc
    obtain ⟨hblank, hcomma, hbracket⟩ := h c hc
    refine ⟨hcomma, hbracket, ?_⟩
    rintro rfl
    cases hblank

theorem mem_doubleQuotes {s : List Char} {c : Char} (h : c ∈ Value.doubleQuotes s) : c ∈ s := by
  induction s with
  | nil => cases h
  | cons d s ih =>
    rw [Value.doubleQuotes] at h
    split_ifs at h with hd
    · subst hd
      simp only [List.mem_cons] at h ⊢
      rcases h with h | h | h
      · exact .inl h
      · exact .inl h
      · exact .inr (ih h)
    · simp only [List.mem_cons] at h ⊢
      exact h.imp_right ih

theorem mem_quote {s : String} {c : Char} (h : c ∈ (Value.quote s).toList) :
    c = '\x27' ∨ c ∈ s.toList := by
  rw [toList_quote] at h
  rcases List.mem_cons.1 h with rfl | h
  · exact .inl rfl
  · exact (List.mem_append.1 h).symm.imp List.mem_singleton.1 mem_doubleQuotes

theorem ends_quote (s : String) : (∃ c ∈ (Value.quote s).toList.head?, isBlank c = false) ∧
    ∀ c ∈ (Value.quote s).toList.getLast?, isBlank c = false := by
  rw [toList_quote]
  refine ⟨⟨'\x27', rfl, rfl⟩, fun c hc => ?_⟩
  rw [← List.cons_append, List.getLast?_concat] at hc
  cases hc
  rfl

theorem isItem_quote {s : String} (h : ∀ c ∈ s.toList, Value.InList c) :
    IsItem (Value.quote s).toList := by
  have hquote : Value.InList '\x27' := by simp [Value.InList]
  refine ⟨(ends_quote s).1, (ends_quote s).2, fun c hc => ?_⟩
  rcases mem_quote hc with rfl | hc
  · exact hquote
  · exact h c hc

/-- Only strings can have anything in their text that ends an item. -/
theorem isItem_scalar {v : Value} (h : v.IsScalar) (hs : ∀ s, v ≠ .string s) :
    IsItem v.render.toList := by
  obtain ⟨f, hf, htext⟩ := exists_decides h
  have hftext : f ≠ .text := fun heq => (htext heq).elim hs
  refine isItem_of_bare ?_ (bare_of_takes hftext hf.takes)
  intro hnil
  have htakes := hf.takes
  have table : ∀ f : Family, matchesWhole f.pattern [] = false := by
    intro f
    cases f <;> decide
  rw [hnil, ← matchesWhole_iff f.plain_pattern, table f] at htakes
  cases htakes

theorem isItem_render {v : Value} (h : v.FitsList) : IsItem v.render.toList := by
  obtain ⟨hscalar, hstring⟩ := h
  by_cases hs : ∃ s, v = .string s
  · obtain ⟨s, rfl⟩ := hs
    exact isItem_quote (hstring s rfl)
  · exact isItem_scalar hscalar (not_exists.1 hs)

theorem toList_renderItems (items : List Value) :
    (Value.renderItems items).toList = [','].intercalate (items.map fun v => v.render.toList) := by
  induction items with
  | nil => rfl
  | cons v items ih =>
    rcases items with _ | ⟨w, items⟩
    · simp [Value.renderItems]
    · rw [List.map_cons] at ih
      rw [List.map_cons, List.map_cons, List.intercalate_cons_cons, ← ih]
      simp [Value.renderItems]

/-- The items of a list are found again, if their texts stay whole. -/
theorem listItems_render {items : List Value} (h : ∀ v ∈ items, IsPiece v.render.toList) :
    listItems (Value.list items).render.toList = items.map fun v => v.render.toList := by
  have hinner : inner (Value.list items).render.toList =
      [','].intercalate (items.map fun v => v.render.toList) := by
    have hchars : (Value.list items).render.toList =
        '[' :: ((Value.renderItems items).toList ++ [']']) := by simp [Value.render]
    rw [hchars, inner_append, toList_renderItems]
  have hpiece : ∀ text ∈ items.map fun v => v.render.toList, IsPiece text := by
    intro text ht
    obtain ⟨v, hv, rfl⟩ := List.mem_map.1 ht
    exact h v hv
  unfold listItems
  rw [hinner]
  generalize items.map (fun v => v.render.toList) = texts at *
  rcases texts with _ | ⟨text, texts⟩
  · rfl
  · obtain ⟨c, hc, hblank⟩ := (hpiece text List.mem_cons_self).first
    have hmem := mem_trim (mem_intercalate_of_mem (List.mem_cons_self (l := texts))
      (List.mem_of_mem_head? hc) [',']) hblank
    dsimp only
    rw [if_neg (List.ne_nil_of_mem hmem), splitAt_intercalate rfl (List.cons_ne_nil _ _)
      fun text ht c hc => by simpa using ((hpiece text ht).whole c hc).1]
    have htrim : ∀ t ∈ text :: texts, trim t = id t := by
      intro t ht
      obtain ⟨d, hd, hblank⟩ := (hpiece t ht).first
      refine trim_eq_self (fun e he => ?_) (hpiece t ht).last
      cases Option.mem_unique hd he
      exact hblank
    rw [List.map_congr_left htrim, List.map_id]

theorem scalar?_bracket (cs : List Char) : scalar? ('[' :: cs) = none := by
  refine scalar?_eq_none fun f => Family.not_takes ?_ cs
  cases f <;> decide

theorem plain_listPattern : listPattern.plain = true := rfl

theorem contains_notLineFeed {c : Char} : CharSet.notLineFeed.contains c = true ↔ c ≠ '\n' := by
  rw [CharSet.notLineFeed, CharSet.contains_compl, Bool.not_eq_true', ← Bool.not_eq_true,
    CharSet.contains_only_iff]

theorem takes_listPattern {cs : List Char} :
    listPattern.Takes cs [] ↔ ∃ body, cs = '[' :: (body ++ [']']) ∧ ∀ c ∈ body, c ≠ '\n' := by
  have hbracket (c d : Char) (hascii : d.toNat < 128) (hd : caseVariants d = [d]) :
      (CharSet.folded (.only d)).contains c = true ↔ c = d := by
    rw [CharSet.contains_folded_only hascii, hd]
    simp
  simp only [listPattern, seqAll, anyOf, takes_seq, takes_one, takes_star_one,
    hbracket _ '[' (by decide) (by decide), hbracket _ ']' (by decide) (by decide),
    contains_notLineFeed]
  constructor
  · rintro ⟨_, ⟨c, rfl, rfl⟩, _, ⟨body, rfl, hbody⟩, d, rfl, rfl⟩
    exact ⟨body, rfl, hbody⟩
  · rintro ⟨body, rfl, hbody⟩
    exact ⟨_, ⟨'[', rfl, rfl⟩, _, ⟨body, rfl, hbody⟩, ']', rfl, rfl⟩

theorem matchesWhole_listPattern {cs : List Char} : matchesWhole listPattern cs = true ↔
    ∃ body, cs = '[' :: (body ++ [']']) ∧ ∀ c ∈ body, c ≠ '\n' :=
  (matchesWhole_iff plain_listPattern).trans takes_listPattern

/-- The characters between the brackets of a list are commas and those of its items. -/
theorem forall_mem_renderItems {items : List Value} {p : Char → Prop} (hcomma : p ',')
    (h : ∀ v ∈ items, ∀ c ∈ v.render.toList, p c) : ∀ c ∈ (Value.renderItems items).toList, p c := by
  rw [toList_renderItems]
  intro c hc
  rcases mem_or_mem_of_mem_intercalate hc with hc | ⟨text, htext, hc⟩
  · rwa [List.mem_singleton.1 hc]
  · obtain ⟨v, hv, rfl⟩ := List.mem_map.1 htext
    exact h v hv c hc

/-- The text of a list between its brackets. -/
theorem toList_render_list {items : List Value} (h : ∀ v ∈ items, v.FitsList) :
    ∃ body, (Value.list items).render.toList = '[' :: (body ++ [']']) ∧
      ∀ c ∈ body, c ≠ ']' ∧ c ≠ '\n' := by
  refine ⟨(Value.renderItems items).toList, by simp [Value.render], ?_⟩
  exact forall_mem_renderItems (by decide) fun v hv c hc => ((isItem_render (h v hv)).inList c hc).2

theorem classifyChars_of_scalar? {cs : List Char} {v : Value} (h : scalar? cs = some v) :
    classifyChars cs = some v := by
  rw [classifyChars, h]

theorem classifyChars_eq_none {cs : List Char} (hscalar : scalar? cs = none)
    (hlist : matchesWhole listPattern cs = false) : classifyChars cs = none := by
  rw [classifyChars, hscalar, hlist]
  rfl

/-- What a text in brackets is classified as. -/
theorem classifyChars_brackets (body : List Char) (h : ∀ c ∈ body, c ≠ '\n') :
    classifyChars ('[' :: (body ++ [']'])) =
      some (.list ((listItems ('[' :: (body ++ [']']))).map fun item =>
        (classifyChars item).getD (.string (String.ofList item)))) := by
  have hmatch : matchesWhole listPattern ('[' :: (body ++ [']'])) = true :=
    matchesWhole_listPattern.2 ⟨body, rfl, h⟩
  rw [classifyChars, scalar?_bracket]
  dsimp only
  rw [if_pos hmatch]
  congr 2
  exact List.attach_map_val (f := fun item =>
    (classifyChars item).getD (.string (String.ofList item)))

/-- **A list is read back if each of its items is**, and their texts stay whole. -/
theorem classifyChars_render_list {items : List Value} (hpiece : ∀ v ∈ items, IsPiece v.render.toList)
    (hread : ∀ v ∈ items, classifyChars v.render.toList = some v) :
    classifyChars (Value.list items).render.toList = some (.list items) := by
  have hitems := listItems_render hpiece
  have hchars : (Value.list items).render.toList =
      '[' :: ((Value.renderItems items).toList ++ [']']) := by simp [Value.render]
  have hline : ∀ c ∈ (Value.renderItems items).toList, c ≠ '\n' :=
    forall_mem_renderItems (by decide) fun v hv c hc => ((hpiece v hv).whole c hc).2
  rw [hchars] at hitems ⊢
  rw [classifyChars_brackets _ hline, hitems, List.map_map]
  congr 2
  refine (List.map_congr_left fun v hv => ?_).trans (List.map_id _)
  simp [hread v hv]

theorem classifyChars_render_scalar {v : Value} (h : v.IsScalar) :
    classifyChars v.render.toList = some v := by
  obtain ⟨f, hf, -⟩ := exists_decides h
  exact classifyChars_of_scalar? hf.scalar?

/-- **The text of a value that can be written is classified as the value.** -/
theorem classifyChars_render {v : Value} (h : v.Writable) :
    classifyChars v.render.toList = some v := by
  cases v with
  | list items =>
    exact classifyChars_render_list (fun v hv => (isItem_render (h v hv)).isPiece)
      fun v hv => classifyChars_render_scalar (h v hv).1
  | _ => exact classifyChars_render_scalar h

/-! ### Texts in quotes, identifiers and texts in brackets -/

/-- A text in quotes is a string. -/
theorem classifyChars_quoted (s : List Char) :
    classifyChars ('\x27' :: (Value.doubleQuotes s ++ ['\x27'])) =
      some (.string (String.ofList s)) := by
  have hread := (decides_text (String.ofList s)).scalar?
  rw [toList_quote, String.toList_ofList] at hread
  exact classifyChars_of_scalar? hread

/-- A text with the form of an identifier is one. -/
theorem exists_classifyChars_guid {cs : List Char} (h : Family.guid.pattern.Takes cs []) :
    ∃ g, classifyChars cs = some (.guid g) := by
  obtain ⟨g, hg⟩ := exists_decides_guid h
  exact ⟨g, classifyChars_of_scalar? hg.scalar?⟩

/-- A text in brackets that goes over several lines is no literal. -/
theorem classifyChars_brackets_eq_none {body : List Char} (h : '\n' ∈ body) :
    classifyChars ('[' :: (body ++ [']'])) = none := by
  refine classifyChars_eq_none (scalar?_bracket _) ?_
  rw [Bool.eq_false_iff, ne_eq, matchesWhole_listPattern]
  rintro ⟨body', heq, hline⟩
  rw [List.cons.injEq] at heq
  cases List.append_cancel_right heq.2
  exact hline '\n' h rfl

/-! ### What is read can be written -/

theorem mem_of_mem_undoubleQuotes {cs : List Char} {c : Char} (h : c ∈ undoubleQuotes cs) :
    c ∈ cs := by
  induction cs using undoubleQuotes.induct with
  | case1 cs ih =>
    rw [undoubleQuotes] at h
    rcases List.mem_cons.1 h with rfl | h
    · exact List.mem_cons_self
    · exact List.mem_cons_of_mem _ (List.mem_cons_of_mem _ (ih h))
  | case2 d cs hd ih =>
    rw [undoubleQuotes] at h
    · rcases List.mem_cons.1 h with rfl | h
      · exact List.mem_cons_self
      · exact List.mem_cons_of_mem _ (ih h)
    · exact hd
  | case3 => exact h

theorem mem_of_mem_inner {cs : List Char} {c : Char} (h : c ∈ inner cs) : c ∈ cs :=
  List.mem_of_mem_drop (List.mem_of_mem_dropLast h)

/-- **What is read as a scalar can be written**, and a string has no characters but those of its
text. -/
theorem isScalar_of_scalar? {cs : List Char} {v : Value} (h : scalar? cs = some v) :
    v.IsScalar ∧ ∀ s, v = .string s → ∀ c ∈ s.toList, c ∈ cs := by
  obtain ⟨f, htakes, hread⟩ := exists_of_scalar? h
  cases f with
  | null =>
    cases hread
    exact ⟨trivial, by simp⟩
  | boolean =>
    cases hread
    exact ⟨trivial, by simp⟩
  | long =>
    obtain ⟨n, -, rfl⟩ := Option.map_eq_some_iff.1 hread
    exact ⟨trivial, by simp⟩
  | integer =>
    change integral? (readInt cs) = some v at hread
    unfold integral? at hread
    split at hread
    · cases hread
      exact ⟨trivial, by simp⟩
    · obtain ⟨n, -, rfl⟩ := Option.map_eq_some_iff.1 hread
      exact ⟨trivial, by simp⟩
  | guid =>
    obtain ⟨g, -, rfl⟩ := Option.map_eq_some_iff.1 hread
    exact ⟨trivial, by simp⟩
  | text =>
    cases hread
    refine ⟨trivial, ?_⟩
    rintro _ ⟨⟩ c hc
    rw [String.toList_ofList] at hc
    exact mem_of_mem_inner (mem_of_mem_undoubleQuotes hc)
  | double =>
    simp only [Family.read?] at hread
    split_ifs at hread with hfinite
    cases hread
    exact ⟨hfinite, by simp⟩
  | date =>
    obtain ⟨d, rfl, hd⟩ := writable_of_date htakes hread
    exact ⟨hd, by simp⟩
  | dateTime =>
    obtain ⟨d, rfl, hd⟩ := writable_of_dateTime htakes hread
    exact ⟨hd, by simp⟩

/-- What an item of a list stands for may be an item. -/
theorem fitsList_of_item {item : List Char} (h : ∀ c ∈ item, Value.InList c) :
    ((classifyChars item).getD (.string (String.ofList item))).FitsList := by
  cases hscalar : scalar? item with
  | some v =>
    obtain ⟨hv, hstring⟩ := isScalar_of_scalar? hscalar
    rw [classifyChars_of_scalar? hscalar]
    exact ⟨hv, fun s hs c hc => h c (hstring s hs c hc)⟩
  | none =>
    have hlist : matchesWhole listPattern item = false := by
      rw [Bool.eq_false_iff, ne_eq, matchesWhole_listPattern]
      rintro ⟨body, rfl, -⟩
      exact (h ']' (by simp)).2.1 rfl
    rw [classifyChars_eq_none hscalar hlist]
    refine ⟨trivial, ?_⟩
    rintro _ ⟨⟩ c hc
    rw [String.toList_ofList] at hc
    exact h c hc

theorem mem_of_mem_trim {cs : List Char} {c : Char} (h : c ∈ trim cs) : c ∈ cs :=
  (List.dropWhile_suffix _).subset ((dropEndWhile_initial _ _).subset h)

/-- An item of a list has no comma, and no character that does not stand between the brackets. -/
theorem mem_of_mem_listItems {body item : List Char} (h : item ∈ listItems ('[' :: (body ++ [']']))) :
    ∀ c ∈ item, c ≠ ',' ∧ c ∈ body := by
  intro c hc
  unfold listItems at h
  rw [inner_append] at h
  dsimp only at h
  split_ifs at h with hempty
  · cases h
  · obtain ⟨piece, hpiece, rfl⟩ := List.mem_map.1 h
    obtain ⟨hcomma, hmem⟩ := not_of_mem_splitAt hpiece c (mem_of_mem_trim hc)
    exact ⟨by simpa using hcomma, hmem⟩

/-- **What a text is classified as can be written**, if the text has no bracket inside brackets. -/
theorem writable_of_classifyChars {cs : List Char} {v : Value} (h : classifyChars cs = some v)
    (hbrackets : ∀ body, cs = '[' :: (body ++ [']']) → ∀ c ∈ body, c ≠ ']') : v.Writable := by
  rw [classifyChars] at h
  cases hscalar : scalar? cs with
  | some w =>
    rw [hscalar] at h
    cases h
    have hw := (isScalar_of_scalar? hscalar).1
    cases v with
    | list | object => exact hw.elim
    | _ => exact hw
  | none =>
    rw [hscalar] at h
    dsimp only at h
    split_ifs at h with hmatch
    obtain ⟨body, rfl, hbody⟩ := matchesWhole_listPattern.1 hmatch
    cases h
    intro v hv
    obtain ⟨⟨item, hitem⟩, -, rfl⟩ := List.mem_map.1 hv
    refine fitsList_of_item fun c hc => ?_
    obtain ⟨hcomma, hmem⟩ := mem_of_mem_listItems hitem c hc
    exact ⟨hcomma, hbrackets body rfl c hmem, hbody c hmem⟩

end Literal

end Criteria

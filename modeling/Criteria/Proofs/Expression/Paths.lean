import Criteria.FieldPath
import Criteria.Proofs.Text.Pieces
import Mathlib.Data.List.Basic

/-!
# Paths are read back

The paths that are read are those whose segments are not empty and have no separators in them, and
the text of such a path is read as the path. `FieldPath.normal` is what becomes of a text that is
read as a path and written again.
-/

namespace Criteria.FieldPath

open Text

/-- Whether every segment is a name without separators. -/
def WellFormed (p : FieldPath) : Prop :=
  ∀ s ∈ p.segments, s.toList ≠ [] ∧ ∀ c ∈ s.toList, isSeparator c = false

theorem segments_of_ofSegments? {segments : List String} {p : FieldPath}
    (h : ofSegments? segments = some p) : p.segments = segments := by
  obtain ⟨leaf, hleaf, rfl⟩ := Option.map_eq_some_iff.1 h
  exact List.dropLast_append_getLast? leaf hleaf

/-- The segments of a path that is read are the pieces of the text that are not empty. -/
theorem segments_of_parse? {text : String} {p : FieldPath} (h : parse? text = some p) :
    p.segments =
      ((splitAt isSeparator text.toList).filter (· ≠ [])).map String.ofList :=
  segments_of_ofSegments? h

/-- Whether a text is made of separators alone. -/
def IsSeparators (text : String) : Prop := ∀ c ∈ text.toList, isSeparator c = true

instance (text : String) : Decidable (IsSeparators text) :=
  decidable_of_iff (allChars isSeparator text = true) List.all_eq_true

/-- **A text names no path just if it is made of separators alone.** -/
theorem parse?_eq_none_iff {text : String} : parse? text = none ↔ IsSeparators text := by
  rw [parse?, ofSegments?, Option.map_eq_none_iff, List.getLast?_eq_none_iff, List.map_eq_nil_iff,
    filter_splitAt_eq_nil_iff, IsSeparators]

/-- A text that is not made of separators alone names a path. -/
theorem exists_parse? {text : String} (h : ∃ c ∈ text.toList, isSeparator c = false) :
    ∃ p, parse? text = some p := by
  obtain ⟨c, hc, hsep⟩ := h
  rw [← Option.ne_none_iff_exists', ne_eq, parse?_eq_none_iff]
  intro hall
  rw [hall c hc] at hsep
  cases hsep

/-- A path is told by the pieces of its text that are not empty. -/
theorem parse?_congr {a b : String}
    (h : (splitAt isSeparator a.toList).filter (· ≠ []) =
      (splitAt isSeparator b.toList).filter (· ≠ [])) : parse? a = parse? b := by
  rw [parse?, parse?, h]

/-- Separators between two parts of a text count as one. -/
theorem parse?_append_separators {a b u w : String} (hune : u ≠ "") (hu : IsSeparators u)
    (hwne : w ≠ "") (hw : IsSeparators w) : parse? (a ++ u ++ b) = parse? (a ++ w ++ b) := by
  refine parse?_congr ?_
  simp only [String.toList_append, List.append_assoc]
  rw [filter_splitAt_append (by simpa using hune) hu,
    filter_splitAt_append (by simpa using hwne) hw]

/-- Separators at the ends of a text do not count. -/
theorem parse?_between_separators {u w : String} (hu : IsSeparators u) (hw : IsSeparators w)
    (text : String) : parse? (u ++ text ++ w) = parse? text := by
  refine parse?_congr ?_
  simp only [String.toList_append, List.append_assoc]
  exact filter_splitAt_between hu hw text.toList

theorem wellFormed_of_parse? {text : String} {p : FieldPath} (h : parse? text = some p) :
    p.WellFormed := by
  intro s hs
  rw [segments_of_parse? h] at hs
  obtain ⟨piece, hpiece, rfl⟩ := List.mem_map.1 hs
  obtain ⟨hmem, hne⟩ := List.mem_filter.1 hpiece
  rw [String.toList_ofList]
  exact ⟨by simpa using hne, fun c hc => (not_of_mem_splitAt hmem c hc).1⟩

theorem toList_render (p : FieldPath) :
    p.render.toList = ['/'].intercalate (p.segments.map String.toList) := toList_join "/" p.segments

/-- The pieces of the text of a path are its segments. -/
theorem filter_splitAt_render {p : FieldPath} (h : p.WellFormed) :
    (splitAt isSeparator p.render.toList).filter (· ≠ []) = p.segments.map String.toList := by
  have hpieces : splitAt isSeparator p.render.toList = p.segments.map String.toList := by
    rw [toList_render]
    refine splitAt_intercalate rfl (by simp [segments]) fun piece hp => ?_
    obtain ⟨s, hs, rfl⟩ := List.mem_map.1 hp
    exact (h s hs).2
  rw [hpieces]
  refine List.filter_eq_self.2 fun piece hp => ?_
  obtain ⟨s, hs, rfl⟩ := List.mem_map.1 hp
  simpa using (h s hs).1

theorem parse?_of_filter_splitAt {text : String} {p : FieldPath}
    (h : (splitAt isSeparator text.toList).filter (· ≠ []) = p.segments.map String.toList) :
    parse? text = some p := by
  have hid : p.segments.map (String.ofList ∘ String.toList) = p.segments := by
    simp [Function.comp_def]
  rw [parse?, h, List.map_map, hid, ofSegments?_segments]

/-- **The text of a path is read as the path.** -/
theorem parse?_render {p : FieldPath} (h : p.WellFormed) : parse? p.render = some p :=
  parse?_of_filter_splitAt (filter_splitAt_render h)

/-- The paths that are read are those that are well formed. -/
theorem wellFormed_iff {p : FieldPath} : p.WellFormed ↔ ∃ text, parse? text = some p :=
  ⟨fun h => ⟨p.render, parse?_render h⟩, fun ⟨_, h⟩ => wellFormed_of_parse? h⟩

/-! ### What reading makes of a text -/

/-- The pieces of a text between separators that are not empty, with slashes between them. -/
def normal (cs : List Char) : List Char :=
  ['/'].intercalate ((splitAt isSeparator cs).filter (· ≠ []))

theorem toList_render_of_parse? {text : String} {p : FieldPath} (h : parse? text = some p) :
    p.render.toList = normal text.toList := by
  rw [toList_render, segments_of_parse? h, List.map_map]
  have hid : (splitAt isSeparator text.toList |>.filter (· ≠ [])).map
      (String.toList ∘ String.ofList) = (splitAt isSeparator text.toList).filter (· ≠ []) := by
    simp [Function.comp_def]
  rw [hid, normal]

theorem normal_eq_self {cs : List Char} (h : ∀ c ∈ cs, isSeparator c = false) : normal cs = cs := by
  rw [normal, splitAt_eq_singleton h]
  by_cases hne : cs = []
  · rw [hne]
    rfl
  · rw [List.filter_cons_of_pos (by simpa using hne)]
    simp

/-- Separators at the ends of a text are left out. -/
theorem normal_between {u w : List Char} (hu : ∀ c ∈ u, isSeparator c = true)
    (hw : ∀ c ∈ w, isSeparator c = true) (cs : List Char) : normal (u ++ (cs ++ w)) = normal cs := by
  rw [normal, filter_splitAt_between hu hw, normal]

/-- A path has no parents if there is only one piece in the text. -/
theorem parents_eq_nil_iff {text : String} {p : FieldPath} (h : parse? text = some p) :
    p.parents = [] ↔ ((splitAt isSeparator text.toList).filter (· ≠ [])).length = 1 := by
  have hlen := congrArg List.length (segments_of_parse? h)
  rw [segments, List.length_append, List.length_map, List.length_singleton] at hlen
  rw [← hlen]
  simp

/-- Between a beginning and an end without separators, what reading makes of a text has no
characters but those of the text, and slashes. -/
theorem normal_append {initial : List Char} (hinitial : ∀ c ∈ initial, isSeparator c = false)
    (body : List Char) {q : Char} (hq : isSeparator q = false) :
    ∃ inside, normal (initial ++ (body ++ [q])) = initial ++ (inside ++ [q]) ∧
      ∀ c ∈ inside, c ∈ body ∨ c = '/' := by
  induction body generalizing initial with
  | nil =>
    refine ⟨[], normal_eq_self fun c hc => ?_, nofun⟩
    rcases List.mem_append.1 hc with hc | hc
    · exact hinitial c hc
    · rwa [List.mem_singleton.1 hc]
  | cons c body ih =>
    by_cases hc : isSeparator c = true
    · have hnone : ∀ d ∈ ([] : List Char), isSeparator d = false := nofun
      obtain ⟨inside, hnormal, hinside⟩ := ih hnone
      simp only [List.nil_append] at hnormal
      have hpieces : (splitAt isSeparator (body ++ [q])).filter (· ≠ []) ≠ [] := by
        intro hnil
        rw [normal, hnil] at hnormal
        simp at hnormal
      have hall : ∀ d ∈ inside, d ∈ c :: body ∨ d = '/' :=
        fun d hd => (hinside d hd).imp_left (List.mem_cons_of_mem c)
      rw [normal, List.cons_append, splitAt_append_cons hinitial hc]
      by_cases hne : initial = []
      · subst hne
        rw [List.filter_cons_of_neg (by simp)]
        exact ⟨inside, hnormal, hall⟩
      · rw [List.filter_cons_of_pos (by simpa using hne)]
        obtain ⟨next, pieces, hnext⟩ := List.exists_cons_of_ne_nil hpieces
        refine ⟨'/' :: inside, ?_, List.forall_mem_cons.2 ⟨.inr rfl, hall⟩⟩
        rw [normal, hnext] at hnormal
        rw [hnext, List.intercalate_cons_cons, hnormal]
        simp
    · have hlonger : ∀ d ∈ initial ++ [c], isSeparator d = false := by
        intro d hd
        rcases List.mem_append.1 hd with hd | hd
        · exact hinitial d hd
        · rw [List.mem_singleton.1 hd]
          simpa using hc
      obtain ⟨inside, hnormal, hinside⟩ := ih hlonger
      refine ⟨c :: inside, by simpa using hnormal, ?_⟩
      refine List.forall_mem_cons.2 ⟨.inl List.mem_cons_self, fun d hd => ?_⟩
      exact (hinside d hd).imp_left (List.mem_cons_of_mem c)

end Criteria.FieldPath

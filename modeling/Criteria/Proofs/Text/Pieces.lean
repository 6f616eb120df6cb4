import Criteria.Text.Basic

/-!
# Taking text apart

Text that has no blanks at its ends is not trimmed, and pieces that were put together with a
separator between them are found again if they do not have it.
-/

namespace Criteria.Text

variable {p : Char → Bool}

theorem dropEndWhile_eq_self {cs : List Char} (h : ∀ c ∈ cs.getLast?, p c = false) :
    dropEndWhile p cs = cs := by
  rw [← List.head?_reverse] at h
  have hreverse : cs.reverse.dropWhile p = cs.reverse := by
    rcases hcs : cs.reverse with _ | ⟨c, rest⟩
    · rfl
    · rw [hcs] at h
      rw [List.dropWhile_cons_of_neg]
      simpa using h c rfl
  rw [dropEndWhile, hreverse, List.reverse_reverse]

theorem dropEndWhile_append {a b : List Char} (h : ∀ c ∈ b, p c = true) :
    dropEndWhile p (a ++ b) = dropEndWhile p a := by
  rw [dropEndWhile, List.reverse_append, List.dropWhile_append_of_pos, dropEndWhile]
  exact fun c hc => h c (List.mem_reverse.1 hc)

theorem dropEndWhile_initial (p : Char → Bool) (cs : List Char) : dropEndWhile p cs <+: cs := by
  have hsuffix := List.dropWhile_suffix p (l := cs.reverse)
  rwa [← List.reverse_prefix, List.reverse_reverse] at hsuffix

theorem trim_eq_self {cs : List Char} (hfirst : ∀ c ∈ cs.head?, isBlank c = false)
    (hlast : ∀ c ∈ cs.getLast?, isBlank c = false) : trim cs = cs := by
  have hdrop : cs.dropWhile isBlank = cs := by
    rcases cs with _ | ⟨c, cs⟩
    · rfl
    · rw [List.dropWhile_cons_of_neg]
      simpa using hfirst c rfl
  rw [trim, hdrop, dropEndWhile_eq_self hlast]

theorem mem_trim {cs : List Char} {c : Char} (hc : c ∈ cs) (hblank : isBlank c = false) :
    c ∈ trim cs := by
  have hdrop {cs : List Char} (hc : c ∈ cs) : c ∈ cs.dropWhile isBlank := by
    induction cs with
    | nil => cases hc
    | cons d cs ih =>
      by_cases hd : isBlank d = true
      · rw [List.dropWhile_cons_of_pos hd]
        rcases List.mem_cons.1 hc with rfl | hc
        · rw [hblank] at hd
          cases hd
        · exact ih hc
      · rwa [List.dropWhile_cons_of_neg hd]
  simpa [trim, dropEndWhile] using hdrop (List.mem_reverse.2 (hdrop hc))

theorem splitAt_eq_singleton {cs : List Char} (h : ∀ c ∈ cs, p c = false) : splitAt p cs = [cs] := by
  induction cs with
  | nil => rfl
  | cons c cs ih =>
    rw [splitAt, ih fun d hd => h d (List.mem_cons_of_mem _ hd)]
    simp [h c List.mem_cons_self]

/-- A character at which a text is split parts the pieces before it from those behind it. -/
theorem splitAt_append (a b : List Char) {c : Char} (hc : p c = true) :
    splitAt p (a ++ c :: b) = splitAt p a ++ splitAt p b := by
  induction a with
  | nil =>
    obtain ⟨first, pieces, hb⟩ := List.exists_cons_of_ne_nil (splitAt_ne_nil p b)
    simp [splitAt, hb, hc]
  | cons d a ih =>
    obtain ⟨first, pieces, ha⟩ := List.exists_cons_of_ne_nil (splitAt_ne_nil p a)
    rw [List.cons_append, splitAt, ih, splitAt, ha, List.cons_append]
    dsimp only
    split <;> rfl

theorem splitAt_append_cons {a b : List Char} {c : Char} (ha : ∀ d ∈ a, p d = false)
    (hc : p c = true) : splitAt p (a ++ c :: b) = a :: splitAt p b := by
  rw [splitAt_append a b hc, splitAt_eq_singleton ha, List.singleton_append]

/-- Characters at which a text is split leave no pieces but empty ones. -/
theorem filter_splitAt_eq_nil_iff {cs : List Char} :
    (splitAt p cs).filter (· ≠ []) = [] ↔ ∀ c ∈ cs, p c = true := by
  induction cs with
  | nil => simp [splitAt]
  | cons c cs ih =>
    obtain ⟨first, pieces, hsplit⟩ := List.exists_cons_of_ne_nil (splitAt_ne_nil p cs)
    rw [hsplit] at ih
    rw [List.forall_mem_cons, ← ih, splitAt, hsplit]
    cases hc : p c <;> simp

/-- Pieces that are not empty do not tell by how many characters a text is split between them. -/
theorem filter_splitAt_append {a u b : List Char} (hne : u ≠ []) (hu : ∀ c ∈ u, p c = true) :
    (splitAt p (a ++ (u ++ b))).filter (· ≠ []) =
      (splitAt p a).filter (· ≠ []) ++ (splitAt p b).filter (· ≠ []) := by
  induction u generalizing a with
  | nil => exact absurd rfl hne
  | cons c u ih =>
    obtain ⟨hc, hu⟩ := List.forall_mem_cons.1 hu
    rw [List.cons_append, splitAt_append a _ hc, List.filter_append]
    rcases u with _ | ⟨d, u⟩
    · rfl
    · congr 1
      exact ih (a := []) (List.cons_ne_nil d u) hu

theorem filter_splitAt_between {u w : List Char} (hu : ∀ c ∈ u, p c = true)
    (hw : ∀ c ∈ w, p c = true) (cs : List Char) :
    (splitAt p (u ++ (cs ++ w))).filter (· ≠ []) = (splitAt p cs).filter (· ≠ []) := by
  have hfront (b : List Char) :
      (splitAt p (u ++ b)).filter (· ≠ []) = (splitAt p b).filter (· ≠ []) := by
    rcases u with _ | ⟨c, u⟩
    · rfl
    · exact filter_splitAt_append (a := []) (List.cons_ne_nil c u) hu
  rw [hfront]
  rcases w with _ | ⟨c, w⟩
  · rw [List.append_nil]
  · have hend := filter_splitAt_append (a := cs) (b := []) (List.cons_ne_nil c w) hw
    rw [List.append_nil] at hend
    simpa [splitAt] using hend

/-- **Pieces are found again** between the separators that were put between them. -/
theorem splitAt_intercalate {c : Char} (hc : p c = true) {pieces : List (List Char)}
    (hne : pieces ≠ []) (h : ∀ piece ∈ pieces, ∀ d ∈ piece, p d = false) :
    splitAt p ([c].intercalate pieces) = pieces := by
  induction pieces with
  | nil => exact absurd rfl hne
  | cons piece pieces ih =>
    have hpiece := h piece List.mem_cons_self
    rcases pieces with _ | ⟨next, pieces⟩
    · simpa using splitAt_eq_singleton hpiece
    · rw [List.intercalate_cons_cons, List.append_assoc, List.singleton_append,
        splitAt_append_cons hpiece hc,
        ih (by simp) fun piece hp => h piece (List.mem_cons_of_mem _ hp)]

/-- Every piece is free of the characters at which a text is split. -/
theorem not_of_mem_splitAt {cs piece : List Char} (h : piece ∈ splitAt p cs) :
    ∀ c ∈ piece, p c = false ∧ c ∈ cs := by
  induction cs generalizing piece with
  | nil =>
    rw [List.mem_singleton.1 h]
    simp
  | cons c cs ih =>
    rw [splitAt] at h
    split at h
    · next heq => exact absurd heq (splitAt_ne_nil p cs)
    · next first pieces heq =>
      rw [heq] at ih
      have hlater {piece : List Char} (hp : piece ∈ first :: pieces) :
          ∀ d ∈ piece, p d = false ∧ d ∈ c :: cs :=
        fun d hd => (ih hp d hd).imp_right (List.mem_cons_of_mem _)
      split at h
      · rcases List.mem_cons.1 h with rfl | h
        · simp
        · exact hlater h
      · next hc =>
        rcases List.mem_cons.1 h with rfl | h
        · intro d hd
          rcases List.mem_cons.1 hd with rfl | hd
          · exact ⟨by simpa using hc, List.mem_cons_self⟩
          · exact hlater List.mem_cons_self d hd
        · exact hlater (List.mem_cons_of_mem _ h)

theorem mem_intercalate_of_mem {pieces : List (List Char)} {piece : List Char}
    (h : piece ∈ pieces) {c : Char} (hc : c ∈ piece) (separator : List Char) :
    c ∈ separator.intercalate pieces := by
  induction pieces with
  | nil => cases h
  | cons first pieces ih =>
    rcases pieces with _ | ⟨next, pieces⟩
    · rw [List.mem_singleton.1 h] at hc
      simpa using hc
    · rw [List.intercalate_cons_cons]
      rcases List.mem_cons.1 h with rfl | h
      · simp [hc]
      · simp [ih h]

theorem mem_or_mem_of_mem_intercalate {separator : List Char} {pieces : List (List Char)} {c : Char}
    (h : c ∈ separator.intercalate pieces) : c ∈ separator ∨ ∃ piece ∈ pieces, c ∈ piece := by
  induction pieces with
  | nil => cases h
  | cons piece pieces ih =>
    rcases pieces with _ | ⟨next, pieces⟩
    · exact .inr ⟨piece, List.mem_cons_self, by simpa using h⟩
    · rw [List.intercalate_cons_cons, List.mem_append, List.mem_append] at h
      rcases h with (h | h) | h
      · exact .inr ⟨piece, List.mem_cons_self, h⟩
      · exact .inl h
      · obtain hc | ⟨text, htext, hc⟩ := ih h
        · exact .inl hc
        · exact .inr ⟨text, List.mem_cons_of_mem _ htext, hc⟩

theorem toList_join (separator : String) (texts : List String) :
    (join separator texts).toList = separator.toList.intercalate (texts.map String.toList) := by
  induction texts with
  | nil => rfl
  | cons s texts ih =>
    rcases texts with _ | ⟨t, texts⟩
    · simp [join]
    · rw [List.map_cons, List.map_cons, List.intercalate_cons_cons, ← List.map_cons, ← ih]
      simp [join]

end Criteria.Text

import Criteria.Proofs.Dialect.OperandTokens
import Criteria.Proofs.Dialect.RoundTrip
import Criteria.Proofs.Expression.Sentences

/-!
# Which parsed trees are parsed back

What a pattern of operands finds and no family of literals reads is the name of a field, and the
separators in it are written as slashes. So `sharp` does not parse the text of every tree back that
a dialect has parsed: for the scanner `1.5L` is a number, and it stands for the path with the
segments `1` and `5L`, but in the text `1/5L` of this path the first number ends at the slash.

`parse_render_iff` says for which trees this happens: those that have a reference whose text is that
of a literal, or has several segments and starts like a number.
-/

namespace Criteria

open Text Scanner TokenPattern

namespace FieldPath

/-- Whether a text starts with a digit or a sign. -/
def StartsLikeNumber (x : List Char) : Prop :=
  ∃ c ∈ x.head?, isAsciiDigit c = true ∨ c = '-' ∨ c = '+'

/-- Whether the text of a path that was read is read as the path again. -/
structure Canonical (p : FieldPath) : Prop where
  noLiteral : Literal.classify p.render = none
  start : p.parents = [] ∨ ¬ StartsLikeNumber p.render.toList

/-! ### Texts with one point -/

theorem normal_point_end {a : List Char} (ha : ∀ c ∈ a, isSeparator c = false) :
    normal (a ++ ['.']) = a :=
  (normal_between (u := []) (w := ['.']) nofun (by decide) a).trans (normal_eq_self ha)

theorem normal_point_start {b : List Char} (hb : ∀ c ∈ b, isSeparator c = false) :
    normal ('.' :: b) = b := by
  have hfront := normal_between (u := ['.']) (w := []) (by decide) nofun b
  rw [List.append_nil] at hfront
  exact hfront.trans (normal_eq_self hb)

section

variable {a b : List Char} (ha : ∀ c ∈ a, isSeparator c = false)
  (hb : ∀ c ∈ b, isSeparator c = false)

include ha hb

theorem splitAt_point : splitAt isSeparator (a ++ '.' :: b) = [a, b] := by
  rw [splitAt_append_cons ha rfl, splitAt_eq_singleton hb]

theorem normal_point (hna : a ≠ []) (hnb : b ≠ []) :
    ((splitAt isSeparator (a ++ '.' :: b)).filter (· ≠ [])).length ≠ 1 ∧
      normal (a ++ '.' :: b) = a ++ '/' :: b := by
  rw [normal, splitAt_point ha hb]
  simp [hna, hnb, List.intercalate]

end

end FieldPath

open FieldPath

/-! ### What becomes of the texts of operands -/

/-- A pattern without separators takes no text that has one. -/
theorem not_isSeparator_of_takes {p : Pattern}
    (hp : p.mayTake '/' = false ∧ p.mayTake '.' = false ∧ p.mayTake '\\' = false) {x : List Char}
    (h : p.Takes x []) : ∀ c ∈ x, isSeparator c = false := by
  intro c hc
  by_contra hsep
  simp only [isSeparator, Bool.not_eq_false, Bool.or_eq_true, beq_iff_eq] at hsep
  rcases hsep with (rfl | rfl) | rfl
  · exact Literal.not_takes_of_mem hp.1 hc h
  · exact Literal.not_takes_of_mem hp.2.1 hc h
  · exact Literal.not_takes_of_mem hp.2.2 hc h

theorem toNat_lt_of_isAsciiDigit {c : Char} (h : isAsciiDigit c = true) : c.toNat < 128 := by
  simp only [isAsciiDigit, Bool.and_eq_true, decide_eq_true_eq] at h
  exact Nat.lt_of_le_of_lt (show c.toNat ≤ '9'.toNat from h.2) (by decide)

theorem not_isSeparator_of_digits {d : List Char} (h : Numeral.Digits d) :
    ∀ c ∈ d, isSeparator c = false := by
  intro c hc
  have table : ∀ n < 128, isAsciiDigit (Char.ofNat n) = true →
      isSeparator (Char.ofNat n) = false := by decide
  exact forall_ascii (p := fun c => isAsciiDigit c = true → isSeparator c = false) table
    (toNat_lt_of_isAsciiDigit (h c hc)) (h c hc)

theorem not_isSeparator_of_sign {s : List Char} (h : Numeral.Sign s) :
    ∀ c ∈ s, isSeparator c = false := by
  rcases h with rfl | rfl | rfl <;> decide

theorem not_isSeparator_of_exponent {e : List Char} (h : Numeral.Exponent Operand.exponentMarks e) :
    ∀ c ∈ e, isSeparator c = false := by
  cases h with
  | absent => nofun
  | mk hc hs _ hd =>
    refine List.forall_mem_cons.2 ⟨?_, List.forall_mem_append.2
      ⟨not_isSeparator_of_sign hs, not_isSeparator_of_digits hd⟩⟩
    rcases Operand.mem_exponentMarks hc with rfl | rfl <;> rfl

theorem not_isSeparator_of_mark {f : List Char} (h : Numeral.Mark Operand.widthMarks f) :
    ∀ c ∈ f, isSeparator c = false := by
  cases h with
  | absent => nofun
  | mk hc =>
    have table : ∀ c ∈ "lLdDfF".toList, isSeparator c = false := by decide
    exact List.forall_mem_singleton.2 (table _ (Operand.mem_widthMarks hc))

/-- A sign with digits or without starts like a number if it is not empty. -/
theorem startsLikeNumber_of_sign {s d : List Char} (hs : Numeral.Sign s) (hd : Numeral.Digits d)
    (hne : s ++ d ≠ []) (more : List Char) : StartsLikeNumber (s ++ d ++ more) := by
  rcases hs with rfl | rfl | rfl
  · rcases d with _ | ⟨c, d⟩
    · exact absurd rfl hne
    · exact ⟨c, rfl, .inl (hd c List.mem_cons_self)⟩
  · exact ⟨'-', rfl, .inr (.inl rfl)⟩
  · exact ⟨'+', rfl, .inr (.inr rfl)⟩

/-- Only points may be separators in a numeral. -/
theorem normal_numeral {x : List Char}
    (hx : Numeral.IsNumeral Operand.exponentMarks Operand.widthMarks x)
    (hstart : ((splitAt isSeparator x).filter (· ≠ [])).length ≠ 1 →
      ¬ StartsLikeNumber (normal x)) :
    Numeral.IsNumeral Operand.exponentMarks Operand.widthMarks (normal x) := by
  obtain ⟨s, m, e, f, rfl, hs, hm, he, hf⟩ := hx
  have hsign := not_isSeparator_of_sign hs
  have htail : ∀ c ∈ e ++ f, isSeparator c = false :=
    List.forall_mem_append.2 ⟨not_isSeparator_of_exponent he, not_isSeparator_of_mark hf⟩
  -- with pieces on both sides of the point there is a path of two segments, and the first of them
  -- starts like a number
  cases hm with
  | @pointed whole fraction hne hw hfr =>
    have ha : ∀ c ∈ s ++ whole, isSeparator c = false :=
      List.forall_mem_append.2 ⟨hsign, not_isSeparator_of_digits hw⟩
    have hb : ∀ c ∈ fraction ++ (e ++ f), isSeparator c = false :=
      List.forall_mem_append.2 ⟨not_isSeparator_of_digits hfr, htail⟩
    have htext : s ++ (whole ++ '.' :: fraction ++ (e ++ f)) =
        (s ++ whole) ++ '.' :: (fraction ++ (e ++ f)) := by simp
    have hna : s ++ whole ≠ [] := by simp [hne]
    rw [htext] at hstart ⊢
    by_cases hnb : fraction ++ (e ++ f) = []
    · rw [hnb, normal_point_end ha]
      exact ⟨s, whole, [], [], by simp, hs, .whole hne hw, .absent, .absent⟩
    · obtain ⟨hlen, hnormal⟩ := normal_point ha hb hna hnb
      exact absurd (hnormal ▸ startsLikeNumber_of_sign hs hw hna _) (hstart hlen)
  | @fraction fraction hne hfr =>
    have hb : ∀ c ∈ fraction ++ (e ++ f), isSeparator c = false :=
      List.forall_mem_append.2 ⟨not_isSeparator_of_digits hfr, htail⟩
    by_cases hna : s = []
    · rw [hna, List.nil_append, List.cons_append, normal_point_start hb]
      exact ⟨[], fraction, e, f, rfl, .inl rfl, .whole hne hfr, he, hf⟩
    · obtain ⟨hlen, hnormal⟩ := normal_point (hsign) hb hna (by simp [hne])
      have hnone : Numeral.Digits [] := nofun
      have hstarts : StartsLikeNumber (s ++ [] ++ '/' :: (fraction ++ (e ++ f))) :=
        startsLikeNumber_of_sign hs hnone (by simpa using hna) _
      rw [List.append_nil] at hstarts
      exact absurd (hnormal ▸ hstarts) (hstart hlen)
  | whole hne hw =>
    have hall : ∀ c ∈ s ++ (m ++ (e ++ f)), isSeparator c = false :=
      List.forall_mem_append.2 ⟨hsign, List.forall_mem_append.2
        ⟨not_isSeparator_of_digits hw, htail⟩⟩
    rw [normal_eq_self hall]
    exact ⟨s, m, e, f, rfl, hs, .whole hne hw, he, hf⟩

/-- A date and time has a separator only where it has a fraction of seconds, and then it starts like
a number. -/
theorem normal_dateTime {x : List Char} (hx : Operand.dateTime.Takes x [])
    (hstart : ((splitAt isSeparator x).filter (· ≠ [])).length ≠ 1 →
      ¬ StartsLikeNumber (normal x)) : normal x = x := by
  obtain ⟨front, s, heq, hfront, hs⟩ := Operand.takes_dateTime.1 hx
  rw [List.append_nil] at heq
  subst heq
  have hminute : ∀ c ∈ front, isSeparator c = false := by
    have htakes : (Pattern.seqAll Operand.minuteParts).Takes front [] :=
      (Pattern.takes_iff_spells Operand.sets?_minuteParts).2 hfront
    exact not_isSeparator_of_takes (by decide) htakes
  cases hs with
  | absent => exact normal_eq_self (List.forall_mem_append.2 ⟨hminute, nofun⟩)
  | @mk digits fraction hd hf =>
    have hdigits : ∀ c ∈ digits, isSeparator c = false := by
      refine not_isSeparator_of_digits fun c hc => ?_
      obtain ⟨set, hset, hc⟩ := hd.exists_of_mem hc
      rw [List.mem_pair, or_self] at hset
      exact Numeral.contains_digitSet.1 (hset ▸ hc)
    have ha : ∀ c ∈ front ++ ':' :: digits, isSeparator c = false :=
      List.forall_mem_append.2 ⟨hminute, List.forall_mem_cons.2 ⟨rfl, hdigits⟩⟩
    cases hf with
    | absent =>
      refine normal_eq_self ?_
      simpa using ha
    | @mk fraction hne hfr =>
      have htext : front ++ ':' :: (digits ++ '.' :: fraction) =
          (front ++ ':' :: digits) ++ '.' :: fraction := by simp
      rw [htext] at hstart
      obtain ⟨hlen, hnormal⟩ := normal_point ha (not_isSeparator_of_digits hfr) (by simp) hne
      obtain ⟨c, run, hc, -, rfl⟩ := List.forall₂_cons_left_iff.1 hfront
      refine absurd ?_ (hstart hlen)
      rw [hnormal]
      exact ⟨c, rfl, .inl (Numeral.contains_digitSet.1 hc)⟩

/-- A date and time in quotes remains one. -/
theorem takes_normal_quotedDateTime {x : List Char} (hx : Operand.quotedDateTime.Takes x []) :
    Operand.quotedDateTime.Takes (normal x) [] := by
  obtain ⟨word, body, rfl, hword, hbody⟩ := Operand.takes_quotedDateTime.1 hx
  have hletters : ∀ c ∈ word ++ ['\x27'], isSeparator c = false := by
    have htakes : (Pattern.seqAll ("datetime".toList.map fun c =>
        Literal.anyOf (.only c))).Takes word [] :=
      (Pattern.takes_iff_spells Operand.sets?_quotedWord).2 hword
    exact List.forall_mem_append.2 ⟨not_isSeparator_of_takes (by decide) htakes,
      List.forall_mem_singleton.2 rfl⟩
  have hquote : isSeparator '\x27' = false := rfl
  obtain ⟨inside, hnormal, hinside⟩ := normal_append hletters body hquote
  have htext : word ++ '\x27' :: (body ++ '\x27' :: []) = word ++ ['\x27'] ++ (body ++ ['\x27']) := by
    simp
  rw [htext, hnormal]
  refine Operand.takes_quotedDateTime.2 ⟨word, inside, by simp, hword, fun c hc => ?_⟩
  rcases hinside c hc with hc | rfl
  · exact hbody c hc
  · decide

/-- A list remains a list. -/
theorem takes_normal_list {x : List Char} (hx : Operand.list.Takes x []) :
    Operand.list.Takes (normal x) [] := by
  obtain ⟨body, rfl, hbody⟩ := Operand.takes_list.1 hx
  have hopen : ∀ c ∈ ['['], isSeparator c = false := by decide
  have hclose : isSeparator ']' = false := rfl
  obtain ⟨inside, hnormal, hinside⟩ := normal_append hopen body hclose
  have htext : '[' :: (body ++ ']' :: []) = ['['] ++ (body ++ [']']) := rfl
  rw [htext, hnormal]
  refine Operand.takes_list.2 ⟨inside, rfl, fun c hc => ?_⟩
  rcases hinside c hc with hc | rfl
  · exact hbody c hc
  · decide

/-- A slash in the place of a separator. -/
def slash (c : Char) : Char := if isSeparator c then '/' else c

theorem isSeparator_eq (c : Char) : isSeparator c = Operand.pathSeparator.contains c := by
  rw [Bool.eq_iff_iff, Operand.contains_pathSeparator]
  simp only [isSeparator, Bool.or_eq_true, beq_iff_eq]
  tauto

theorem not_isSeparator_of_pathChar {c : Char} (h : Operand.pathChar.contains c = true) :
    isSeparator c = false := by
  by_contra hsep
  rw [Bool.not_eq_false, isSeparator_eq] at hsep
  rw [Operand.not_pathChar_of_pathSeparator hsep] at h
  cases h

theorem map_slash {cs : List Char} (h : ∀ c ∈ cs, isSeparator c = false) : cs.map slash = cs := by
  refine (List.map_congr_left fun c hc => ?_).trans (List.map_id cs)
  rw [slash, h c hc]
  rfl

/-- A path has no empty segments, and so separators become slashes one by one. -/
theorem normal_segmentsText {segments : List (Char × List Char)} (h : Operand.Segments segments)
    {a : List Char} (ha : ∀ c ∈ a, isSeparator c = false) (hne : a ≠ []) :
    normal (a ++ Operand.segmentsText segments) = (a ++ Operand.segmentsText segments).map slash := by
  -- by induction on the segments, with any first one: the next is the first of those behind it
  induction segments generalizing a with
  | nil =>
    have htext : a ++ Operand.segmentsText [] = a := List.append_nil a
    rw [htext, normal_eq_self ha, map_slash ha]
  | cons s segments ih =>
    obtain ⟨⟨hsep, hrun, hchars⟩, hsegments⟩ := List.forall_mem_cons.1 h
    have hs : ∀ c ∈ s.2, isSeparator c = false := fun c hc => not_isSeparator_of_pathChar (hchars c hc)
    have hrest := ih hsegments hs hrun
    rw [← isSeparator_eq] at hsep
    have htext : a ++ Operand.segmentsText (s :: segments) =
        a ++ s.1 :: (s.2 ++ Operand.segmentsText segments) := by simp [Operand.segmentsText]
    -- a slash is written only between pieces, so there has to be one behind the separator
    have hpieces : (splitAt isSeparator (s.2 ++ Operand.segmentsText segments)).filter (· ≠ []) ≠
        [] := by
      intro hnil
      rw [normal, hnil, eq_comm] at hrest
      simp [hrun] at hrest
    obtain ⟨next, pieces, hnext⟩ := List.exists_cons_of_ne_nil hpieces
    rw [normal, hnext] at hrest
    have hslash : slash s.1 = '/' := if_pos hsep
    rw [htext, normal, splitAt_append_cons ha hsep, List.filter_cons_of_pos (by simpa using hne),
      hnext, List.intercalate_cons_cons, hrest]
    simp [map_slash ha, hslash]

/-- A path remains a path. -/
theorem normal_path {x : List Char} (hx : Operand.path.Takes x []) :
    normal x = x.map slash ∧ Operand.path.Takes (x.map slash) [] := by
  obtain ⟨c, run, segments, heq, hc, hrun, h⟩ := Operand.takes_path.1 hx
  rw [List.append_nil, ← List.cons_append] at heq
  have hfirst : ∀ d ∈ c :: run, isSeparator d = false := by
    refine List.forall_mem_cons.2 ⟨?_, fun d hd => not_isSeparator_of_pathChar (hrun d hd)⟩
    exact not_isSeparator_of_pathChar (pathChar_of_pathStart hc)
  have hsegments : (Operand.segmentsText segments).map slash =
      Operand.segmentsText (segments.map fun s => ('/', s.2)) := by
    simp only [Operand.segmentsText, List.map_flatMap, List.flatMap_map]
    refine List.flatMap_congr fun s hs => ?_
    obtain ⟨hsep, -, hchars⟩ := h s hs
    rw [List.map_cons, map_slash fun c hc => not_isSeparator_of_pathChar (hchars c hc), slash,
      isSeparator_eq, if_pos hsep]
  subst heq
  refine ⟨normal_segmentsText h hfirst (List.cons_ne_nil c run), ?_⟩
  refine Operand.takes_path.2 ⟨c, run, segments.map fun s => ('/', s.2), ?_, hc, hrun, ?_⟩
  · rw [List.map_append, map_slash hfirst, hsegments, List.append_nil, List.cons_append]
  · intro s hs
    obtain ⟨t, ht, rfl⟩ := List.mem_map.1 hs
    exact ⟨Operand.contains_pathSeparator.2 (.inr (.inl rfl)), (h t ht).2⟩

/-- With slashes a text starts with the word `null` only if it does without them. -/
theorem startsWithNull_of_map_slash {x : List Char} (h : StartsWithNull (x.map slash)) :
    StartsWithNull x := by
  obtain ⟨hword, hnext⟩ := h
  rw [← List.map_take, List.map_map] at hword
  refine ⟨?_, fun c hc => ?_⟩
  · rw [← hword]
    refine List.map_congr_left fun c hc => ?_
    have hmem : asciiLower (slash c) ∈ "null".toList := by
      rw [← hword]
      exact List.mem_map.2 ⟨c, hc, rfl⟩
    have hsep : isSeparator c = false := by
      -- no slash stands in the word `null`
      by_contra hsep
      have hslash : slash c = '/' := if_pos (by simpa using hsep)
      rw [hslash] at hmem
      exact absurd hmem (by decide)
    rw [Function.comp_apply, slash, hsep]
    rfl
  · have hc' : slash c ∈ (x.map slash)[4]? := by
      rw [List.getElem?_map, hc]
      rfl
    have hslash := hnext _ hc'
    by_cases hsep : isSeparator c = true
    · simp only [isSeparator, Bool.or_eq_true, beq_iff_eq] at hsep
      rcases hsep with (rfl | rfl) | rfl <;> decide
    · rwa [slash, if_neg hsep] at hslash

/-- **What is read as a path is written as one operand**, if it is not two numbers or the like with a
slash between them. -/
theorem isOperand_normal {x : List Char} (hx : IsOperandText x)
    (hl : Literal.classifyChars x = none)
    (hstart : ((splitAt isSeparator x).filter (· ≠ [])).length ≠ 1 →
      ¬ StartsLikeNumber (normal x)) : IsOperand (normal x) := by
  have hbare {p : Pattern} (hp : p.mayTake '/' = false ∧ p.mayTake '.' = false ∧
      p.mayTake '\\' = false) (h : p.Takes x []) : normal x = x :=
    normal_eq_self (not_isSeparator_of_takes hp h)
  rcases hx with ⟨t, ht, hx⟩ | ⟨hx, hnull⟩
  · simp only [literals, List.mem_cons, List.not_mem_nil, or_false] at ht
    rcases ht with rfl | rfl | rfl | rfl | rfl | rfl | rfl
    · -- what is in quotes is the literal of a string
      obtain ⟨s, rfl⟩ := Operand.takes_string hx
      rw [Literal.classifyChars_quoted] at hl
      cases hl
    · exact isOperand_quotedDateTime (takes_normal_quotedDateTime hx)
    · obtain ⟨body, heq, hbody⟩ := Operand.takes_list.1 (takes_normal_list hx)
      rw [heq]
      exact isOperand_list hbody
    · rw [hbare (by decide) hx]
      exact isOperand_guid hx
    · rw [normal_dateTime hx hstart]
      exact isOperand_dateTime hx
    · rw [hbare (by decide) hx]
      exact isOperand_date hx
    · obtain ⟨y, heq, hy⟩ := Operand.takes_number.1 hx
      rw [List.append_nil] at heq
      subst heq
      refine isOperand_number (Operand.takes_number.2 ⟨normal x, (List.append_nil _).symm, ?_⟩)
      exact normal_numeral hy hstart
  · obtain ⟨hnormal, hpath⟩ := normal_path hx
    rw [hnormal]
    exact isOperand_path hpath fun h => hnull (startsWithNull_of_map_slash h)

/-- Only a list starts with an opening square bracket, and it ends at the first closing one. -/
theorem IsOperandText.not_bracket {x : List Char} (hx : IsOperandText x) {body : List Char}
    (h : x = '[' :: (body ++ [']'])) : ∀ c ∈ body, c ≠ ']' := by
  have hstart {p : Pattern} (hp : p.mayStart '[' = false) : ¬ p.Takes x [] := by
    intro ht
    rcases ht.mayStart with hnil | ⟨c, more, heq, hc⟩
    · rw [h] at hnil
      cases hnil
    · rw [h] at heq
      cases heq
      rw [hp] at hc
      cases hc
  rcases hx with ⟨t, ht, hx⟩ | ⟨hx, -⟩
  · have table : ∀ t ∈ literals, t.pattern = Operand.list ∨ t.pattern.mayStart '[' = false := by
      decide
    rcases table t ht with hlist | hno
    · rw [hlist] at hx
      obtain ⟨body', heq, hbody⟩ := Operand.takes_list.1 hx
      rw [h, List.cons.injEq] at heq
      cases List.append_cancel_right heq.2
      exact hbody
    · exact absurd hx (hstart hno)
  · exact absurd hx (hstart (by decide))

/-! ### Leaves -/

/-- What a number starts with. -/
def numberStarts : List Char := "0123456789-+".toList

theorem mem_numberStarts {c : Char} (h : isAsciiDigit c = true ∨ c = '-' ∨ c = '+') :
    c ∈ numberStarts := by
  have table : ∀ n < 128, isAsciiDigit (Char.ofNat n) = true → Char.ofNat n ∈ numberStarts := by
    decide
  rcases h with hdigit | rfl | rfl
  · exact forall_ascii (p := fun c => isAsciiDigit c = true → c ∈ numberStarts) table
      (toNat_lt_of_isAsciiDigit hdigit) hdigit
  · decide
  · decide

/-- Where an operand has to come, only operands can start like a number, and of these only such as
have no slashes. -/
theorem sharp_numberStarts : ∀ c ∈ numberStarts, ∀ u ∈ sharp,
    expressionGrammar.next? 0 u.kind = none ∨
      u.pattern.mayStart c = false ∧ u.pattern.advances = true ∨
      u.kind = .operand ∧ u.pattern.mayTake '/' = false := by
  decide

/-- For a text that starts like a number, `sharp` finds an operand that ends before any slash. -/
theorem exists_first_number {offset : Nat} {text : List Char} (hstart : StartsLikeNumber text)
    {ts : List (Token TokenKind)} (h : sharpTokens offset text 0 = .ok ts) :
    ∃ t us piece rest, ts = t :: us ∧ t.kind = .operand ∧ t.text = String.ofList piece ∧
      text = piece ++ rest ∧ piece ≠ [] ∧ '/' ∉ piece := by
  obtain ⟨c, hc, hnumber⟩ := hstart
  obtain ⟨run, rfl⟩ := List.head?_eq_some_iff.1 hc
  have hmem := mem_numberStarts hnumber
  have hblank : ∀ c ∈ numberStarts, isBlank c = false := by decide
  have hrest : (c :: run).dropWhile isBlank = c :: run :=
    List.dropWhile_cons_of_neg (by simp [hblank c hmem])
  cases hpick : pick? expressionGrammar (sharp.map definition) (c :: run) 0 with
  | none =>
    obtain ⟨e, he⟩ := tokensFrom_stuck offset hrest (List.cons_ne_nil c run) hpick
    rw [sharpTokens, he] at h
    cases h
  | some r =>
    obtain ⟨candidate, target⟩ := r
    rw [sharpTokens, tokensFrom_pick hrest (List.cons_ne_nil c run) hpick] at h
    obtain ⟨us, -, rfl⟩ := map_eq_ok_iff.1 h
    obtain ⟨d, hd, hcandidate, hkind, hnext⟩ := exists_of_pick? hpick
    obtain ⟨u, hu, rfl⟩ := List.mem_map.1 hd
    obtain ⟨piece, rest, heq, hconsume, -, -, hsize⟩ :=
      (candidate?_eq_some_iff (plain_sharp u hu)).1 hcandidate
    have htext : candidate.text (c :: run) = String.ofList piece := by
      rw [Candidate.text, hsize, heq, List.take_left]
    rcases sharp_numberStarts c hmem u hu with hno | ⟨hno, hadvances⟩ | ⟨hoperand, hslash⟩
    · have hnext' : expressionGrammar.next? 0 u.kind = some target := hnext
      rw [hno] at hnext'
      cases hnext'
    · rw [Pattern.consume_eq_none_of_mayStart hadvances hno] at hconsume
      cases hconsume
    · refine ⟨_, us, piece, rest, rfl, hkind.trans hoperand, htext, heq, ?_, ?_⟩
      · rintro rfl
        exact absurd hsize (Nat.ne_of_gt candidate.size_pos)
      · -- what a pattern takes has only characters that it may take
        obtain ⟨_, htakes, ⟨⟩⟩ := Pattern.exists_takes_of_consume hconsume
        obtain ⟨front, hfront, hall⟩ := htakes.mayTake
        rw [heq] at hfront
        cases List.append_cancel_right hfront
        intro hmem
        rw [hall '/' hmem] at hslash
        cases hslash

/-- A number ends at a slash, so that a path that starts like one is not found in its text. -/
theorem missed_of_startsLikeNumber {p : FieldPath} (hp : p.WellFormed) (hparents : p.parents ≠ [])
    (hstart : StartsLikeNumber p.render.toList) : (Term.reference p).Missed := by
  intro offset tail htail ts hts rest
  obtain ⟨first, more, htext, hfirst⟩ : ∃ first more, p.render.toList = first ++ '/' :: more ∧
      ∀ c ∈ first, isSeparator c = false := by
    obtain ⟨parent, parents, hcons⟩ := List.exists_cons_of_ne_nil hparents
    have hlater : (parents ++ [p.leaf]).map String.toList ≠ [] := by simp
    obtain ⟨next, later, hnext⟩ := List.exists_cons_of_ne_nil hlater
    refine ⟨parent.toList, ['/'].intercalate ((parents ++ [p.leaf]).map String.toList), ?_, ?_⟩
    · rw [toList_render, segments, hcons, List.cons_append, List.map_cons, hnext,
        List.intercalate_cons_cons]
      simp
    · exact (hp parent (by simp [segments, hcons])).2
  have hstart' : StartsLikeNumber (p.render.toList ++ tail) := by
    obtain ⟨c, hc, hnumber⟩ := hstart
    obtain ⟨run, hrun⟩ := List.head?_eq_some_iff.1 hc
    exact ⟨c, by simp [hrun], hnumber⟩
  obtain ⟨t, us, piece, after, rfl, hkind, ht, heq, hne, hslash⟩ := exists_first_number hstart' hts
  -- the operand is part of the first segment, and so it has no separators
  have hpiece : ∀ c ∈ piece, isSeparator c = false := by
    rw [htext, List.append_assoc] at heq
    rcases List.append_eq_append_iff.1 heq with ⟨between, rfl, hafter⟩ | ⟨between, rfl, -⟩
    · rcases between with _ | ⟨c, between⟩
      · simpa using hfirst
      · obtain ⟨rfl, -⟩ := List.cons.inj hafter
        exact absurd (by simp) hslash
    · exact fun c hc => hfirst c (List.mem_append_left _ hc)
  have hresolve : Postfix.resolve t ≠ .ok (.reference p) := by
    intro h
    rcases (Postfix.resolve_operand_iff hkind).1 h with ⟨w, -, ⟨⟩⟩ | ⟨-, q, hparse, hq⟩
    cases hq
    refine hparents ((parents_eq_nil_iff hparse).2 ?_)
    rw [ht, String.toList_ofList, splitAt_eq_singleton hpiece]
    simp [hne]
  rw [operands_cons_of_value (.inl hkind), List.map_cons]
  intro h
  exact hresolve (List.cons.inj h).1

/-- A path whose text is that of a literal is not found in it. -/
theorem missed_of_classify {p : FieldPath} {v : Value} (h : IsOperand p.render.toList)
    (hl : Literal.classify p.render = some v) : (Term.reference p).Missed := by
  intro offset tail htail ts hts rest
  obtain ⟨offset', htokens⟩ := h offset tail htail
  have hts : sharpTokens offset (p.render.toList ++ tail) 0 = .ok ts := hts
  rw [htokens, String.ofList_toList] at hts
  obtain ⟨us, -, rfl⟩ := map_eq_ok_iff.1 hts
  have hresolve : Postfix.resolve ⟨.operand, p.render, offset⟩ = .ok (.literal v) :=
    (Postfix.resolve_operand_iff rfl).2 (.inl ⟨v, hl, rfl⟩)
  rw [operands_cons_of_value (.inl rfl), List.map_cons, hresolve]
  rintro ⟨⟩

/-- What an operand stands for is read again, or it is a path that is not found in its text. -/
theorem reads_or_missed {t : Token TokenKind} (ht : IsOperandText t.text.toList) {v : Term}
    (hk : t.kind = .operand) (h : Postfix.resolve t = .ok v) :
    v.Reads ∧ (∀ p, v = .reference p → p.Canonical) ∨
      v.Missed ∧ ∃ p, v = .reference p ∧ ¬ p.Canonical := by
  rcases (Postfix.resolve_operand_iff hk).1 h with ⟨w, hw, rfl⟩ | ⟨hl, p, hp, rfl⟩
  · have hwritable : w.Writable :=
      Literal.writable_of_classifyChars hw fun body hbody => ht.not_bracket hbody
    exact .inl ⟨reads_literal hwritable, nofun⟩
  have hwf := wellFormed_of_parse? hp
  by_cases hstart : p.parents = [] ∨ ¬ StartsLikeNumber p.render.toList
  · -- the text of the path is one operand, and it is read as the path if it is no literal
    have hoperand : IsOperand p.render.toList := by
      rw [toList_render_of_parse? hp]
      refine isOperand_normal ht hl fun hlen => ?_
      rw [← toList_render_of_parse? hp]
      exact hstart.resolve_left fun hnil => hlen ((parents_eq_nil_iff hp).1 hnil)
    cases hc : Literal.classify p.render with
    | none =>
      refine .inl ⟨Term.reads_of_isOperand hoperand (resolve_reference hwf hc), ?_⟩
      rintro q ⟨⟩
      exact ⟨hc, hstart⟩
    | some w =>
      refine .inr ⟨missed_of_classify hoperand hc, p, rfl, fun hcanonical => ?_⟩
      rw [hcanonical.noLiteral] at hc
      cases hc
  · obtain ⟨hparents, hlike⟩ := not_or.1 hstart
    refine .inr ⟨missed_of_startsLikeNumber hwf hparents (not_not.1 hlike), p, rfl, ?_⟩
    exact fun hcanonical => hstart hcanonical.start

/-! ### Trees -/

/-- Every leaf of a tree that a built-in dialect parses is read again, or it is a reference that is
not found in its text. -/
theorem reads_or_missed_of_parse {draft : DialectDraft} (hd : draft ∈ DialectDraft.builtins)
    {d : Dialect} (hbuild : draft.build = .ok d) {text : String} {o : Operation}
    (h : d.parse text = .ok o) : o.toTerm.Complete ∧ ∀ v ∈ o.toTerm.leaves,
      v.Reads ∧ (∀ p, v = .reference p → p.Canonical) ∨
        v.Missed ∧ ∃ p, v = .reference p ∧ ¬ p.Canonical := by
  obtain ⟨hcomplete, ts, hts, hleaves⟩ := leaves_of_parse (Dialect.arityMatched_of_builtin hd hbuild) h
  refine ⟨hcomplete, fun v hv => ?_⟩
  have hmem : Except.ok v ∈ (Postfix.operands ts).map Postfix.resolve := by
    rw [hleaves]
    exact List.mem_map_of_mem hv
  obtain ⟨t, ht, hresolve⟩ := List.mem_map.1 hmem
  obtain ⟨ht, hkind⟩ := List.mem_filter.1 ht
  by_cases hk : t.kind = .operand
  · exact reads_or_missed (isOperandText_of_tokenize hd hbuild hts t ht hk) hk hresolve
  · have hnull : t.kind = .null := by simpa [hk] using hkind
    simp only [Postfix.resolve, hnull, if_true, Except.ok.injEq] at hresolve
    subst hresolve
    exact .inl ⟨reads_null, nofun⟩

/-- **`sharp` parses the text of a tree that a built-in dialect has parsed to the tree just if the
references in it are canonical.** -/
theorem parse_render_iff {draft : DialectDraft} (hd : draft ∈ DialectDraft.builtins) {text : String}
    {o : Operation} (h : (do (← draft.build).parse text) = Except.ok o) :
    (do (← DialectDraft.sharp.build).parse o.render) = Except.ok o ↔
      ∀ p, .reference p ∈ o.toTerm.leaves → p.Canonical := by
  obtain ⟨d, hbuild, hparse⟩ := bind_eq_ok_iff.1 h
  obtain ⟨hcomplete, hleaves⟩ := reads_or_missed_of_parse hd hbuild hparse
  rw [build_sharp, ok_bind]
  constructor
  · intro hrender p hp
    rcases hleaves _ hp with ⟨-, hcanonical⟩ | ⟨hmissed, -⟩
    · exact hcanonical p rfl
    · exact absurd hrender (parse_render_of_missed hcomplete
        (fun v hv => (hleaves v hv).imp And.left And.left) ⟨_, hp, hmissed⟩)
  · intro hcanonical
    refine parse_render_of_reads hcomplete fun v hv => ?_
    rcases hleaves v hv with ⟨hreads, -⟩ | ⟨-, p, rfl, hno⟩
    · exact hreads
    · exact absurd (hcanonical p hv) hno

/-- The reference in `(x == 1)`, which is parsed back, is canonical. -/
theorem canonical_of_parse_render :
    (do (← DialectDraft.sharp.build).parse "(x == 1)") =
      Except.ok ⟨.equals, [.reference ⟨[], "x"⟩, .literal (.integer 1)]⟩ ∧
    FieldPath.Canonical ⟨[], "x"⟩ := by
  have hpath : FieldPath.Writable ⟨[], "x"⟩ :=
    ⟨⟨"x", by decide⟩, by decide, by decide +kernel, fun h => absurd h.1 (by decide)⟩
  have hleaves : ∀ v ∈ [Term.reference ⟨[], "x"⟩, .literal (.integer 1)], v.Reads :=
    List.forall_mem_cons.2 ⟨reads_reference hpath, List.forall_mem_singleton.2 (reads_literal trivial)⟩
  have hparse : (do (← DialectDraft.sharp.build).parse "(x == 1)") =
      Except.ok ⟨.equals, [.reference ⟨[], "x"⟩, .literal (.integer 1)]⟩ := by
    rw [build_sharp]
    exact parse_render_of_reads (o := ⟨.equals, [.reference ⟨[], "x"⟩, .literal (.integer 1)]⟩)
      ⟨rfl, trivial, trivial, trivial⟩ hleaves
  have hsharp : DialectDraft.sharp ∈ DialectDraft.builtins := by simp [DialectDraft.builtins]
  exact ⟨hparse, (parse_render_iff hsharp hparse).1 hparse _ List.mem_cons_self⟩

/-- The tree of `1.5L == x`, in which `1.5L` names a field. -/
theorem parse_sharp_number : Dialect.sharp.parse "1.5L == x" =
    .ok ⟨.equals, [.reference ⟨["1"], "5L"⟩, .reference ⟨[], "x"⟩]⟩ := by
  have hnumber : pick? expressionGrammar (sharp.map definition) "1.5L == x".toList 0 =
      some (⟨.operand, 4, by decide⟩, 1) := by decide +kernel
  have hequals : pick? expressionGrammar (sharp.map definition) "== x".toList 1 =
      some (⟨.binaryOperator, 2, by decide⟩, 0) := by decide
  have hname : pick? expressionGrammar (sharp.map definition) "x".toList 0 =
      some (⟨.operand, 1, by decide⟩, 1) := by decide
  have htokens : Dialect.sharp.tokenize "1.5L == x" =
      .ok [⟨.operand, "1.5L", 0⟩, ⟨.binaryOperator, "==", 5⟩, ⟨.operand, "x", 8⟩] := by
    change tokensFrom expressionGrammar (sharp.map definition) 0 "1.5L == x".toList 0 = _
    rw [tokensFrom_pick (by decide) (by decide) hnumber,
      show "1.5L == x".toList.drop 4 = " == x".toList from rfl,
      tokensFrom_pick (by decide) (by decide) hequals,
      show "== x".toList.drop 2 = " x".toList from rfl,
      tokensFrom_pick (by decide) (by decide) hname, tokensFrom_blank (by decide)]
    rfl
  have hfirst : Postfix.resolve ⟨.operand, "1.5L", 0⟩ = .ok (.reference ⟨["1"], "5L"⟩) :=
    (Postfix.resolve_operand_iff rfl).2
      (.inr ⟨by decide +kernel, ⟨["1"], "5L"⟩, by decide, rfl⟩)
  have hsecond : Postfix.resolve ⟨.operand, "x", 8⟩ = .ok (.reference ⟨[], "x"⟩) :=
    (Postfix.resolve_operand_iff rfl).2
      (.inr ⟨by decide +kernel, ⟨[], "x"⟩, by decide, rfl⟩)
  rw [Dialect.parse, htokens, ok_bind,
    show Postfix.reorder Dialect.sharp _ = .ok [.value _, .value _, .operator .equals] from rfl,
    ok_bind]
  simp only [Postfix.fold, List.foldlM_cons, Postfix.push, hfirst, hsecond]
  rfl

/-- `1.5L == x` is not parsed back: its text is `(1/5L == x)`, in which there is a division. -/
theorem parse_render_number :
    let o : Operation := ⟨.equals, [.reference ⟨["1"], "5L"⟩, .reference ⟨[], "x"⟩]⟩
    (do (← DialectDraft.sharp.build).parse "1.5L == x") = Except.ok o ∧
      (do (← DialectDraft.sharp.build).parse o.render) ≠ Except.ok o := by
  have hsharp : DialectDraft.sharp ∈ DialectDraft.builtins := by simp [DialectDraft.builtins]
  obtain ⟨hcomplete, hleaves⟩ := reads_or_missed_of_parse hsharp build_sharp parse_sharp_number
  have hwf : FieldPath.WellFormed ⟨["1"], "5L"⟩ :=
    FieldPath.wellFormed_iff.2 ⟨"1.5L", by decide⟩
  have hmissed : (Term.reference ⟨["1"], "5L"⟩).Missed :=
    missed_of_startsLikeNumber hwf (by simp) ⟨'1', by decide, .inl rfl⟩
  intro o
  rw [build_sharp, ok_bind, ok_bind]
  exact ⟨parse_sharp_number, parse_render_of_missed hcomplete
    (fun v hv => (hleaves v hv).imp And.left And.left) ⟨_, List.mem_cons_self, hmissed⟩⟩

end Criteria

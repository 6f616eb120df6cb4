import Criteria.Proofs.Literal.Doubles
import Criteria.Proofs.Literal.Readings
import Criteria.Proofs.Text.Pieces

/-!
# The families of literals on written scalars

A family is reached when the patterns of all families before it do not match. For the text of a
scalar that is seen from its first character, from the number of its hyphens, or from a point or an
exponent in it.
-/

namespace Criteria

namespace Literal

open Text Numeral Pattern

/-! ### Trying the families in order -/

theorem Family.plain_pattern (f : Family) : f.pattern.plain = true := by cases f <;> rfl

/-- The families that are tried before a family. -/
def Family.earlier (f : Family) : List Family := Family.all.takeWhile (· != f)

/-- Whether a family is the first whose pattern takes a text, and reads it as a value. -/
structure Family.Decides (f : Family) (cs : List Char) (v : Value) : Prop where
  earlier : ∀ g ∈ f.earlier, ¬ g.pattern.Takes cs []
  takes : f.pattern.Takes cs []
  read : f.read? cs = some v

theorem Family.Decides.scalar? {f : Family} {cs : List Char} {v : Value} (h : f.Decides cs v) :
    scalar? cs = some v := by
  obtain ⟨later, hall⟩ : ∃ later, Family.all = f.earlier ++ f :: later := by
    cases f <;> exact ⟨_, rfl⟩
  have hnone : f.earlier.findSome? (fun g => if matchesWhole g.pattern cs then g.read? cs else none) =
      none := by
    refine List.findSome?_eq_none_iff.2 fun g hg => if_neg ?_
    rw [matchesWhole_iff g.plain_pattern]
    exact h.earlier g hg
  rw [Literal.scalar?, hall, List.findSome?_append, hnone, Option.none_or, List.findSome?_cons,
    if_pos ((matchesWhole_iff f.plain_pattern).2 h.takes), h.read]

theorem scalar?_eq_none {cs : List Char} (h : ∀ f : Family, ¬ f.pattern.Takes cs []) :
    scalar? cs = none := by
  refine List.findSome?_eq_none_iff.2 fun f _ => if_neg ?_
  rw [matchesWhole_iff f.plain_pattern]
  exact h f

/-- The text of a scalar is taken by the pattern of the family that reads it. -/
theorem exists_of_scalar? {cs : List Char} {v : Value} (h : scalar? cs = some v) :
    ∃ f : Family, f.pattern.Takes cs [] ∧ f.read? cs = some v := by
  obtain ⟨f, -, hf⟩ := List.exists_of_findSome?_eq_some h
  split at hf
  · next hmatch => exact ⟨f, (matchesWhole_iff f.plain_pattern).1 hmatch, hf⟩
  · cases hf

/-! ### What a pattern does not take -/

theorem Family.not_takes {f : Family} {c : Char} (h : f.pattern.mayStart c = false)
    (run : List Char) : ¬ f.pattern.Takes (c :: run) [] := by
  intro ht
  rcases ht.mayStart with hnil | ⟨d, more, heq, hd⟩
  · cases hnil
  · cases heq
    rw [h] at hd
    cases hd

theorem not_takes_of_mem {p : Pattern} {c : Char} (h : p.mayTake c = false) {cs : List Char}
    (hc : c ∈ cs) : ¬ p.Takes cs [] := by
  intro ht
  obtain ⟨front, rfl, hfront⟩ := ht.mayTake
  rw [List.append_nil] at hc
  rw [hfront c hc] at h
  cases h

/-- The marks of exponents. -/
def exponentMarks : CharSet := .folded (.only 'e')

/-- The marks of doubles. -/
def doubleMarks : CharSet := .folded (.unionAll [.only 'd', .only 'f'])

/-- The mark of longs. -/
def longMarks : CharSet := .folded (.only 'L')

theorem point_iff (c : Char) : (CharSet.folded (.only '.')).contains c = true ↔ c = '.' := by
  rw [CharSet.contains_folded_only (by decide)]
  simp [show caseVariants '.' = ['.'] by decide]

theorem takes_double {cs : List Char} :
    Family.double.pattern.Takes cs [] ↔ IsNumeral exponentMarks doubleMarks cs := by
  have hpattern : Family.double.pattern =
      numeral (.folded (.only '.')) exponentMarks doubleMarks := rfl
  rw [hpattern, takes_numeral point_iff]
  simp

theorem takes_integer {cs : List Char} :
    Family.integer.pattern.Takes cs [] ↔ ∃ s d, cs = s ++ d ∧ Sign s ∧ d ≠ [] ∧ Digits d := by
  have hpattern : Family.integer.pattern = .seq Literal.sign Literal.digits := rfl
  simp only [hpattern, takes_seq, takes_sign, takes_digits, List.append_nil]
  constructor
  · rintro ⟨_, ⟨s, rfl, hs⟩, d, hne, rfl, hd⟩
    exact ⟨s, _, rfl, hs, hne, hd⟩
  · rintro ⟨s, d, rfl, hs, hne, hd⟩
    exact ⟨d, ⟨s, rfl, hs⟩, d, hne, rfl, hd⟩

theorem takes_long {cs : List Char} :
    Family.long.pattern.Takes cs [] ↔
      ∃ s d l, cs = s ++ (d ++ [l]) ∧ Sign s ∧ d ≠ [] ∧ Digits d ∧ longMarks.contains l = true := by
  have hpattern : Family.long.pattern =
      .seq Literal.sign (.seq Literal.digits (.one longMarks)) := rfl
  simp only [hpattern, takes_seq, takes_sign, takes_digits, takes_one]
  constructor
  · rintro ⟨_, ⟨s, rfl, hs⟩, _, ⟨d, hne, rfl, hd⟩, l, hl, rfl⟩
    exact ⟨s, d, l, rfl, hs, hne, hd, hl⟩
  · rintro ⟨s, d, l, rfl, hs, hne, hd, hl⟩
    exact ⟨_, ⟨s, rfl, hs⟩, _, ⟨d, hne, rfl, hd⟩, l, hl, rfl⟩

/-- A number of any family is a numeral. -/
theorem isNumeral_of_takes {f : Family} (hf : f ∈ [Family.long, .integer, .double]) {cs : List Char}
    (h : f.pattern.Takes cs []) :
    ∃ marks : CharSet, marks.contains '-' = false ∧ IsNumeral exponentMarks marks cs := by
  simp only [List.mem_cons, List.not_mem_nil, or_false] at hf
  rcases hf with rfl | rfl | rfl
  · obtain ⟨s, d, l, rfl, hs, hne, hd, hl⟩ := takes_long.1 h
    exact ⟨longMarks, by decide, s, d, [], [l], by simp, hs, .whole hne hd, .absent, .mk hl⟩
  · obtain ⟨s, d, rfl, hs, hne, hd⟩ := takes_integer.1 h
    exact ⟨doubleMarks, by decide, s, d, [], [], by simp, hs, .whole hne hd, .absent, .absent⟩
  · exact ⟨doubleMarks, by decide, takes_double.1 h⟩

/-- A text with two hyphens behind its first character is no number. -/
theorem not_takes_of_hyphens {cs : List Char} {i j : Nat} (hi : 0 < i) (hij : i < j)
    (hxi : cs[i]? = some '-') (hxj : cs[j]? = some '-') :
    ∀ f ∈ [Family.long, .integer, .double], ¬ f.pattern.Takes cs [] := by
  intro f hf h
  obtain ⟨marks, hmarks, hx⟩ := isNumeral_of_takes hf h
  exact hx.hyphen_unique (by decide) hmarks hi hij hxi hxj

/-- A text that starts like a number is no word and has no quotes. -/
theorem not_takes_of_start {c : Char} (hc : startSet.contains c = true) (run : List Char) :
    ∀ f ∈ [Family.null, .boolean, .text], ¬ f.pattern.Takes (c :: run) [] := by
  intro f hf
  have hall := forall_ascii (p := fun c => startSet.contains c = true →
    ∀ f ∈ [Family.null, .boolean, .text], f.pattern.mayStart c = false) (by decide)
    (CharSet.toNat_lt_of_isAscii rfl hc)
  exact Family.not_takes (hall hc f hf) run

/-! ### Integers -/

/-- The text of an integer is a sign and digits. -/
theorem integer_chars (n : Int) :
    ∃ s d, (toString n).toList = s ++ d ∧ Sign s ∧ d ≠ [] ∧ Digits d ∧
      ∃ c run, (toString n).toList = c :: run ∧ startSet.contains c = true := by
  have hsign := DoubleText.sign_minus (n < 0)
  have hd := digits_toDigits n.natAbs
  have hne : Nat.toDigits 10 n.natAbs ≠ [] := Nat.toDigits_ne_nil
  have hnumeral : IsNumeral exponentMarks doubleMarks (toString n).toList :=
    ⟨_, _, [], [], by simpa using toList_toString n, hsign, .whole hne hd, .absent, .absent⟩
  exact ⟨_, _, toList_toString n, hsign, hne, hd, hnumeral.exists_cons⟩

theorem decides_integer (n : Int32) : Family.integer.Decides (toString n.toInt).toList (.integer n) := by
  obtain ⟨s, d, hchars, hs, hne, hd, c, run, hstart, hc⟩ := integer_chars n.toInt
  refine ⟨?_, takes_integer.2 ⟨s, d, hchars, hs, hne, hd⟩, ?_⟩
  · intro g hg
    have hg : g = .null ∨ g = .boolean ∨ g = .long := by simpa [Family.earlier, Family.all] using hg
    rcases hg with rfl | rfl | rfl
    · rw [hstart]
      exact not_takes_of_start hc run _ (by simp)
    · rw [hstart]
      exact not_takes_of_start hc run _ (by simp)
    · intro ht
      obtain ⟨s', d', l, hlong, -, -, -, hl⟩ := takes_long.1 ht
      have hmem : l ∈ s ++ d := by
        rw [← hchars, hlong]
        simp
      have hl : l = 'L' ∨ l = 'l' := CharSet.forall_folded (p := fun c => c = 'L' ∨ c = 'l') rfl
        (by decide) hl
      rcases List.mem_append.1 hmem with h | h
      · rcases contains_signSet.1 (hs.contains l h) with rfl | rfl <;> simp at hl
      · have := hd l h
        rcases hl with rfl | rfl <;> cases this
  · have hfits : toInteger? n.toInt = some n := by
      rw [toInteger?, if_pos ⟨n.minValue_le_toInt, n.toInt_le⟩, Int32.ofInt_toInt]
    simp only [Family.read?, integral?, readInt_toString, hfits]

theorem decides_long (n : Int64) :
    Family.long.Decides ((toString n.toInt).toList ++ ['L']) (.long n) := by
  obtain ⟨s, d, hchars, hs, hne, hd, c, run, hstart, hc⟩ := integer_chars n.toInt
  refine ⟨?_, takes_long.2 ⟨s, d, 'L', by rw [hchars, List.append_assoc], hs, hne, hd, by decide⟩, ?_⟩
  · intro g hg
    have hg : g = .null ∨ g = .boolean := by simpa [Family.earlier, Family.all] using hg
    rw [hstart]
    rcases hg with rfl | rfl
    · exact not_takes_of_start hc _ _ (by simp)
    · exact not_takes_of_start hc _ _ (by simp)
  · have hfits : toLong? n.toInt = some n := by
      rw [toLong?, if_pos ⟨n.minValue_le_toInt, n.toInt_le⟩, Int64.ofInt_toInt]
    simp only [Family.read?, List.dropLast_concat, readInt_toString, hfits, Option.map_some]

/-! ### Identifiers -/

/-- The hexadecimal digits. -/
def hexSet : CharSet := .folded (.unionAll [.range '0' '9', .range 'a' 'f'])

/-- The characters of an identifier. -/
def guidSets (hyphen hex : CharSet) : List CharSet :=
  List.replicate 8 hex ++ hyphen :: (List.replicate 4 hex ++ hyphen :: (List.replicate 4 hex ++
    hyphen :: (List.replicate 4 hex ++ hyphen :: List.replicate 12 hex)))

/-- The form of an identifier: `h` stands for a digit. -/
def guidForm : List Char := "hhhhhhhh-hhhh-hhhh-hhhh-hhhhhhhhhhhh".toList

theorem guidSets_eq (hyphen hex : CharSet) :
    guidSets hyphen hex = guidForm.map fun l => if l = '-' then hyphen else hex := rfl

/-- A text with the form of an identifier has it with wider sets too. -/
theorem spells_guidSets_imp {hyphen hex hyphen' hex' : CharSet} {text : List Char}
    (h : Spells (guidSets hyphen hex) text)
    (hhyphen : ∀ c, hyphen.contains c = true → hyphen'.contains c = true)
    (hhex : ∀ c, hex.contains c = true → hex'.contains c = true) :
    Spells (guidSets hyphen' hex') text := by
  rw [guidSets_eq] at h ⊢
  refine h.imp fun l _ c hc => ?_
  split_ifs at hc ⊢
  · exact hhyphen c hc
  · exact hhex c hc

theorem sets?_guid : Family.guid.pattern.sets? = some (guidSets (.folded (.only '-')) hexSet) := rfl

theorem takes_guid {cs : List Char} :
    Family.guid.pattern.Takes cs [] ↔ Spells (guidSets (.folded (.only '-')) hexSet) cs :=
  takes_iff_spells sets?_guid

theorem hyphen_iff (c : Char) : (CharSet.folded (.only '-')).contains c = true ↔ c = '-' := by
  rw [CharSet.contains_folded_only (by decide)]
  simp [show caseVariants '-' = ['-'] by decide]

/-- An identifier has a hyphen in the eighth and one in the thirteenth place. -/
theorem hyphens_of_takes_guid {cs : List Char} (h : Family.guid.pattern.Takes cs []) :
    cs[8]? = some '-' ∧ cs[13]? = some '-' := by
  have hspells := takes_guid.1 h
  have hplace {i : Nat} (hi : (guidSets (.folded (.only '-')) hexSet)[i]? =
      some (.folded (.only '-'))) : cs[i]? = some '-' := by
    obtain ⟨c, hc, hset⟩ := hspells.getElem? hi
    rw [hc, (hyphen_iff c).1 hset]
  exact ⟨hplace rfl, hplace rfl⟩

theorem spells_replicate {set : CharSet} {text : List Char} (h : ∀ c ∈ text, set.contains c = true)
    {n : Nat} (hn : text.length = n) : Spells (List.replicate n set) text := by
  subst hn
  induction text with
  | nil => exact .nil
  | cons c text ih =>
    exact .cons (h c List.mem_cons_self) (ih fun d hd => h d (List.mem_cons_of_mem _ hd))

theorem spells_guid {hyphen hex : CharSet} (hhyphen : hyphen.contains '-' = true)
    (hhex : ∀ n < 16, hex.contains (Guid.digit n) = true) (g : Guid) :
    Spells (guidSets hyphen hex) g.render.toList := by
  have hgroup (count n : Nat) : Spells (List.replicate count hex) (Guid.digits count n) := by
    refine spells_replicate (fun c hc => ?_) (Guid.length_digits _ _)
    obtain ⟨k, hk, rfl⟩ := Guid.mem_digits hc
    exact hhex k hk
  have happend {a b : List CharSet} {s t : List Char} (hs : Spells a s) (ht : Spells b t) :
      Spells (a ++ hyphen :: b) (s ++ '-' :: t) := List.rel_append hs (.cons hhyphen ht)
  rw [Guid.render, String.toList_ofList]
  simp only [List.append_assoc, List.cons_append]
  exact happend (hgroup _ _) (happend (hgroup _ _) (happend (hgroup _ _) (happend (hgroup _ _)
    (hgroup _ _))))

/-- A text with the form of an identifier has that of no family before. -/
theorem not_takes_of_guid {cs : List Char} (h : Family.guid.pattern.Takes cs []) :
    ∀ f ∈ Family.guid.earlier, ¬ f.pattern.Takes cs [] := by
  obtain ⟨h8, h13⟩ := hyphens_of_takes_guid h
  have hnumber := not_takes_of_hyphens (by decide) (by decide) h8 h13
  intro f hf
  have hf : f = .null ∨ f = .boolean ∨ f = .long ∨ f = .integer := by
    simpa [Family.earlier, Family.all] using hf
  rcases hf with rfl | rfl | rfl | rfl
  · refine not_takes_of_mem (c := '-') (by decide) (List.mem_of_getElem? h8)
  · refine not_takes_of_mem (c := '-') (by decide) (List.mem_of_getElem? h8)
  · exact hnumber _ (by simp)
  · exact hnumber _ (by simp)

theorem decides_guid (g : Guid) : Family.guid.Decides g.render.toList (.guid g) := by
  have htakes := takes_guid.2 (spells_guid (by decide) (by decide) g)
  refine ⟨not_takes_of_guid htakes, htakes, ?_⟩
  simp [Family.read?, Guid.ofDigits?_render]

/-- **Every text with the form of an identifier is read as one.** -/
theorem exists_decides_guid {cs : List Char} (h : Family.guid.pattern.Takes cs []) :
    ∃ g, Family.guid.Decides cs (.guid g) := by
  have hspells := takes_guid.1 h
  have hhex : ∀ c, hexSet.contains c = true → c ≠ '-' ∧ (hexDigit? c).isSome = true := fun c hc =>
    CharSet.forall_folded (p := fun c => c ≠ '-' ∧ (hexDigit? c).isSome = true) rfl (by decide) hc
  have hmem : ∀ c ∈ cs, c = '-' ∨ (hexDigit? c).isSome = true := by
    intro c hc
    obtain ⟨set, hset, hc⟩ := hspells.exists_of_mem hc
    rw [guidSets_eq] at hset
    obtain ⟨l, _, rfl⟩ := List.mem_map.1 hset
    split_ifs at hc
    · exact .inl ((hyphen_iff c).1 hc)
    · exact .inr (hhex c hc).2
  obtain ⟨c, hc, hset⟩ := hspells.getElem? (i := 0) rfl
  obtain ⟨g, hg⟩ := Guid.exists_ofDigits? ⟨c, List.mem_of_getElem? hc, (hhex c hset).1⟩ hmem
  exact ⟨g, not_takes_of_guid h, h, by simp [Family.read?, hg]⟩

/-! ### Strings -/

theorem takes_text (s : List Char) :
    Family.text.pattern.Takes ('\x27' :: (Value.doubleQuotes s ++ ['\x27'])) [] := by
  have hset (c : Char) : (CharSet.folded (.only '\x27')).contains c = true ↔ c = '\x27' := by
    rw [CharSet.contains_folded_only (by decide)]
    simp [show caseVariants '\x27' = ['\x27'] by decide]
  have hquote (rest : List Char) : (anyOf (.only '\x27')).Takes ('\x27' :: rest) rest :=
    .one rest ((hset _).2 rfl)
  refine .seq (hquote _) (.seq ?_ (hquote []))
  induction s with
  | nil => exact .done _
  | cons c s ih =>
    rw [Value.doubleQuotes]
    split_ifs with hc
    · exact .round (.right (.seq (hquote _) (hquote _))) ih
    · refine .round (.left (.one _ ?_)) ih
      simpa [CharSet.contains_compl, Bool.eq_false_iff, hset] using hc

theorem decides_text (s : String) : Family.text.Decides (Value.quote s).toList (.string s) := by
  rw [toList_quote]
  refine ⟨?_, takes_text _, ?_⟩
  · intro g hg
    have table : ∀ g ∈ Family.text.earlier, g.pattern.mayStart '\x27' = false := by decide
    exact Family.not_takes (table g hg) _
  · simp [Family.read?, undoubleQuotes_quote]

/-! ### Doubles -/

theorem not_takes_guid_of_numeral {marks : CharSet} (hmarks : marks.contains '-' = false)
    {cs : List Char} (h : IsNumeral exponentMarks marks cs) :
    ¬ Family.guid.pattern.Takes cs [] := by
  intro ht
  obtain ⟨h8, h13⟩ := hyphens_of_takes_guid ht
  exact h.hyphen_unique (by decide) hmarks (by decide) (by decide) h8 h13

theorem decides_double {x : Binary64} (hx : x.isFinite = true) :
    Family.double.Decides (Value.doubleFormat.write x).toList (.double x) := by
  obtain ⟨t, hchars, hnumber⟩ := Number.exists_doubleText (f := Value.doubleFormat) rfl hx
  have hnumeral : IsNumeral exponentMarks doubleMarks t.chars := t.isNumeral_chars (by decide) _
  obtain ⟨c, run, hstart, hc⟩ := hnumeral.exists_cons
  have hmark : ∀ g ∈ [Family.long, .integer], ¬ g.pattern.Takes t.chars [] := by
    have table : ∀ c ∈ ['.', 'e'], ∀ g ∈ [Family.long, .integer], g.pattern.mayTake c = false := by
      decide
    intro g hg
    rcases t.mem_chars with h | h
    · exact not_takes_of_mem (table _ (by simp) g hg) h
    · exact not_takes_of_mem (table _ (by simp) g hg) h
  have hword : ∀ g ∈ [Family.null, .boolean, .text], ¬ g.pattern.Takes t.chars [] := by
    rw [hstart]
    exact not_takes_of_start hc run
  rw [hchars]
  refine ⟨?_, takes_double.2 hnumeral, ?_⟩
  · intro g hg
    have hg : g = .null ∨ g = .boolean ∨ g = .long ∨ g = .integer ∨ g = .guid ∨ g = .text := by
      simpa [Family.earlier, Family.all] using hg
    rcases hg with rfl | rfl | rfl | rfl | rfl | rfl
    · exact hword _ (by simp)
    · exact hword _ (by simp)
    · exact hmark _ (by simp)
    · exact hmark _ (by simp)
    · exact not_takes_guid_of_numeral (by decide) hnumeral
    · exact hword _ (by simp)
  · have hend : dropEndWhile isDoubleMark t.chars = t.chars := by
      refine dropEndWhile_eq_self fun c hc => ?_
      have hdigit := t.getLast?_chars c hc
      have hne {d : Char} (hd : isAsciiDigit d = false) : c ≠ d := digit_ne hdigit hd
      have h₁ : c ≠ 'd' := hne (by decide)
      have h₂ : c ≠ 'D' := hne (by decide)
      have h₃ : c ≠ 'f' := hne (by decide)
      have h₄ : c ≠ 'F' := hne (by decide)
      simp [isDoubleMark, h₁, h₂, h₃, h₄]
    simp only [Family.read?, hend, t.readDouble_chars, hnumber, hx, if_true]

end Literal

end Criteria

import Criteria.Proofs.Literal.Families

/-!
# Dates as literals

The texts of dates, and of dates with a time of day, are read by their families, and what these
families read can be written again.
-/

namespace Criteria

open Text Numeral Pattern

/-! ### Characters -/

/-- The characters of a date with the given hyphens. -/
def dateSets (hyphen : CharSet) : List CharSet :=
  List.replicate 4 digitSet ++ hyphen :: (List.replicate 2 digitSet ++
    hyphen :: List.replicate 2 digitSet)

/-- The characters of a date and time to the minute. -/
def minuteSets (hyphen letter colon : CharSet) : List CharSet :=
  dateSets hyphen ++ letter :: (List.replicate 2 digitSet ++ colon :: List.replicate 2 digitSet)

theorem spells_zeroPadded {width n : Nat} (hwidth : 0 < width) (h : n < 10 ^ width) :
    Spells (List.replicate width digitSet) (zeroPadded width n).toList :=
  Literal.spells_replicate (digits_zeroPadded width n).contains (length_zeroPadded hwidth h)

theorem Date.Writable.spells {d : Date} (h : d.Writable) {hyphen : CharSet}
    (hhyphen : hyphen.contains '-' = true) : Spells (dateSets hyphen) d.chars := by
  have h₁ := h.year_nonneg
  have h₂ := h.year_le
  have h₃ := h.month_le
  have h₄ := h.day_le_31
  have hyear := spells_zeroPadded (n := d.year.natAbs) (show 0 < 4 by decide) (by omega)
  have hmonth := spells_zeroPadded (n := d.month) (show 0 < 2 by decide) (by omega)
  have hday := spells_zeroPadded (n := d.day) (show 0 < 2 by decide) (by omega)
  exact List.rel_append hyear (.cons hhyphen (List.rel_append hmonth (.cons hhyphen hday)))

/-- The time of day to the minute. -/
def DateTime.minuteChars (d : DateTime) : List Char :=
  d.date.chars ++ 'T' :: ((zeroPadded 2 d.hour).toList ++ ':' :: (zeroPadded 2 d.minute).toList)

/-- The seconds with their fraction. -/
def DateTime.secondChars (d : DateTime) : List Char :=
  ':' :: ((zeroPadded 2 d.writtenSecond).toList ++ d.fractionChars)

namespace DateTime.Writable

variable {d : DateTime}

theorem toList_render_eq (h : d.Writable) : d.render.toList = d.minuteChars ++ d.secondChars := by
  rw [h.toList_render]
  simp [minuteChars, secondChars, timeChars]

theorem spells (h : d.Writable) {hyphen letter colon : CharSet}
    (hhyphen : hyphen.contains '-' = true) (hletter : letter.contains 'T' = true)
    (hcolon : colon.contains ':' = true) :
    Spells (minuteSets hyphen letter colon) d.minuteChars := by
  have h₁ := h.hour_lt
  have h₂ := h.minute_lt
  have hhour := spells_zeroPadded (n := d.hour) (show 0 < 2 by decide) (by omega)
  have hminute := spells_zeroPadded (n := d.minute) (show 0 < 2 by decide) (by omega)
  exact List.rel_append (h.date.spells hhyphen)
    (.cons hletter (List.rel_append hhour (.cons hcolon hminute)))

theorem fraction_renderFraction (n : Nat) : Fraction (renderFraction n).toList := by
  have hpoint (width n : Nat) (h : 0 < width) : Fraction ("." ++ zeroPadded width n).toList := by
    have hchars : ("." ++ zeroPadded width n).toList = '.' :: (zeroPadded width n).toList := by
      simp
    rw [hchars]
    refine .mk ?_ (digits_zeroPadded width n)
    rw [toList_zeroPadded]
    simp [Nat.toDigits_ne_nil]
  unfold renderFraction
  split_ifs
  · exact .absent
  · exact hpoint _ _ (by decide)
  · exact hpoint _ _ (by decide)
  · exact hpoint _ _ (by decide)

theorem seconds (h : d.Writable) : Seconds d.secondChars := by
  have hsecond := h.writtenSecond_le
  exact .mk (spells_zeroPadded (show 0 < 2 by decide) (by omega)) (fraction_renderFraction _)

end DateTime.Writable

namespace Literal

/-! ### Patterns -/

theorem sets?_date : Family.date.pattern.sets? = some (dateSets (.folded (.only '-'))) := rfl

/-- What may stand in front of a date and time. -/
def quoteWord : List CharSet := "datetime'".toList.map fun c => .folded (.only c)

/-- The patterns of a date and time to the minute. -/
def minuteParts : List Pattern :=
  dateParts ++ [anyOf (.only 't'), decimalDigit.times 2, anyOf (.only ':'), decimalDigit.times 2]

/-- The patterns behind the minute: seconds, and perhaps the closing quote. -/
def endParts : List Pattern :=
  [seconds (.folded (.only ':')) (.folded (.only '.')), .opt true (anyOf (.only '\x27'))]

/-- The characters that the patterns to the minute take. -/
def literalMinuteSets : List CharSet :=
  minuteSets (.folded (.only '-')) (.folded (.only 't')) (.folded (.only ':'))

theorem quote_iff (c : Char) : (CharSet.folded (.only '\x27')).contains c = true ↔ c = '\x27' := by
  rw [CharSet.contains_folded_only (by decide)]
  simp [show caseVariants '\x27' = ['\x27'] by decide]

theorem colon_iff (c : Char) : (CharSet.folded (.only ':')).contains c = true ↔ c = ':' := by
  rw [CharSet.contains_folded_only (by decide)]
  simp [show caseVariants ':' = [':'] by decide]

/-- A date and time may stand in quotes behind a word; without either it is taken as well. -/
theorem takes_dateTime {cs : List Char} :
    Family.dateTime.pattern.Takes cs [] ↔ ∃ word front s quote, cs = word ++ (front ++ (s ++ quote)) ∧
      (word = [] ∨ Spells quoteWord word) ∧ Spells literalMinuteSets front ∧ Seconds s ∧
      (quote = [] ∨ quote = ['\x27']) := by
  have hword : (Literal.word "datetime'").sets? = some quoteWord := rfl
  have hpattern : Family.dateTime.pattern =
      .seq (.opt true (Literal.word "datetime'")) (seqAll (minuteParts ++ endParts)) := rfl
  have hminutes {text : List Char} : (seqAll (minuteParts ++ endParts)).Takes text [] ↔
      ∃ front mid, text = front ++ mid ∧ Spells literalMinuteSets front ∧
        (seqAll endParts).Takes mid [] :=
    takes_seqAll_append (by simp [minuteParts]) (by simp [endParts]) rfl
  have hquote {text : List Char} :
      (Pattern.opt true (anyOf (.only '\x27'))).Takes text [] ↔ text = [] ∨ text = ['\x27'] := by
    simp only [anyOf, takes_opt, takes_one, quote_iff]
    constructor
    · rintro (⟨c, rfl, rfl⟩ | rfl) <;> simp
    · rintro (rfl | rfl) <;> simp
  have hend {text : List Char} : (seqAll endParts).Takes text [] ↔
      ∃ mid, (∃ s, text = s ++ mid ∧ Seconds s) ∧ (mid = [] ∨ mid = ['\x27']) := by
    simp only [endParts, seqAll, takes_seq, takes_seconds colon_iff point_iff, hquote]
  rw [hpattern, takes_seq]
  simp only [takes_opt, takes_iff_of_sets? hword, behind_eq_some_iff, hminutes, hend]
  constructor
  · rintro ⟨_, hstart, front, _, rfl, hfront, quote, ⟨s, rfl, hs⟩, hq⟩
    rcases hstart with ⟨word, rfl, hword⟩ | rfl
    · exact ⟨word, front, s, quote, rfl, .inr hword, hfront, hs, hq⟩
    · exact ⟨[], front, s, quote, rfl, .inl rfl, hfront, hs, hq⟩
  · rintro ⟨word, front, s, quote, rfl, hword, hfront, hs, hq⟩
    refine ⟨_, ?_, front, _, rfl, hfront, quote, ⟨s, rfl, hs⟩, hq⟩
    rcases hword with rfl | hword
    · exact .inr rfl
    · exact .inl ⟨word, rfl, hword⟩

/-! ### Reading -/

/-- A text that starts like a date is of none of the families that are tried before dates. -/
theorem not_takes_of_date {c : Char} {run : List Char} (hc : isAsciiDigit c = true)
    (h4 : (c :: run)[4]? = some '-') (h7 : (c :: run)[7]? = some '-') :
    ∀ g ∈ Family.date.earlier, ¬ g.pattern.Takes (c :: run) [] := by
  have hstart : startSet.contains c = true := by
    have hdigit : (CharSet.range '0' '9').contains c = true := hc
    simp [startSet, CharSet.unionAll, hdigit]
  have hword := not_takes_of_start hstart run
  have hnumber := not_takes_of_hyphens (by decide) (by decide) h4 h7
  have hguid : ¬ Family.guid.pattern.Takes (c :: run) [] := by
    intro ht
    obtain ⟨_, hd, hset⟩ := (takes_guid.1 ht).getElem? (i := 4) rfl
    cases h4.symm.trans hd
    exact absurd hset (by decide)
  intro g hg
  have hg : g = .null ∨ g = .boolean ∨ g = .long ∨ g = .integer ∨ g = .guid ∨ g = .text ∨
      g = .double := by simpa [Family.earlier, Family.all] using hg
  rcases hg with rfl | rfl | rfl | rfl | rfl | rfl | rfl
  · exact hword _ (by simp)
  · exact hword _ (by simp)
  · exact hnumber _ (by simp)
  · exact hnumber _ (by simp)
  · exact hguid
  · exact hword _ (by simp)
  · exact hnumber _ (by simp)

/-- What a text that starts with a date looks like. -/
theorem exists_of_spells_date {x : List Char} {more : List CharSet}
    (h : Spells (dateSets (.folded (.only '-')) ++ more) x) :
    ∃ c run, x = c :: run ∧ isAsciiDigit c = true ∧ (c :: run)[4]? = some '-' ∧
      (c :: run)[7]? = some '-' := by
  obtain ⟨_, h4, hset4⟩ := h.getElem? (i := 4) rfl
  obtain ⟨_, h7, hset7⟩ := h.getElem? (i := 7) rfl
  cases (hyphen_iff _).1 hset4
  cases (hyphen_iff _).1 hset7
  obtain ⟨c, run, hc, -, rfl⟩ := List.forall₂_cons_left_iff.1 h
  exact ⟨c, run, rfl, contains_digitSet.1 hc, h4, h7⟩

/-- **A date is read by its family.** -/
theorem decides_date {d : Date} (h : d.Writable) : Family.date.Decides d.render.toList (.date d) := by
  have hspells := h.spells ((hyphen_iff '-').2 rfl)
  rw [h.toList_render]
  have hdate : Spells (dateSets (.folded (.only '-')) ++ []) d.chars := by
    rwa [List.append_nil]
  obtain ⟨c, run, heq, hc, h4, h7⟩ := exists_of_spells_date hdate
  refine ⟨?_, ?_, ?_⟩
  · rw [heq]
    exact not_takes_of_date hc h4 h7
  · exact (takes_iff_spells sets?_date).2 hspells
  · have hread := h.readDate? []
    rw [List.append_nil] at hread
    simp only [Family.read?, hread, Option.map_some]

/-- The characters of dates and of times of day. -/
def clockSet : CharSet := .unionAll [.range '0' '9', .only '-', .only ':', .only '.']

theorem clock_of_digit {c : Char} (h : isAsciiDigit c = true) : clockSet.contains c = true := by
  have hdigit : (CharSet.range '0' '9').contains c = true := h
  simp [clockSet, CharSet.unionAll, hdigit]

theorem clock_zeroPadded (width n : Nat) : ∀ c ∈ (zeroPadded width n).toList,
    clockSet.contains c = true := fun c hc => clock_of_digit (digits_zeroPadded width n c hc)

theorem clock_date (d : Date) : ∀ c ∈ d.chars, clockSet.contains c = true := by
  have hhyphen : clockSet.contains '-' = true := by decide
  simp only [Date.chars, List.forall_mem_append, List.forall_mem_cons]
  exact ⟨clock_zeroPadded _ _, hhyphen, clock_zeroPadded _ _, hhyphen, clock_zeroPadded _ _⟩

theorem clock_time (d : DateTime) : ∀ c ∈ d.timeChars ++ d.fractionChars,
    clockSet.contains c = true := by
  have hcolon : clockSet.contains ':' = true := by decide
  have hfraction : ∀ c ∈ d.fractionChars, clockSet.contains c = true := by
    have hf : Fraction d.fractionChars := DateTime.Writable.fraction_renderFraction _
    generalize d.fractionChars = fraction at hf
    cases hf with
    | absent => simp
    | mk hne hd =>
      simp only [List.forall_mem_cons]
      exact ⟨by decide, fun c hc => clock_of_digit (hd c hc)⟩
  simp only [DateTime.timeChars, List.append_assoc, List.cons_append, List.forall_mem_append,
    List.forall_mem_cons]
  exact ⟨clock_zeroPadded _ _, hcolon, clock_zeroPadded _ _, hcolon, clock_zeroPadded _ _, hfraction⟩

/-- The characters of dates and times are no capitals and no quotes. -/
theorem asciiLower_of_clock {c : Char} (h : clockSet.contains c = true) :
    asciiLower c = c ∧ c ≠ '\x27' := by
  have hall := forall_ascii (p := fun c => clockSet.contains c = true → asciiLower c = c ∧ c ≠ '\x27')
    (by decide) (CharSet.toNat_lt_of_isAscii rfl h)
  exact hall h

theorem map_asciiLower_of_clock {cs : List Char} (h : ∀ c ∈ cs, clockSet.contains c = true) :
    cs.map asciiLower = cs := by
  rw [List.map_congr_left fun c hc => (asciiLower_of_clock (h c hc)).1, List.map_id']

theorem after?_quoteWord {c : Char} (hc : isAsciiDigit c = true) (cs : List Char) :
    after? "datetime'".toList (c :: cs) = none := by
  have hne : 'd' ≠ c := (digit_ne hc (by decide)).symm
  have hword : "datetime'".toList = 'd' :: "atetime'".toList := by decide
  rw [hword, after?, if_neg hne]

/-- The text of a date and time is longer than that of a date. -/
theorem not_takes_date {d : DateTime} (h : d.Writable) :
    ¬ Family.date.pattern.Takes d.render.toList [] := by
  intro ht
  have hspells : Spells literalMinuteSets d.minuteChars :=
    h.spells ((hyphen_iff '-').2 rfl) (by decide) ((colon_iff ':').2 rfl)
  have hlen := List.Forall₂.length_eq ((takes_iff_spells sets?_date).1 ht)
  have hlen' := List.Forall₂.length_eq hspells
  have hrender := congrArg List.length h.toList_render_eq
  simp [dateSets, literalMinuteSets, minuteSets] at hlen hlen' hrender
  omega

/-- Where there is neither the word nor quotes, the text in small letters is read. -/
theorem read?_dateTime {d : DateTime} (h : d.Writable) :
    Family.dateTime.read? d.render.toList = some (.dateTime d) := by
  have hlower : d.render.toList.map asciiLower =
      d.date.chars ++ 't' :: (d.timeChars ++ d.fractionChars) := by
    rw [h.toList_render, List.map_append, List.map_cons, map_asciiLower_of_clock (clock_date _),
      map_asciiLower_of_clock (clock_time _)]
    rfl
  have hnone : after? "datetime'".toList (d.render.toList.map asciiLower) = none := by
    have hdate : Spells (dateSets (.folded (.only '-')) ++ []) d.date.chars := by
      rw [List.append_nil]
      exact h.date.spells ((hyphen_iff '-').2 rfl)
    obtain ⟨c, run, heq, hc, -⟩ := exists_of_spells_date hdate
    rw [hlower, heq]
    exact after?_quoteWord hc _
  have hend : dropEndWhile (· == '\x27') (d.render.toList.map asciiLower) =
      d.render.toList.map asciiLower := by
    refine dropEndWhile_eq_self fun c hc => ?_
    have hmem := List.mem_of_mem_getLast? hc
    rw [hlower, List.mem_append, List.mem_cons] at hmem
    have hne : c ≠ '\x27' := by
      rcases hmem with hmem | rfl | hmem
      · exact (asciiLower_of_clock (clock_date _ c hmem)).2
      · decide
      · exact (asciiLower_of_clock (clock_time _ c hmem)).2
    simpa using hne
  simp only [Family.read?, hnone, Option.getD_none, hend]
  rw [hlower, h.readDateTime?, Option.map_some]

/-- **A date and time is read by its family.** -/
theorem decides_dateTime {d : DateTime} (h : d.Writable) :
    Family.dateTime.Decides d.render.toList (.dateTime d) := by
  have hspells : Spells literalMinuteSets d.minuteChars :=
    h.spells ((hyphen_iff '-').2 rfl) (by decide) ((colon_iff ':').2 rfl)
  have htakes : Family.dateTime.pattern.Takes d.render.toList [] := by
    rw [takes_dateTime, h.toList_render_eq]
    exact ⟨[], d.minuteChars, d.secondChars, [], by simp, .inl rfl, hspells, h.seconds, .inl rfl⟩
  obtain ⟨c, run, heq, hc, h4, h7⟩ := exists_of_spells_date hspells
  have hearlier : Family.dateTime.earlier = Family.date.earlier ++ [.date] := rfl
  refine ⟨fun g hg => ?_, htakes, read?_dateTime h⟩
  rw [hearlier] at hg
  rcases List.mem_append.1 hg with hg | hg
  · have hplace {i : Nat} (hi : (c :: run)[i]? = some '-') :
        (c :: (run ++ d.secondChars))[i]? = some '-' := by
      rw [← List.cons_append, List.getElem?_append_left (List.getElem?_eq_some_iff.1 hi).1, hi]
    rw [h.toList_render_eq, heq, List.cons_append]
    exact not_takes_of_date hc (hplace h4) (hplace h7) g hg
  · rw [List.mem_singleton.1 hg]
    exact not_takes_date h

/-! ### What is read can be written -/

theorem writable_of_readDate? {cs : List Char} {d : Date} (h : Digits (cs.take 4))
    (hread : readDate? cs = some d) : d.Writable := by
  unfold readDate? Date.ofParts? at hread
  split_ifs at hread with hday
  cases hread
  have hlt := decimalNumber_lt h
  have hpow := Nat.pow_le_pow_right (show 0 < 10 by decide) (List.length_take_le 4 cs)
  exact ⟨by simp, by dsimp only; omega, hday.1, hday.2⟩

theorem writable_of_readDateTime? {cs : List Char} {d : DateTime} (h : Digits (cs.take 4))
    (hread : readDateTime? cs = some d) : d.Writable := by
  unfold readDateTime? at hread
  obtain ⟨date, hdate, hparts⟩ := Option.bind_eq_some_iff.1 hread
  have hdate := writable_of_readDate? h hdate
  dsimp only at hparts
  unfold DateTime.ofParts? at hparts
  split_ifs at hparts with hrange hsecond hleap
  · cases hparts
    refine ⟨hdate, hrange.1, hrange.2.1, hsecond, ?_, ?_⟩
    · dsimp only
      omega
    · intro hle
      dsimp only at hle
      omega
  · cases hparts
    refine ⟨hdate, hrange.1, hrange.2.1, Nat.lt_succ_self 59, ?_, fun _ => rfl⟩
    dsimp only
    omega

theorem digits_take_of_spells {x : List Char} {more : List CharSet}
    (h : Spells (dateSets (.folded (.only '-')) ++ more) x) : Digits (x.take 4) := by
  have htake : Spells (List.replicate 4 digitSet) (x.take 4) := List.forall₂_take 4 h
  intro c hc
  obtain ⟨set, hset, hcontains⟩ := htake.exists_of_mem hc
  rw [List.eq_of_mem_replicate hset] at hcontains
  exact contains_digitSet.1 hcontains

theorem writable_of_date {cs : List Char} (h : Family.date.pattern.Takes cs []) {v : Value}
    (hread : Family.date.read? cs = some v) : ∃ d : Date, v = .date d ∧ d.Writable := by
  have hspells := (takes_iff_spells sets?_date).1 h
  obtain ⟨d, hd, rfl⟩ := Option.map_eq_some_iff.1 hread
  have hdate : Spells (dateSets (.folded (.only '-')) ++ []) cs := by
    rwa [List.append_nil]
  exact ⟨d, rfl, writable_of_readDate? (digits_take_of_spells hdate) hd⟩

theorem after?_append (a b : List Char) : after? a (a ++ b) = some b := by
  induction a with
  | nil => rfl
  | cons c a ih => rw [List.cons_append, after?, if_pos rfl, ih]

theorem map_asciiLower_quoteWord {word : List Char} (h : Spells quoteWord word) :
    word.map asciiLower = "datetime'".toList := by
  have table : ∀ l ∈ "datetime'".toList, l.toNat < 128 ∧ ∀ v ∈ caseVariants l,
      asciiLower v = asciiLower l := by decide
  refine h.map_eq_map fun l hl c _ hc => ?_
  obtain ⟨hascii, hvariants⟩ := table l hl
  exact hvariants c ((CharSet.contains_folded_only hascii).1 hc)

theorem asciiLower_of_digit {c : Char} (h : isAsciiDigit c = true) : asciiLower c = c :=
  (asciiLower_of_clock (clock_of_digit h)).1

/-- Without its word and its quotes the text of a date and time starts with four digits. -/
theorem digits_take_of_dateTime {word front rest : List Char}
    (hword : word = [] ∨ Spells quoteWord word) (hfront : Spells literalMinuteSets front) :
    let lower := (word ++ (front ++ rest)).map asciiLower
    Digits ((dropEndWhile (· == '\x27')
      ((after? "datetime'".toList lower).getD lower)).take 4) := by
  have hbare : (after? "datetime'".toList ((word ++ (front ++ rest)).map asciiLower)).getD
      ((word ++ (front ++ rest)).map asciiLower) = (front ++ rest).map asciiLower := by
    rcases hword with rfl | hword
    · obtain ⟨c, run, rfl, hc, -⟩ := exists_of_spells_date hfront
      rw [List.nil_append, List.cons_append, List.map_cons, asciiLower_of_digit hc,
        after?_quoteWord hc]
      rfl
    · rw [List.map_append, map_asciiLower_quoteWord hword, after?_append]
      rfl
  have hlen : 4 ≤ front.length := by
    rw [← List.Forall₂.length_eq hfront]
    decide
  dsimp only
  rw [hbare]
  intro c hc
  have hmem := ((dropEndWhile_initial _ _).take 4).subset hc
  rw [← List.map_take, List.take_append_of_le_length hlen] at hmem
  obtain ⟨d, hd, rfl⟩ := List.mem_map.1 hmem
  have hdigit := digits_take_of_spells hfront d hd
  rwa [asciiLower_of_digit hdigit]

theorem writable_of_dateTime {cs : List Char} (h : Family.dateTime.pattern.Takes cs []) {v : Value}
    (hread : Family.dateTime.read? cs = some v) : ∃ d : DateTime, v = .dateTime d ∧ d.Writable := by
  obtain ⟨word, front, s, quote, rfl, hword, hfront, -, -⟩ := takes_dateTime.1 h
  obtain ⟨d, hd, rfl⟩ := Option.map_eq_some_iff.1 hread
  exact ⟨d, rfl, writable_of_readDateTime? (digits_take_of_dateTime hword hfront) hd⟩

end Literal

end Criteria

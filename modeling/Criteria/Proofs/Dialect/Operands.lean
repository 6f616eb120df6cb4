import Criteria.Proofs.Literal.Numerals

/-!
# What the patterns of tokens take

Which texts the patterns of operands take, and that trying takes them whole where the character
behind cannot belong to them. A spelling takes its characters in any case; a path takes all of its
segments; a text in quotes or brackets ends at the character that closes it; a date, an identifier
or a number ends where no more of its characters follow.
-/

namespace Criteria

variable {α : Type}

open Text

namespace Pattern

/-! ### Spellings -/

/-- The characters that stand for a character of a spelling. -/
def letterSet (c : Char) : CharSet := if c.isAlpha then .folded (.only c) else .only c

theorem sets?_spelled (s : String) : (spelled s).sets? = some (s.toList.map letterSet) := by
  have one (c : Char) : (if c.isAlpha then Literal.anyOf (.only c) else .char c) =
      Pattern.one (letterSet c) := by
    unfold letterSet
    split_ifs <;> rfl
  rw [spelled]
  simp only [one]
  induction s.toList with
  | nil => rfl
  | cons c cs ih =>
    cases cs with
    | nil => rfl
    | cons d cs =>
      rw [List.map_cons, List.map_cons, seqAll, sets?]
      · rw [List.map_cons] at ih
        rw [ih]
        rfl
      · simp

theorem contains_letterSet {l c : Char} (hl : l.toNat < 128) (h : (letterSet l).contains c = true) :
    c ∈ caseVariants l := by
  unfold letterSet at h
  split_ifs at h with ha
  · exact (CharSet.contains_folded_only hl).1 h
  · have hc : l = c := by simpa using h
    rw [← hc, caseVariants_ascii hl, asciiVariants, if_neg ha]
    exact List.mem_cons_self

theorem takes_altAll {ps : List Pattern} (hne : ps ≠ []) {text rest : List Char} :
    (altAll ps).Takes text rest ↔ ∃ p ∈ ps, p.Takes text rest := by
  induction ps with
  | nil => exact absurd rfl hne
  | cons p ps ih =>
    cases ps with
    | nil => simp [altAll]
    | cons q ps =>
      rw [altAll, takes_alt, ih (by simp)]
      · simp
      · simp

theorem takes_spelled {s : String} {text rest : List Char} :
    (spelled s).Takes text rest ↔
      ∃ piece, text = piece ++ rest ∧ Spells (s.toList.map letterSet) piece := by
  rw [takes_iff_of_sets? (sets?_spelled s), behind_eq_some_iff]

theorem takes_spelledAny {spellings : List String} (hne : spellings ≠ []) {text rest : List Char} :
    (spelledAny spellings).Takes text rest ↔ ∃ s ∈ spellings, (spelled s).Takes text rest := by
  rw [spelledAny, takes_altAll (by simpa using hne)]
  simp

end Pattern

/-! ### Paths -/

namespace Operand

/-- Whether a text can go on behind a path. -/
def EndsPath (tail : List Char) : Prop :=
  ∀ c ∈ tail.head?, pathChar.contains c = false ∧ pathSeparator.contains c = false

theorem contains_pathSeparator {c : Char} :
    pathSeparator.contains c = true ↔ c = '.' ∨ c = '/' ∨ c = '\\' := by
  have ascii : ∀ d, (CharSet.unionAll [.only '.', .only '/', .only '\\']).contains d = true →
      d.toNat < 128 := by
    intro d hd
    simp only [CharSet.unionAll, CharSet.contains_union, CharSet.contains_only, Bool.or_eq_true,
      beq_iff_eq] at hd
    rcases hd with rfl | rfl | rfl <;> decide
  rw [pathSeparator, CharSet.contains_folded_ascii ascii]
  have single : ∀ d ∈ ['.', '/', '\\'], caseVariants d = [d] := by decide
  simp only [List.mem_cons, List.not_mem_nil, or_false, forall_eq_or_imp, forall_eq] at single
  obtain ⟨h1, h2, h3⟩ := single
  simp only [CharSet.unionAll, CharSet.contains_union, CharSet.contains_only, Bool.or_eq_true,
    beq_iff_eq, or_and_right, exists_or, exists_eq_left', h1, h2, h3, List.mem_singleton]

theorem pathChar_of_isWord {c : Char} (h : isWord c = true) : pathChar.contains c = true := by
  refine CharSet.contains_folded_of_contains ?_
  simp [CharSet.unionAll, CharSet.contains, h]

theorem not_pathChar_of_pathSeparator {c : Char} (h : pathSeparator.contains c = true) :
    pathChar.contains c = false := by
  rcases contains_pathSeparator.1 h with rfl | rfl | rfl <;> decide

/-- The text of a separator and the characters of a segment behind it, for several segments. -/
def segmentsText (segments : List (Char × List Char)) : List Char :=
  segments.flatMap fun s => s.1 :: s.2

/-- Whether each segment is made of the right characters. -/
def Segments (segments : List (Char × List Char)) : Prop :=
  ∀ s ∈ segments, pathSeparator.contains s.1 = true ∧ s.2 ≠ [] ∧
    ∀ c ∈ s.2, pathChar.contains c = true

/-- Any number of segments may be none. -/
theorem exists_consume_segments (text : List Char) :
    ∃ rest, Operand.segments.consume text some = some rest ∧ rest <:+ text := by
  have hsome : (Operand.segments.consume text some).isSome = true :=
    Pattern.isSome_consume rfl (.done text) rfl
  obtain ⟨rest, hrest⟩ := Option.isSome_iff_exists.1 hsome
  obtain ⟨_, htakes, heq⟩ := Pattern.exists_takes_of_consume hrest
  cases heq
  exact ⟨rest, hrest, htakes.suffix⟩

/-- The characters of a segment are taken as far as they go. -/
theorem head?_dropWhile_pathChar (text : List Char) :
    ∀ c ∈ (text.dropWhile pathChar.contains).head?, pathChar.contains c = false := by
  intro c hc
  have hnot := List.head?_dropWhile_not pathChar.contains text
  rwa [hc] at hnot

theorem forall_append_takeWhile {run : List Char} (hrun : ∀ c ∈ run, pathChar.contains c = true)
    (text : List Char) : ∀ c ∈ run ++ text.takeWhile pathChar.contains, pathChar.contains c = true :=
  List.forall_mem_append.2 ⟨hrun, List.all_eq_true.1 List.all_takeWhile⟩

/-- Segments in front of a text are taken, and what the text goes on with as well. -/
theorem consume_segments {segments : List (Char × List Char)} (h : Segments segments)
    (text : List Char) :
    Operand.segments.consume ((segmentsText segments ++ text).dropWhile pathChar.contains) some =
      Operand.segments.consume (text.dropWhile pathChar.contains) some := by
  induction segments with
  | nil => rfl
  | cons s segments ih =>
    obtain ⟨d, run⟩ := s
    obtain ⟨hd, hne, hrun⟩ := h _ List.mem_cons_self
    obtain ⟨rest, hrest, -⟩ :=
      exists_consume_segments ((segmentsText segments ++ text).dropWhile pathChar.contains)
    have hplus := Pattern.consume_plus_run (k := fun rest => Operand.segments.consume rest some)
      (by simp [hne]) (forall_append_takeWhile hrun (segmentsText segments ++ text))
      (head?_dropWhile_pathChar _) hrest
    rw [List.append_assoc, List.takeWhile_append_dropWhile] at hplus
    have htext : segmentsText ((d, run) :: segments) ++ text =
        d :: (run ++ (segmentsText segments ++ text)) := by simp [segmentsText]
    rw [← ih fun s hs => h s (List.mem_cons_of_mem _ hs), hrest, htext,
      List.dropWhile_cons_of_neg (by simp [not_pathChar_of_pathSeparator hd]), Operand.segments,
      Pattern.consume_star rfl]
    refine Pattern.prefer_some ?_ _
    simp only [Pattern.seqAll, Pattern.consume_seq, Pattern.consume_one_cons, hd, if_true]
    exact hplus

/-- A path takes its segments, and what the text behind them goes on with as well. -/
theorem consume_path_append {c : Char} {run : List Char} {segments : List (Char × List Char)}
    (hc : pathStart.contains c = true) (hrun : ∀ d ∈ run, pathChar.contains d = true)
    (h : Segments segments) (text : List Char) :
    path.consume (c :: (run ++ (segmentsText segments ++ text))) some =
      Operand.segments.consume (text.dropWhile pathChar.contains) some := by
  obtain ⟨rest, hrest, -⟩ :=
    exists_consume_segments ((segmentsText segments ++ text).dropWhile pathChar.contains)
  have hstar := Pattern.consume_star_run (k := fun rest => Operand.segments.consume rest some)
    (forall_append_takeWhile hrun (segmentsText segments ++ text)) (head?_dropWhile_pathChar _) hrest
  rw [List.append_assoc, List.takeWhile_append_dropWhile] at hstar
  simp only [path, Pattern.seqAll, Pattern.consume_seq, Pattern.consume_one_cons, hc, if_true]
  rw [hstar, ← hrest, consume_segments h]

/-- A path takes its segments and stops at a character that is none of theirs. -/
theorem consume_path {c : Char} {run : List Char} {segments : List (Char × List Char)}
    (hc : pathStart.contains c = true) (hrun : ∀ d ∈ run, pathChar.contains d = true)
    (h : Segments segments) {tail : List Char} (ht : EndsPath tail) :
    path.consume (c :: (run ++ (segmentsText segments ++ tail))) some = some tail := by
  rw [consume_path_append hc hrun h]
  rcases tail with _ | ⟨d, tail⟩
  · rw [List.dropWhile_nil, Operand.segments, Pattern.consume_star rfl]
    rfl
  · obtain ⟨hchar, hsep⟩ := ht d rfl
    rw [List.dropWhile_cons_of_neg (by simp [hchar]), Operand.segments, Pattern.consume_star rfl]
    simp [Pattern.seqAll, Pattern.prefer, hsep]

theorem takes_segments {text rest : List Char} :
    Operand.segments.Takes text rest ↔
      ∃ segments, text = segmentsText segments ++ rest ∧ Segments segments := by
  constructor
  · intro h
    generalize hp : Operand.segments = p at h
    induction h with
    | done text => exact ⟨[], rfl, by simp [Segments]⟩
    | round h₁ h₂ ih₁ ih₂ =>
      cases hp
      obtain ⟨_, hsep, hplus⟩ := Pattern.takes_seq.1 h₁
      obtain ⟨c, hc, rfl⟩ := Pattern.takes_one.1 hsep
      obtain ⟨run, hne, rfl, hrun⟩ := Pattern.takes_plus_one.1 hplus
      obtain ⟨segments, rfl, hsegments⟩ := ih₂ rfl
      refine ⟨(c, run) :: segments, by simp [segmentsText], ?_⟩
      exact List.forall_mem_cons.2 ⟨⟨hc, hne, hrun⟩, hsegments⟩
    | _ => cases hp
  · rintro ⟨segments, rfl, h⟩
    induction segments with
    | nil => exact .done _
    | cons s segments ih =>
      obtain ⟨⟨hc, hne, hrun⟩, hsegments⟩ := List.forall_mem_cons.1 h
      have hplus : (Pattern.plus true (.one pathChar)).Takes
          (s.2 ++ (segmentsText segments ++ rest)) (segmentsText segments ++ rest) :=
        Pattern.takes_plus_one.2 ⟨s.2, hne, rfl, hrun⟩
      have htext : segmentsText (s :: segments) ++ rest =
          s.1 :: (s.2 ++ (segmentsText segments ++ rest)) := by simp [segmentsText]
      rw [htext]
      exact .round (.seq (.one _ hc) hplus) (ih hsegments)

theorem takes_path {text rest : List Char} :
    path.Takes text rest ↔ ∃ c run segments,
      text = c :: (run ++ (segmentsText segments ++ rest)) ∧ pathStart.contains c = true ∧
        (∀ d ∈ run, pathChar.contains d = true) ∧ Segments segments := by
  simp only [path, Pattern.seqAll, Pattern.takes_seq, Pattern.takes_one, Pattern.takes_star_one,
    takes_segments]
  constructor
  · rintro ⟨_, ⟨c, hc, rfl⟩, _, ⟨run, rfl, hrun⟩, segments, rfl, h⟩
    exact ⟨c, run, segments, rfl, hc, hrun, h⟩
  · rintro ⟨c, run, segments, rfl, hc, hrun, h⟩
    exact ⟨_, ⟨c, hc, rfl⟩, _, ⟨run, rfl, hrun⟩, segments, rfl, h⟩

/-- A path ends where no more characters of its last segment follow. -/
theorem not_pathChar_of_consume_path {x tail : List Char} (hx : path.Takes x [])
    (h : path.consume (x ++ tail) some = some tail) :
    ∀ c ∈ tail.head?, pathChar.contains c = false := by
  intro c hc
  obtain ⟨more, rfl⟩ := List.head?_eq_some_iff.1 hc
  by_contra hchar
  rw [Bool.not_eq_false] at hchar
  obtain ⟨a, run, segments, rfl, ha, hrun, hsegments⟩ := takes_path.1 hx
  obtain ⟨rest, hrest, hsuffix⟩ := exists_consume_segments (more.dropWhile pathChar.contains)
  rw [List.append_nil, List.cons_append, List.append_assoc, consume_path_append ha hrun hsegments,
    List.dropWhile_cons_of_pos hchar, hrest] at h
  cases h
  have hle := (hsuffix.trans (List.dropWhile_suffix _)).length_le
  rw [List.length_cons] at hle
  omega

/-! ### Quotes and brackets -/

theorem contains_except {c d : Char} (hc : caseVariants c = [c]) (hascii : c.toNat < 128) :
    (CharSet.compl (.folded (.only c))).contains d = decide (d ≠ c) := by
  have hd : (CharSet.folded (.only c)).contains d = decide (d = c) := by
    rw [Bool.eq_iff_iff, CharSet.contains_folded_only hascii, hc]
    simp
  rw [CharSet.contains_compl, hd]
  simp

theorem contains_except_quote (c : Char) :
    (CharSet.compl (.folded (.only '\x27'))).contains c = decide (c ≠ '\x27') :=
  contains_except (by decide) (by decide)

theorem contains_except_bracket (c : Char) :
    (CharSet.compl (.folded (.only ']'))).contains c = decide (c ≠ ']') :=
  contains_except (by decide) (by decide)

/-- A character of a string: any but the quote, or two quotes. -/
def stringChar : Pattern := .alt (except '\x27') (.seqAll [.char '\x27', .char '\x27'])

theorem consume_stringChar {c : Char} (hc : c ≠ '\x27') (text : List Char)
    (k : List Char → Option α) : stringChar.consume (c :: text) k = k text := by
  have hquote : (Pattern.seqAll [.char '\x27', .char '\x27']).consume (c :: text) k = none :=
    Pattern.consume_eq_none_of_mayStart rfl (by simp [Pattern.mayStart, Pattern.seqAll, Pattern.char,
      Pattern.advances, hc.symm])
  rw [stringChar, Pattern.consume, hquote, except, Pattern.consume_one_cons, contains_except_quote,
    if_pos (by simpa using hc), Option.or_none]

theorem consume_stringChar_quotes (text : List Char) (k : List Char → Option α) :
    stringChar.consume ('\x27' :: '\x27' :: text) k = k text := by
  rw [stringChar, Pattern.consume, except, Pattern.consume_one_cons, contains_except_quote,
    if_neg (by simp), Option.none_or]
  simp [Pattern.seqAll, Pattern.char]

theorem consume_stringChar_quote {text : List Char} (h : text.head? ≠ some '\x27')
    (k : List Char → Option α) : stringChar.consume ('\x27' :: text) k = none := by
  rw [stringChar, Pattern.consume, except, Pattern.consume_one_cons, contains_except_quote,
    if_neg (by simp), Option.none_or]
  rcases text with _ | ⟨c, text⟩
  · simp [Pattern.seqAll, Pattern.char]
  · have hc : '\x27' ≠ c := fun hc => h (by rw [hc]; rfl)
    simp [Pattern.seqAll, Pattern.char, hc]

theorem takes_stringChar {text rest : List Char} (h : stringChar.Takes text rest) :
    (∃ c, c ≠ '\x27' ∧ text = c :: rest) ∨ text = '\x27' :: '\x27' :: rest := by
  rcases Pattern.takes_alt.1 h with hone | htwo
  · obtain ⟨c, hc, rfl⟩ := Pattern.takes_one.1 hone
    rw [contains_except_quote] at hc
    exact .inl ⟨c, by simpa using hc, rfl⟩
  · simp only [Pattern.seqAll, Pattern.char, Pattern.takes_seq, Pattern.takes_one,
      CharSet.contains_only, beq_iff_eq] at htwo
    obtain ⟨_, ⟨c, rfl, rfl⟩, d, rfl, rfl⟩ := htwo
    exact .inr rfl

/-- Between the quotes of a string each quote is one of two. -/
theorem takes_string {text rest : List Char} (h : string.Takes text rest) :
    ∃ s, text = '\x27' :: (Value.doubleQuotes s ++ '\x27' :: rest) := by
  have hbody {text rest : List Char} (h : (Pattern.star true stringChar).Takes text rest) :
      ∃ s, text = Value.doubleQuotes s ++ rest := by
    generalize hp : Pattern.star true stringChar = p at h
    induction h with
    | done text => exact ⟨[], rfl⟩
    | round h₁ h₂ ih₁ ih₂ =>
      cases hp
      obtain ⟨s, rfl⟩ := ih₂ rfl
      rcases takes_stringChar h₁ with ⟨c, hc, rfl⟩ | rfl
      · exact ⟨c :: s, by simp [Value.doubleQuotes, hc]⟩
      · exact ⟨'\x27' :: s, by simp [Value.doubleQuotes]⟩
    | _ => cases hp
  simp only [string, Pattern.seqAll, Pattern.takes_seq, Pattern.char, Pattern.takes_one,
    CharSet.contains_only, beq_iff_eq] at h
  obtain ⟨_, ⟨c, rfl, rfl⟩, _, hstar, d, rfl, rfl⟩ := h
  obtain ⟨s, rfl⟩ := hbody hstar
  exact ⟨s, rfl⟩

/-- A string ends at the first quote that is not one of two. -/
theorem consume_string (s : List Char) {tail : List Char} (htail : tail.head? ≠ some '\x27') :
    string.consume ('\x27' :: (Value.doubleQuotes s ++ '\x27' :: tail)) some = some tail := by
  have hstar : (Pattern.star true stringChar).consume (Value.doubleQuotes s ++ '\x27' :: tail)
      (fun rest => (Pattern.char '\x27').consume rest some) = some tail := by
    induction s with
    | nil =>
      rw [Value.doubleQuotes, List.nil_append, Pattern.consume_star rfl,
        consume_stringChar_quote htail]
      simp [Pattern.prefer, Pattern.char]
    | cons c s ih =>
      rw [Value.doubleQuotes, Pattern.consume_star rfl]
      refine Pattern.prefer_some ?_ _
      split_ifs with hc
      · rw [List.cons_append, List.cons_append, consume_stringChar_quotes]
        exact ih
      · rw [List.cons_append, consume_stringChar hc]
        exact ih
  exact hstar

/-- What a date and time in quotes starts with. -/
def quotedWord : List CharSet := "datetime".toList.map fun c => .folded (.only c)

theorem sets?_quotedWord :
    (Pattern.seqAll ("datetime".toList.map fun c => Literal.anyOf (.only c))).sets? =
      some quotedWord := rfl

theorem takes_quotedDateTime {text rest : List Char} :
    quotedDateTime.Takes text rest ↔ ∃ word body, text = word ++ '\x27' :: (body ++ '\x27' :: rest) ∧
      Pattern.Spells quotedWord word ∧ ∀ c ∈ body, c ≠ '\x27' := by
  rw [quotedDateTime, Pattern.takes_seqAll_append (by simp) (by simp) sets?_quotedWord]
  simp only [Pattern.seqAll, Pattern.takes_seq, Pattern.char, Pattern.takes_one, except,
    Pattern.takes_star_one, contains_except_quote, CharSet.contains_only, beq_iff_eq,
    decide_eq_true_iff]
  constructor
  · rintro ⟨word, mid, rfl, hword, _, ⟨c, rfl, rfl⟩, _, ⟨body, rfl, hbody⟩, d, rfl, rfl⟩
    exact ⟨word, body, rfl, hword, hbody⟩
  · rintro ⟨word, body, rfl, hword, hbody⟩
    exact ⟨word, _, rfl, hword, _, ⟨_, rfl, rfl⟩, _, ⟨body, rfl, hbody⟩, _, rfl, rfl⟩

/-- A date and time in quotes ends at the second quote. -/
theorem consume_quotedDateTime {word body : List Char} (hword : Pattern.Spells quotedWord word)
    (hbody : ∀ c ∈ body, c ≠ '\x27') (tail : List Char) :
    quotedDateTime.consume (word ++ '\x27' :: (body ++ '\x27' :: tail)) some = some tail := by
  have hrun : ∀ c ∈ body, (CharSet.compl (.folded (.only '\x27'))).contains c = true := by
    intro c hc
    rw [contains_except_quote]
    simpa using hbody c hc
  have hstar : (Pattern.star true (except '\x27')).consume (body ++ '\x27' :: tail)
      (fun rest => (Pattern.char '\x27').consume rest some) = some tail := by
    refine Pattern.consume_star_run hrun ?_ (by simp [Pattern.char])
    rintro c ⟨⟩
    decide
  rw [quotedDateTime, Pattern.consume_seqAll_append (by simp) (by simp) sets?_quotedWord,
    Pattern.behind_append hword]
  exact hstar

theorem takes_list {text rest : List Char} :
    list.Takes text rest ↔ ∃ body, text = '[' :: (body ++ ']' :: rest) ∧ ∀ c ∈ body, c ≠ ']' := by
  simp only [list, Pattern.seqAll, Pattern.takes_seq, Pattern.char, Pattern.takes_one, except,
    Pattern.takes_star_one, contains_except_bracket, CharSet.contains_only, beq_iff_eq,
    decide_eq_true_iff]
  constructor
  · rintro ⟨_, ⟨c, rfl, rfl⟩, _, ⟨body, rfl, hbody⟩, d, rfl, rfl⟩
    exact ⟨body, rfl, hbody⟩
  · rintro ⟨body, rfl, hbody⟩
    exact ⟨_, ⟨_, rfl, rfl⟩, _, ⟨body, rfl, hbody⟩, _, rfl, rfl⟩

/-- A list ends at the first closing bracket. -/
theorem consume_list {body : List Char} (hbody : ∀ c ∈ body, c ≠ ']') (tail : List Char) :
    list.consume ('[' :: (body ++ ']' :: tail)) some = some tail := by
  have hrun : ∀ c ∈ body, (CharSet.compl (.folded (.only ']'))).contains c = true := by
    intro c hc
    rw [contains_except_bracket]
    simpa using hbody c hc
  have hstar : (Pattern.star true (except ']')).consume (body ++ ']' :: tail)
      (fun rest => (Pattern.char ']').consume rest some) = some tail := by
    refine Pattern.consume_star_run hrun ?_ (by simp [Pattern.char])
    rintro c ⟨⟩
    decide
  exact hstar

/-! ### Dates and numbers -/

/-- The hexadecimal digits. -/
def hexSet : CharSet := .folded (.unionAll [.range '0' '9', .range 'a' 'f', .range 'A' 'F'])

/-- The characters of an identifier. -/
def guidSets : List CharSet :=
  List.replicate 8 hexSet ++ .only '-' :: (List.replicate 4 hexSet ++ .only '-' ::
    (List.replicate 4 hexSet ++ .only '-' :: (List.replicate 4 hexSet ++
      .only '-' :: List.replicate 12 hexSet)))

theorem sets?_guid : guid.sets? = some guidSets := rfl

open Numeral (digitSet)

/-- The characters of a date. -/
def dateSets : List CharSet :=
  List.replicate 4 digitSet ++ .only '-' :: (List.replicate 2 digitSet ++
    .only '-' :: List.replicate 2 digitSet)

/-- The characters of a date and time to the minute. -/
def minuteSets : List CharSet :=
  dateSets ++ .folded (.unionAll [.only 'T', .only 't']) :: (List.replicate 2 digitSet ++
    .only ':' :: List.replicate 2 digitSet)

/-- The patterns of a date and time to the minute. -/
def minuteParts : List Pattern :=
  dateParts ++ [Literal.anyOf (.unionAll [.only 'T', .only 't']), Literal.decimalDigit.times 2,
    .char ':', Literal.decimalDigit.times 2]

theorem sets?_date : date.sets? = some dateSets := rfl

theorem sets?_minuteParts : (Pattern.seqAll minuteParts).sets? = some minuteSets := rfl

theorem dateTime_eq :
    dateTime = .seqAll (minuteParts ++ [Numeral.seconds (.only ':') (.only '.')]) := rfl

theorem takes_dateTime {text rest : List Char} :
    dateTime.Takes text rest ↔ ∃ front s, text = front ++ (s ++ rest) ∧
      Pattern.Spells minuteSets front ∧ Numeral.Seconds s := by
  rw [dateTime_eq, Pattern.takes_seqAll_append (by simp [minuteParts]) (by simp) sets?_minuteParts]
  simp only [Pattern.seqAll]
  have hseconds {text rest : List Char} : (Numeral.seconds (.only ':') (.only '.')).Takes text rest ↔
      ∃ s, text = s ++ rest ∧ Numeral.Seconds s := Numeral.takes_seconds
    (fun c => CharSet.contains_only_iff) (fun c => CharSet.contains_only_iff)
  simp only [hseconds]
  constructor
  · rintro ⟨front, _, rfl, hf, s, rfl, hs⟩
    exact ⟨front, s, rfl, hf, hs⟩
  · rintro ⟨front, s, rfl, hf, hs⟩
    exact ⟨front, _, rfl, hf, s, rfl, hs⟩

/-- A date and time ends where no more of its characters follow. -/
theorem consume_dateTime {x tail : List Char} (hx : dateTime.Takes x [])
    (htail : ∀ c ∈ tail.head?, isAsciiDigit c = false ∧ c ≠ '.' ∧ c ≠ ':') :
    dateTime.consume (x ++ tail) some = some tail := by
  obtain ⟨front, s, rfl, hf, hs⟩ := takes_dateTime.1 hx
  rw [List.append_nil, List.append_assoc, dateTime_eq,
    Pattern.consume_seqAll_append (by simp [minuteParts]) (by simp) sets?_minuteParts,
    Pattern.behind_append hf]
  exact Numeral.consume_seconds (fun c => CharSet.contains_only_iff)
    (fun c => CharSet.contains_only_iff) hs htail rfl

/-- The marks of an exponent. -/
def exponentMarks : CharSet := .folded (.unionAll [.only 'e', .only 'E'])

/-- The marks of widths. -/
def widthMarks : CharSet :=
  .folded (.unionAll [.only 'l', .only 'L', .only 'd', .only 'D', .only 'f', .only 'F'])

theorem number_eq : number = Numeral.numeral (.only '.') exponentMarks widthMarks := rfl

theorem takes_number {text rest : List Char} :
    number.Takes text rest ↔
      ∃ x, text = x ++ rest ∧ Numeral.IsNumeral exponentMarks widthMarks x := by
  rw [number_eq]
  exact Numeral.takes_numeral fun c => CharSet.contains_only_iff

theorem mem_exponentMarks {c : Char} (h : exponentMarks.contains c = true) : c = 'e' ∨ c = 'E' :=
  CharSet.forall_folded (p := fun c => c = 'e' ∨ c = 'E') rfl (by decide) h

theorem mem_widthMarks {c : Char} (h : widthMarks.contains c = true) : c ∈ "lLdDfF".toList :=
  CharSet.forall_folded (p := fun c => c ∈ "lLdDfF".toList) rfl (by decide) h

/-- A number ends where no more of its characters follow. -/
theorem consume_number {x tail : List Char} (hx : number.Takes x [])
    (htail : ∀ c ∈ tail.head?, isAsciiDigit c = false ∧ c ≠ '.' ∧
      exponentMarks.contains c = false ∧ widthMarks.contains c = false) :
    number.consume (x ++ tail) some = some tail := by
  obtain ⟨y, rfl, hy⟩ := takes_number.1 hx
  rw [List.append_nil, number_eq]
  refine Numeral.consume_numeral (fun c => CharSet.contains_only_iff) ?_ ?_ hy htail rfl
  · intro c hc
    rcases mem_exponentMarks hc with rfl | rfl <;> decide
  · have table : ∀ c ∈ "lLdDfF".toList, isAsciiDigit c = false ∧ c ≠ '.' ∧
        exponentMarks.contains c = false := by decide
    exact fun c hc => table c (mem_widthMarks hc)

end Operand

end Criteria

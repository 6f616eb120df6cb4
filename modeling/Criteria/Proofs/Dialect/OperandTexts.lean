import Criteria.Proofs.Dialect.Operands
import Criteria.Proofs.Dialect.Rendering

/-!
# Texts that are one operand

`IsOperand` says that a text, wherever it stands for an operand in a rendered tree, is one token. A
text that a pattern takes as a whole is one if none of the patterns before finds anything, and that
is shown pattern by pattern: most of them cannot start with the first character of the text, and the
others would need a hyphen or a quote at a place where there is none.
-/

namespace Criteria

open Text TokenPattern

/-! ### What follows an operand -/

theorem head?_of_resumes {tail : List Char} (h : Resumes tail) :
    ∀ c ∈ tail.head?, c = ')' ∨ c = ',' ∨ c = ' ' := by
  rcases tail with _ | ⟨c, tail⟩
  · simp
  · rintro d ⟨⟩
    by_cases hc : c = ' '
    · exact .inr (.inr hc)
    · have hc : c = ')' ∨ c = ',' := by
        unfold Resumes at h
        split at h
        · next heq => cases heq
        · next heq => exact absurd (List.cons.inj heq).1 hc
        · next heq =>
          cases heq
          exact h
      exact hc.imp_right .inl

/-- A text that goes on behind an operand has no opening bracket behind its blanks. -/
theorem not_call_of_resumes {blanks more : List Char} (h : Resumes (blanks ++ '(' :: more))
    (hblanks : ∀ c ∈ blanks, isBlank c = true) : False := by
  rcases blanks with _ | ⟨c, blanks⟩
  · have := head?_of_resumes h '(' rfl
    simp at this
  · have hc := hblanks c List.mem_cons_self
    rcases head?_of_resumes h c rfl with rfl | rfl | rfl
    · exact absurd hc (by decide)
    · exact absurd hc (by decide)
    · rcases blanks with _ | ⟨d, blanks⟩
      · exact h.2 rfl
      · have hd := hblanks d (by simp)
        rw [h.1] at hd
        cases hd

/-- What follows a word is the end of the text, or a character that does not belong to a word. -/
theorem follows_endOfWord_iff {t : TokenPattern TokenKind} (ht : t.follow = some .endOfWord)
    {tail : List Char} : t.Follows tail ↔ ∀ c ∈ tail.head?, isWord c = false := by
  constructor
  · rintro h c hc
    obtain ⟨more, rfl⟩ := List.head?_eq_some_iff.1 hc
    obtain ⟨a, ha⟩ := Option.isSome_iff_exists.1 (h _ ht)
    obtain ⟨rest, htakes, -⟩ := Pattern.exists_takes_of_consume ha
    rcases Pattern.takes_alt.1 htakes with hone | hend
    · obtain ⟨_, hset, heq⟩ := Pattern.takes_one.1 hone
      cases heq
      simpa [CharSet.contains] using hset
    · obtain ⟨hend, -⟩ := Pattern.takes_anchor.1 hend
      simp [Anchor.holds, Place.start] at hend
  · intro h q hq
    rw [ht] at hq
    cases hq
    rcases tail with _ | ⟨c, tail⟩
    · rfl
    · have hc : (CharSet.compl .word).contains c = true := by
        simpa [CharSet.contains] using h c rfl
      exact Pattern.isSome_consume rfl (.left (.one tail hc)) rfl

/-- What has to follow an operand is found. -/
theorem follows_of_resumes {t : TokenPattern TokenKind}
    (ht : t.follow = none ∨ t.follow = some Pattern.endOfWord) {tail : List Char}
    (h : Resumes tail) : t.Follows tail := by
  rcases ht with hnone | hsome
  · intro q hq
    rw [hnone] at hq
    cases hq
  · refine (follows_endOfWord_iff hsome).2 fun c hc => ?_
    rcases head?_of_resumes h c hc with rfl | rfl | rfl <;> decide

/-! ### One operand -/

/-- Whether a text is one operand wherever it may stand in a rendered tree. -/
def IsOperand (x : List Char) : Prop :=
  ∀ offset tail, Resumes tail → ∃ offset', sharpTokens offset (x ++ tail) 0 =
    (⟨.operand, String.ofList x, offset⟩ :: ·) <$> sharpTokens offset' tail 1

/-- A text that a pattern takes in front of anything that may follow is one operand, if the patterns
before find nothing. -/
theorem isOperand_of_consume {n : Nat} {t : TokenPattern TokenKind} (hn : sharp[n]? = some t)
    (ht : t ∈ operands) {c : Char} {run : List Char} (hc : isBlank c = false)
    (hmiss : ∀ tail, Resumes tail → ∀ u ∈ sharp.take n,
      expressionGrammar.next? 0 u.kind = none ∨ u.Misses (c :: run ++ tail))
    (htake : ∀ tail, Resumes tail →
      t.pattern.consume (c :: run ++ tail) some = some tail) : IsOperand (c :: run) := by
  intro offset tail htail
  have hkind : ∀ t ∈ operands, t.kind = .operand := by decide
  have hfollow : ∀ t ∈ operands, t.follow = none ∨ t.follow = some Pattern.endOfWord := by decide
  rw [sharpTokens_piece hn offset c run (hmiss tail htail) hc (htake tail htail)
    (follows_of_resumes (hfollow t ht) htail) (by rw [hkind t ht]; rfl), hkind t ht]
  exact ⟨_, rfl⟩

/-- A pattern that starts with fixed characters finds nothing where one of them is wrong. -/
theorem misses_of_front {u : TokenPattern TokenKind} {text : List Char} {i : Nat} {set : CharSet}
    (hi : u.pattern.front[i]? = some set) (h : ∀ c ∈ text[i]?, set.contains c = false) :
    u.Misses text :=
  misses_of_consume (Pattern.consume_eq_none_of_front (Pattern.behind_eq_none hi h) some)

/-- Whether none of the first patterns of `sharp` can give an operand that starts with a character,
some others left aside. -/
def PassesBut (others : List (TokenPattern TokenKind)) (n : Nat) (c : Char) : Prop :=
  ∀ u ∈ sharp.take n, expressionGrammar.next? 0 u.kind = none ∨
    u.pattern.advances = true ∧ u.pattern.mayStart c = false ∨ u ∈ others

instance (others : List (TokenPattern TokenKind)) (n : Nat) (c : Char) :
    Decidable (PassesBut others n c) := by
  unfold PassesBut
  infer_instance

theorem PassesBut.misses {others : List (TokenPattern TokenKind)} {n : Nat} {c : Char}
    (h : PassesBut others n c) {text : List Char}
    (hothers : ∀ u ∈ others, u.Misses (c :: text)) :
    ∀ u ∈ sharp.take n, expressionGrammar.next? 0 u.kind = none ∨ u.Misses (c :: text) := by
  intro u hu
  rcases h u hu with hnext | ⟨hadv, hstart⟩ | hu
  · exact .inl hnext
  · exact .inr (misses_of_consume (Pattern.consume_eq_none_of_mayStart hadv hstart))
  · exact .inr (hothers u hu)

/-- A string in quotes is one operand. -/
theorem isOperand_quote (s : List Char) :
    IsOperand ('\x27' :: (Value.doubleQuotes s ++ ['\x27'])) := by
  have hpasses : Passes 8 0 '\x27' := by decide
  refine isOperand_of_consume (n := 8) rfl (by decide) rfl (fun tail _ => hpasses.misses _) ?_
  intro tail htail
  have hquote : tail.head? ≠ some '\x27' := by
    intro h
    have := head?_of_resumes htail _ h
    simp at this
  simpa using Operand.consume_string s hquote

/-- A date and time in quotes is one operand. -/
theorem isOperand_quotedDateTime {x : List Char} (h : Operand.quotedDateTime.Takes x []) :
    IsOperand x := by
  obtain ⟨word, body, rfl, hword, hbody⟩ := Operand.takes_quotedDateTime.1 h
  obtain ⟨c, run, hc, -, rfl⟩ := List.forall₂_cons_left_iff.1 hword
  have hpasses : isBlank c = false ∧ Passes 9 0 c :=
    CharSet.forall_folded (p := fun c => isBlank c = false ∧ Passes 9 0 c) rfl (by decide) hc
  refine isOperand_of_consume (n := 9) rfl (by decide) hpasses.1
    (fun tail _ => hpasses.2.misses _) fun tail _ => ?_
  simpa using Operand.consume_quotedDateTime hword hbody tail

/-- A list is one operand. -/
theorem isOperand_list {body : List Char} (hbody : ∀ c ∈ body, c ≠ ']') :
    IsOperand ('[' :: (body ++ [']'])) := by
  have hpasses : Passes 10 0 '[' := by decide
  refine isOperand_of_consume (n := 10) rfl (by decide) rfl (fun tail _ => hpasses.misses _) ?_
  intro tail _
  simpa using Operand.consume_list hbody tail

/-! ### Identifiers -/

/-- The name of no method starts with two hexadecimal digits. -/
theorem method_misses_hex {c d : Char} (hc : Operand.hexSet.contains c = true)
    (hd : Operand.hexSet.contains d = true) (text : List Char) : method.Misses (c :: d :: text) := by
  intro tail htake hf
  obtain ⟨name, hname, piece, blanks, more, htext, hpiece, -⟩ := method_found htake hf
  obtain ⟨hall, a, b, rest, hchars, hfirst⟩ := variants_methodNames name hname
  rw [hchars] at hpiece hall
  rw [List.map_cons, List.map_cons] at hpiece
  obtain ⟨x, _, hx, hsecond, rfl⟩ := List.forall₂_cons_left_iff.1 hpiece
  obtain ⟨y, _, hy, -, rfl⟩ := List.forall₂_cons_left_iff.1 hsecond
  rw [List.cons_append, List.cons_append, List.cons.injEq, List.cons.injEq] at htext
  obtain ⟨rfl, rfl, -⟩ := htext
  have hca := Pattern.contains_letterSet (hall a (by simp)).1 hx
  have hdb := Pattern.contains_letterSet (hall b (by simp)).1 hy
  have hguid : (⟨.operand, Operand.guid, some Pattern.endOfWord⟩ : TokenPattern TokenKind) ∈
      punctuation ++ [negation] ++ literals := by decide
  obtain ⟨-, hstart | ⟨-, hsecond⟩⟩ := (hfirst c hca).2 _ hguid
  · have hno : Operand.hexSet.contains c = false :=
      (Bool.or_eq_false_iff.1 (Bool.or_eq_false_iff.1 hstart).1).1
    rw [hno] at hc
    cases hc
  · have hno : Operand.hexSet.contains d = false := hsecond d hdb
    rw [hno] at hd
    cases hd

/-- A globally unique identifier is one operand. -/
theorem isOperand_guid {x : List Char} (h : Operand.guid.Takes x []) : IsOperand x := by
  have hspells := (Pattern.takes_iff_spells Operand.sets?_guid).1 h
  obtain ⟨c, _, hc, hsecond, rfl⟩ := List.forall₂_cons_left_iff.1 hspells
  obtain ⟨d, _, hd, hthird, rfl⟩ := List.forall₂_cons_left_iff.1 hsecond
  obtain ⟨e, run, he, -, rfl⟩ := List.forall₂_cons_left_iff.1 hthird
  have hblank : isBlank c = false :=
    CharSet.forall_folded (p := fun c => isBlank c = false) rfl (by decide) hc
  refine isOperand_of_consume (n := 11) rfl (by decide) hblank ?_ fun tail _ => ?_
  · intro tail htail
    have hpasses : PassesBut [method, ⟨.operand, Operand.quotedDateTime, none⟩] 11 c :=
      CharSet.forall_folded rfl (by decide) hc
    refine hpasses.misses (List.forall_mem_cons.2 ⟨method_misses_hex hc hd _,
      List.forall_mem_singleton.2 ?_⟩)
    have hthird : (CharSet.folded (.only 't')).contains e = false :=
      CharSet.forall_folded (p := fun e => (CharSet.folded (.only 't')).contains e = false) rfl
        (by decide) he
    have hfront : Operand.quotedDateTime.front[2]? = some (.folded (.only 't')) := rfl
    refine misses_of_front hfront ?_
    rintro _ ⟨⟩
    exact hthird
  · exact Pattern.consume_append_of_sets? Operand.sets?_guid h tail some

/-! ### Dates and numbers -/

/-- The pattern of identifiers with its guard. -/
def guidToken : TokenPattern TokenKind := ⟨.operand, Operand.guid, some .endOfWord⟩

/-- The pattern of dates and times with its guard. -/
def dateTimeToken : TokenPattern TokenKind := ⟨.operand, Operand.dateTime, some .endOfWord⟩

/-- The pattern of dates with its guard. -/
def dateToken : TokenPattern TokenKind := ⟨.operand, Operand.date, some .endOfWord⟩

/-- A text that starts with a date is no identifier. -/
theorem guid_misses_date {c : Char} {run : List Char} (hc : (c :: run)[4]? = some '-')
    (tail : List Char) : guidToken.Misses (c :: run ++ tail) := by
  have hfront : Operand.guid.front[4]? = some Operand.hexSet := rfl
  refine misses_of_front hfront fun d hd => ?_
  obtain ⟨hlt, -⟩ := List.getElem?_eq_some_iff.1 hc
  rw [List.getElem?_append_left hlt, hc] at hd
  cases hd
  decide

/-- A date is one operand. -/
theorem isOperand_date {x : List Char} (h : Operand.date.Takes x []) : IsOperand x := by
  have hspells := (Pattern.takes_iff_spells Operand.sets?_date).1 h
  have hlen : x.length = 10 := (List.Forall₂.length_eq hspells).symm
  obtain ⟨_, hhyphen, hset⟩ := hspells.getElem? (i := 4) rfl
  cases CharSet.contains_only_iff.1 hset
  obtain ⟨c, run, hc, -, rfl⟩ := List.forall₂_cons_left_iff.1 hspells
  have hpasses : isBlank c = false ∧ PassesBut [guidToken, dateTimeToken] 13 c :=
    CharSet.forall_folded (p := fun c => isBlank c = false ∧
      PassesBut [guidToken, dateTimeToken] 13 c) rfl (by decide) hc
  refine isOperand_of_consume (n := 13) rfl (by decide) hpasses.1 ?_ fun tail _ => ?_
  · intro tail htail
    refine hpasses.2.misses (List.forall_mem_cons.2 ⟨guid_misses_date hhyphen tail,
      List.forall_mem_singleton.2 ?_⟩)
    have hfront : Operand.dateTime.front[10]? =
        some (.folded (.unionAll [.only 'T', .only 't'])) := rfl
    refine misses_of_front hfront fun d hd => ?_
    have hhead : d ∈ tail.head? := by
      have hd : d ∈ (c :: run ++ tail)[10]? := hd
      rw [List.getElem?_append_right (by omega), hlen] at hd
      rwa [List.head?_eq_getElem?]
    rcases head?_of_resumes htail d hhead with rfl | rfl | rfl <;> decide
  · exact Pattern.consume_append_of_sets? Operand.sets?_date h tail some

/-- A date and time is one operand. -/
theorem isOperand_dateTime {x : List Char} (h : Operand.dateTime.Takes x []) : IsOperand x := by
  obtain ⟨front, s, heq, hspells, -⟩ := Operand.takes_dateTime.1 h
  rw [List.append_nil] at heq
  obtain ⟨_, hhyphen, hset⟩ := hspells.getElem? (i := 4) rfl
  cases CharSet.contains_only_iff.1 hset
  obtain ⟨c, run, hc, -, rfl⟩ := List.forall₂_cons_left_iff.1 hspells
  subst heq
  have hpasses : isBlank c = false ∧ PassesBut [guidToken] 12 c :=
    CharSet.forall_folded (p := fun c => isBlank c = false ∧ PassesBut [guidToken] 12 c) rfl
      (by decide) hc
  refine isOperand_of_consume (n := 12) rfl (by decide) hpasses.1 ?_ fun tail htail => ?_
  · intro tail htail
    refine hpasses.2.misses (List.forall_mem_singleton.2 ?_)
    have hmiss := guid_misses_date hhyphen (s ++ tail)
    rwa [List.cons_append, ← List.append_assoc] at hmiss
  · refine Operand.consume_dateTime h fun d hd => ?_
    rcases head?_of_resumes htail d hd with rfl | rfl | rfl <;> decide

/-- Whether the fixed characters of a pattern are none of those that may follow an operand. -/
def Inside (u : TokenPattern TokenKind) : Prop :=
  ∀ set ∈ u.pattern.front, set.contains ')' = false ∧ set.contains ',' = false ∧
    set.contains ' ' = false

instance (u : TokenPattern TokenKind) : Decidable (Inside u) := by
  unfold Inside
  infer_instance

/-- What follows an operand does not help a pattern whose fixed characters the operand lacks. -/
theorem Inside.misses {u : TokenPattern TokenKind} (hu : Inside u) {x : List Char}
    (hx : (Pattern.behind u.pattern.front x).isSome = true → False) {tail : List Char}
    (htail : Resumes tail) : u.Misses (x ++ tail) := by
  have hhead : ∀ c ∈ tail.head?, ∀ set ∈ u.pattern.front, set.contains c = false := by
    intro c hc set hset
    rcases head?_of_resumes htail c hc with rfl | rfl | rfl
    · exact (hu set hset).1
    · exact (hu set hset).2.1
    · exact (hu set hset).2.2
  have hnone : Pattern.behind u.pattern.front x = none := by
    cases hb : Pattern.behind u.pattern.front x with
    | none => rfl
    | some rest => exact (hx (by rw [hb]; rfl)).elim
  refine misses_of_consume (Pattern.consume_eq_none_of_front ?_ some)
  rw [Pattern.behind_append_of_head? hhead, hnone]
  rfl

/-- A number has no two hyphens behind its first character, as identifiers and dates have. -/
theorem misses_number {u : TokenPattern TokenKind} (hu : Inside u) {i j : Nat}
    (hi : u.pattern.front[i]? = some (.only '-')) (hj : u.pattern.front[j]? = some (.only '-'))
    (hpos : 0 < i) (hij : i < j) {x : List Char}
    (hx : Numeral.IsNumeral Operand.exponentMarks Operand.widthMarks x) {tail : List Char}
    (htail : Resumes tail) : u.Misses (x ++ tail) := by
  refine hu.misses (fun hsome => ?_) htail
  obtain ⟨_, hxi, hset⟩ := Pattern.getElem?_of_behind hsome hi
  cases CharSet.contains_only_iff.1 hset
  obtain ⟨_, hxj, hset⟩ := Pattern.getElem?_of_behind hsome hj
  cases CharSet.contains_only_iff.1 hset
  exact hx.hyphen_unique (by decide) (by decide) hpos hij hxi hxj

/-- A number is one operand. -/
theorem isOperand_number {x : List Char} (h : Operand.number.Takes x []) : IsOperand x := by
  obtain ⟨y, heq, hx⟩ := Operand.takes_number.1 h
  rw [List.append_nil] at heq
  subst heq
  obtain ⟨c, run, rfl, hc⟩ := hx.exists_cons
  have hpasses : isBlank c = false ∧ PassesBut [guidToken, dateTimeToken, dateToken] 14 c := by
    refine forall_ascii (p := fun c => Numeral.startSet.contains c = true → isBlank c = false ∧
      PassesBut [guidToken, dateTimeToken, dateToken] 14 c) ?_
        (CharSet.toNat_lt_of_isAscii rfl hc) hc
    decide
  refine isOperand_of_consume (n := 14) rfl (by decide) hpasses.1 ?_ fun tail htail => ?_
  · intro tail htail
    refine hpasses.2.misses (List.forall_mem_cons.2 ⟨?_, List.forall_mem_cons.2 ⟨?_,
      List.forall_mem_singleton.2 ?_⟩⟩)
    · exact misses_number (i := 8) (j := 13) (by decide) rfl rfl (by decide) (by decide) hx htail
    · exact misses_number (i := 4) (j := 7) (by decide) rfl rfl (by decide) (by decide) hx htail
    · exact misses_number (i := 4) (j := 7) (by decide) rfl rfl (by decide) (by decide) hx htail
  · refine Operand.consume_number h fun d hd => ?_
    rcases head?_of_resumes htail d hd with rfl | rfl | rfl <;> decide

/-! ### Paths -/

/-- Whether a text starts with the word `null`. -/
def StartsWithNull (x : List Char) : Prop :=
  (x.take 4).map asciiLower = "null".toList ∧ ∀ c ∈ x[4]?, isWord c = false

/-- The pattern of `null` with its guard. -/
def nullToken : TokenPattern TokenKind := ⟨.null, .spelled "null", some .endOfWord⟩

/-- The sets of the word `null`. -/
def nullSets : List CharSet := "null".toList.map Pattern.letterSet

theorem map_asciiLower_of_spells {x : List Char} (h : Pattern.Spells nullSets x) :
    x.map asciiLower = "null".toList := by
  have table : ∀ l ∈ "null".toList, l.toNat < 128 ∧ ∀ v ∈ caseVariants l,
      asciiLower v = asciiLower l := by decide
  refine h.map_eq_map fun l hl c _ hc => ?_
  obtain ⟨hascii, hlower⟩ := table l hl
  exact hlower c (Pattern.contains_letterSet hascii hc)

/-- The word `null` is found only in front of a character that does not belong to a word. -/
theorem null_misses {x : List Char} (hx : ¬ StartsWithNull x) {tail : List Char}
    (htail : Resumes tail) : nullToken.Misses (x ++ tail) := by
  intro rest htake hf
  rw [nullToken, Pattern.consume_of_sets? (Pattern.sets?_spelled "null")] at htake
  obtain ⟨_, hbehind, hrest⟩ := Option.bind_eq_some_iff.1 htake
  cases hrest
  have hhead : ∀ c ∈ tail.head?, ∀ set ∈ nullSets, set.contains c = false := by
    intro c hc
    rcases head?_of_resumes htail c hc with rfl | rfl | rfl <;> decide
  change Pattern.behind nullSets (x ++ tail) = some rest at hbehind
  rw [Pattern.behind_append_of_head? hhead] at hbehind
  obtain ⟨more, hmore, rfl⟩ := Option.map_eq_some_iff.1 hbehind
  obtain ⟨front, rfl, hfront⟩ := Pattern.behind_eq_some_iff.1 hmore
  have hlen : front.length = 4 := (List.Forall₂.length_eq hfront).symm
  refine hx ⟨?_, fun c hc => ?_⟩
  · rw [← hlen, List.take_left]
    exact map_asciiLower_of_spells hfront
  · rw [List.getElem?_append_right (by omega), hlen] at hc
    rw [← List.head?_eq_getElem?] at hc
    obtain ⟨more, rfl⟩ := List.head?_eq_some_iff.1 hc
    exact (follows_endOfWord_iff rfl).1 hf c rfl

theorem pathChar_of_pathStart {c : Char} (h : Operand.pathStart.contains c = true) :
    Operand.pathChar.contains c = true :=
  CharSet.forall_folded (p := fun c => Operand.pathChar.contains c = true) rfl (by decide) h

/-- The characters of a path. -/
theorem mem_path {x : List Char} (h : Operand.path.Takes x []) :
    ∀ c ∈ x, Operand.pathChar.contains c = true ∨ Operand.pathSeparator.contains c = true := by
  obtain ⟨front, rfl, hfront⟩ := h.mayTake
  rw [List.append_nil]
  intro c hc
  have htake := hfront c hc
  simp only [Operand.path, Operand.segments, Pattern.seqAll, Pattern.mayTake, Bool.or_eq_true] at htake
  rcases htake with hstart | hchar | hsep | hchar
  · exact .inl (pathChar_of_pathStart hstart)
  · exact .inl hchar
  · exact .inr hsep
  · exact .inl hchar

/-- The name of a method in a path is not called, since no bracket follows. -/
theorem method_misses_path {x : List Char} (h : Operand.path.Takes x []) {tail : List Char}
    (htail : Resumes tail) : method.Misses (x ++ tail) := by
  intro rest htake hf
  obtain ⟨name, hname, piece, blanks, more, htext, hpiece, rfl, hblanks⟩ := method_found htake hf
  obtain ⟨⟨c, run, rfl, hc, hrun⟩, -⟩ := spells_method hname hpiece []
  rcases List.append_eq_append_iff.1 htext with ⟨later, hx, htail'⟩ | ⟨later, hx, hrest⟩
  · rcases later with _ | ⟨d, later⟩
    · exact not_call_of_resumes (by simpa [htail'] using htail) hblanks
    · have hd : Operand.pathChar.contains d = true := by
        have hmem : d ∈ c :: run := by simp [hx]
        rcases List.mem_cons.1 hmem with rfl | hmem
        · exact pathChar_of_pathStart hc
        · exact hrun d hmem
      rw [htail'] at htail
      rcases head?_of_resumes htail d rfl with rfl | rfl | rfl <;> exact absurd hd (by decide)
  · rcases later with _ | ⟨d, later⟩
    · have hcall : Resumes (blanks ++ '(' :: more) := by
        rw [hrest]
        exact htail
      exact not_call_of_resumes hcall hblanks
    · have hd := mem_path h d (by simp [hx])
      have hout : Operand.pathChar.contains d = false ∧ Operand.pathSeparator.contains d = false := by
        rcases blanks with _ | ⟨b, blanks⟩
        · obtain ⟨rfl, -⟩ := List.cons.inj hrest
          decide
        · obtain ⟨rfl, -⟩ := List.cons.inj hrest
          exact endsPath_of_isBlank (hblanks b List.mem_cons_self) [] b rfl
      rw [hout.1, hout.2] at hd
      simp at hd

/-- A path has no quote and no hyphen. -/
theorem misses_path {u : TokenPattern TokenKind} (hu : Inside u) {i : Nat} {d : Char}
    (hi : u.pattern.front[i]? = some (.only d))
    (hd : Operand.pathChar.contains d = false ∧ Operand.pathSeparator.contains d = false)
    {x : List Char} (h : Operand.path.Takes x []) {tail : List Char} (htail : Resumes tail) :
    u.Misses (x ++ tail) := by
  refine hu.misses (fun hsome => ?_) htail
  obtain ⟨_, hxi, hset⟩ := Pattern.getElem?_of_behind hsome hi
  cases CharSet.contains_only_iff.1 hset
  have hmem := mem_path h d (List.mem_of_getElem? hxi)
  rw [hd.1, hd.2] at hmem
  simp at hmem

/-- A path is one operand unless it starts with the word `null`. -/
theorem isOperand_path {x : List Char} (h : Operand.path.Takes x []) (hnull : ¬ StartsWithNull x) :
    IsOperand x := by
  obtain ⟨c, run, segments, heq, hc, hrun, hsegments⟩ := Operand.takes_path.1 h
  rw [List.append_nil] at heq
  subst heq
  have hpasses : isBlank c = false ∧
      PassesBut [nullToken, method, ⟨.operand, Operand.quotedDateTime, none⟩, guidToken] 15 c :=
    CharSet.forall_folded (p := fun c => isBlank c = false ∧
      PassesBut [nullToken, method, ⟨.operand, Operand.quotedDateTime, none⟩, guidToken] 15 c) rfl
        (by decide) hc
  refine isOperand_of_consume (n := 15) rfl (by decide) hpasses.1 ?_ fun tail htail => ?_
  · intro tail htail
    refine hpasses.2.misses (List.forall_mem_cons.2 ⟨null_misses hnull htail,
      List.forall_mem_cons.2 ⟨method_misses_path h htail, List.forall_mem_cons.2 ⟨?_,
        List.forall_mem_singleton.2 ?_⟩⟩⟩)
    · exact misses_path (i := 8) (d := '\x27') (by decide) rfl (by decide) h htail
    · exact misses_path (i := 8) (d := '-') (by decide) rfl (by decide) h htail
  · have hends : Operand.EndsPath tail := by
      intro d hd
      rcases head?_of_resumes htail d hd with rfl | rfl | rfl <;> decide
    have hpath := Operand.consume_path hc hrun hsegments hends
    rw [List.cons_append, List.append_assoc]
    exact hpath

end Criteria

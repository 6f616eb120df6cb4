import Criteria.Grammar.Description
import Criteria.Proofs.Scanning
import Criteria.Proofs.Text.Pieces

/-!
# The elements of a description

A description is scanned from a state of its grammar to the end, or up to a place where no element
stands that may come next, and consists of parts: the names and patterns without the signs around
them (`Reads`). There is one lemma for each element, which says what has to stand behind it for the
element to end where it should: behind the name of a category or a target no character that might
belong to it, and behind a pattern the end of the line. At the start of a line the name of a category
that may also be that of a state is taken for one if a colon stands right behind it.
-/

namespace Criteria.Description

/-- What an element of a description says. -/
inductive Part where
  | state (name : String)
  | category (name : String)
  | target (name : String)
  | pattern (source : String)
  deriving DecidableEq, Repr

namespace Element

/-- What a text says as an element; a bar and a line break say nothing. -/
def part? : Element → List Char → Option Part
  | state, text => some (.state (String.ofList (Text.dropEndWhile (· == ':') text)))
  | category, text => some (.category (String.ofList text))
  | target, text => some (.target (String.ofList (text.drop 1)))
  | pattern, text => some (.pattern (String.ofList (Text.trimEnd (text.drop 1))))
  | bar, _ | lineBreak, _ => none

/-- The pattern of an element, right where it starts. -/
def shape : Element → Pattern
  | state => .seqAll [.one lower, .star true (.one lowerOrDigit), .char ':']
  | category => .plus true (.one upperOrDigit)
  | bar => .char '|'
  | target => .seqAll [.char ':', .plus true (.one lowerOrDigit)]
  | pattern => .seqAll [.char '=', .plus true (.one .notLineFeed)]
  | lineBreak => .char '\n'

/-- The elements that are tried before another. -/
def earlier (e : Element) : List Element :=
  [state, category, bar, target, pattern, lineBreak].takeWhile (· ≠ e)

/-- The definition of an element, right where it starts. -/
def tokenPattern (e : Element) : TokenPattern Element := ⟨e, e.shape, none⟩

theorem plain_tokenPattern (e : Element) : e.tokenPattern.plain = true := by cases e <;> rfl

theorem advances_shape (e : Element) : e.shape.advances = true := by cases e <;> rfl

theorem exists_definitions (e : Element) : ∃ later : List Element, elements.definitions =
    (e.earlier.map tokenPattern ++ e.tokenPattern :: later.map tokenPattern).map
      TokenPattern.definition := by
  cases e
  · exact ⟨[category, bar, target, pattern, lineBreak], rfl⟩
  · exact ⟨[bar, target, pattern, lineBreak], rfl⟩
  · exact ⟨[target, pattern, lineBreak], rfl⟩
  · exact ⟨[pattern, lineBreak], rfl⟩
  · exact ⟨[lineBreak], rfl⟩
  · exact ⟨[], rfl⟩

theorem exists_tokenPattern {before after : List Element} {e : Element} {t : TokenPattern Element}
    (h : t ∈ before.map tokenPattern ++ e.tokenPattern :: after.map tokenPattern) :
    ∃ e' : Element, e'.tokenPattern = t := by
  rw [← List.map_cons, ← List.map_append] at h
  exact (List.mem_map.1 h).imp fun _ => And.right

end Element

/-- The parts of a description. -/
def partsOf (ts : List (Token Element)) : List Part :=
  ts.filterMap fun t => t.kind.part? t.text.toList

/-! ### Gaps -/

/-- The white space that may stand between elements. -/
def Gap (text : List Char) : Prop := ∀ c ∈ text, c ∈ [' ', '\t', '\r']

/-- The set of the white space between elements. -/
def gapSet : CharSet := .unionAll [.only ' ', .only '\t', .only '\r']

theorem contains_gapSet {c : Char} : gapSet.contains c = true ↔ c ∈ [' ', '\t', '\r'] := by
  simp only [gapSet, CharSet.unionAll, CharSet.contains_union, CharSet.contains_only,
    Bool.or_eq_true, beq_iff_eq, List.mem_cons, List.not_mem_nil, or_false, @eq_comm _ c]

theorem forall_head?_gap_append {gap rest : List Char} {P : Char → Prop} (hgap : Gap gap)
    (hblank : ∀ c ∈ [' ', '\t', '\r'], P c) (hrest : ∀ c ∈ rest.head?, P c) :
    ∀ c ∈ (gap ++ rest).head?, P c := by
  rcases gap with _ | ⟨d, gap⟩
  · exact hrest
  · rintro _ ⟨⟩
    exact hblank d (hgap d List.mem_cons_self)

/-- Behind a gap, a scan goes on at the next character. -/
theorem gap_append {gap rest : List Char} (hgap : Gap gap)
    (hrest : ∀ c ∈ rest.head?, c ∉ [' ', '\t', '\r']) :
    elements.gap (gap ++ rest) = gap.length := by
  have hstop : rest.takeWhile gapSet.contains = [] := by
    rcases rest with _ | ⟨c, rest⟩
    · rfl
    · exact List.takeWhile_cons_of_neg (mt contains_gapSet.1 (hrest c rfl))
  have hboundary : elements.boundary = (Pattern.plus true (.one gapSet)).atStart := rfl
  rw [Scanner.gap_of_boundary hboundary,
    List.takeWhile_append_of_pos fun c hc => contains_gapSet.2 (hgap c hc), hstop, List.append_nil]

/-! ### What is read from a state -/

/-- Whether a text is scanned from a state of the grammar of lines into certain parts, and whether the
scan stops before the end of the text. -/
def Reads (stopped : Bool) (q : Nat) (text : List Char) (parts : List Part) : Prop :=
  ∀ offset, ∃ ts stop q', elements.scanFrom (fun state kind _ => lineGrammar.advance state kind)
    offset text q = ⟨ts, stop, q'⟩ ∧ stop.isSome = stopped ∧ partsOf ts = parts

/-- There may be no gap. -/
theorem gap_nil : Gap [] := nofun

variable {stopped : Bool} {q q' : Nat} {gap rest : List Char} {parts : List Part}

/-- A gap has no parts. -/
theorem reads_gap (q : Nat) (h : Gap gap) : Reads false q gap [] := by
  intro offset
  have hall : elements.gap (gap ++ []) = gap.length := gap_append h nofun
  rw [List.append_nil] at hall
  refine ⟨[], none, q, ?_, rfl, rfl⟩
  rw [Scanner.scanFrom]
  simp [hall]

/-- Behind a gap, no element both stands there and may come next. -/
theorem reads_stuck {c : Char} (hgap : Gap gap) (hc : c ∉ [' ', '\t', '\r'])
    (h : ∀ e : Element, lineGrammar.next? q e = none ∨ e.shape.consume (c :: rest) some = none) :
    Reads true q (gap ++ c :: rest) [] := by
  intro offset
  have hsize : elements.gap (gap ++ c :: rest) = gap.length := gap_append hgap (by simpa using hc)
  have hpick : Scanner.pick? lineGrammar elements.definitions (c :: rest) q = none := by
    obtain ⟨later, hdefinitions⟩ := Element.exists_definitions .state
    rw [hdefinitions]
    refine Scanner.pick?_eq_none (fun u hu => ?_) fun u hu => ?_
    all_goals obtain ⟨e, rfl⟩ := Element.exists_tokenPattern hu
    · exact e.plain_tokenPattern
    · exact (h e).imp_right TokenPattern.misses_of_consume
  refine ⟨[], some ⟨offset + Text.byteLength gap, String.ofList (c :: rest)⟩, q, ?_, rfl, rfl⟩
  rw [Scanner.scanFrom]
  simp [hsize, Scanner.choose_eq_pick?, hpick]

/-- The first element behind a gap is a part of its own, if no element that is tried before it both
may come next and stands there. -/
theorem Reads.piece (e : Element) {c : Char} {run : List Char} (hgap : Gap gap)
    (hc : c ∉ [' ', '\t', '\r'])
    (hearlier : ∀ u ∈ e.earlier, lineGrammar.next? q u = none ∨
      u.shape.consume (c :: run ++ rest) some = none)
    (he : e.shape.consume (c :: run ++ rest) some = some rest)
    (hnext : lineGrammar.next? q e = some q') (h : Reads stopped q' rest parts) :
    Reads stopped q (gap ++ (c :: run ++ rest)) ((e.part? (c :: run)).toList ++ parts) := by
  intro offset
  have hsize : elements.gap (gap ++ (c :: run ++ rest)) = gap.length :=
    gap_append hgap (by simpa using hc)
  have hdrop : (gap ++ (c :: run ++ rest)).drop (elements.gap (gap ++ (c :: run ++ rest))) =
      c :: run ++ rest := by
    rw [hsize, List.drop_left]
  have hpick : Scanner.pick? lineGrammar elements.definitions (c :: run ++ rest) q =
      some (⟨e, (c :: run).length, Nat.succ_pos _⟩, q') := by
    obtain ⟨later, hdefinitions⟩ := e.exists_definitions
    rw [hdefinitions]
    refine Scanner.pick?_eq_some ?_ ?_ (List.cons_ne_nil c run) he nofun hnext
    · intro u hu
      obtain ⟨e', rfl⟩ := Element.exists_tokenPattern hu
      exact e'.plain_tokenPattern
    · intro u hu
      obtain ⟨e', he', rfl⟩ := List.mem_map.1 hu
      exact (hearlier e' he').imp_right TokenPattern.misses_of_consume
  obtain ⟨ts, stop, q'', hscan, hstop, hparts⟩ :=
    h (offset + Text.byteLength gap + Text.byteLength (c :: run))
  refine ⟨⟨e, String.ofList (c :: run), offset + Text.byteLength gap⟩ :: ts, stop, q'', ?_, hstop, ?_⟩
  · rw [Scanner.scanFrom_pick hdrop (by simp) hpick, hsize]
    simp only [Candidate.text, List.take_left, List.drop_left, hscan]
    rfl
  · rw [partsOf] at hparts ⊢
    rw [List.filterMap_cons, hparts]
    simp only [String.toList_ofList]
    cases e.part? (c :: run) <;> rfl

/-- An element that cannot start with a character does not stand there. -/
theorem Element.consume_eq_none {e : Element} {c : Char} (h : e.shape.mayStart c = false)
    (text : List Char) : e.shape.consume (c :: text) some = none :=
  Pattern.consume_eq_none_of_mayStart e.advances_shape h

/-! ### Names -/

/-- Whether a character is a small letter or the underscore. -/
def IsSmall (c : Char) : Prop := 'a' ≤ c ∧ c ≤ 'z' ∨ c = '_'

/-- Whether a character may stand in the name of a state. -/
def InStateName (c : Char) : Prop := '0' ≤ c ∧ c ≤ '9' ∨ IsSmall c

/-- Whether a character may stand in the name of a category. -/
def InCategoryName (c : Char) : Prop := '0' ≤ c ∧ c ≤ '9' ∨ 'A' ≤ c ∧ c ≤ 'Z' ∨ c = '_'

instance : DecidablePred IsSmall := fun _ => inferInstanceAs (Decidable (_ ∨ _))

instance : DecidablePred InStateName := fun _ => inferInstanceAs (Decidable (_ ∨ _))

instance : DecidablePred InCategoryName := fun _ => inferInstanceAs (Decidable (_ ∨ _))

theorem contains_lower {c : Char} : lower.contains c = true ↔ IsSmall c := by
  simp [lower, IsSmall, CharSet.unionAll, CharSet.contains, @eq_comm _ c]

theorem contains_lowerOrDigit {c : Char} : lowerOrDigit.contains c = true ↔ InStateName c := by
  simp [lowerOrDigit, InStateName, IsSmall, CharSet.unionAll, CharSet.contains, @eq_comm _ c]

theorem contains_upperOrDigit {c : Char} : upperOrDigit.contains c = true ↔ InCategoryName c := by
  simp [upperOrDigit, InCategoryName, CharSet.unionAll, CharSet.contains, @eq_comm _ c]

theorem not_inStateName :
    ∀ c ∈ [' ', '\t', '\r', ':', '|', '=', '\n'], ¬ InStateName c := by decide

theorem not_inCategoryName :
    ∀ c ∈ [' ', '\t', '\r', ':', '|', '=', '\n'], ¬ InCategoryName c := by decide

/-- Whether a text may be the name of a state. -/
def IsStateName : List Char → Prop
  | [] => False
  | c :: run => IsSmall c ∧ ∀ d ∈ run, InStateName d

/-- Whether a text may be the name of a category. -/
def IsCategoryName (name : List Char) : Prop := name ≠ [] ∧ ∀ c ∈ name, InCategoryName c

instance : DecidablePred IsStateName
  | [] => inferInstanceAs (Decidable False)
  | _ :: run => @instDecidableAnd _ _ _ (List.decidableBAll _ run)

instance : DecidablePred IsCategoryName := fun name =>
  @instDecidableAnd _ _ _ (List.decidableBAll _ name)

theorem IsStateName.ne_nil {name : List Char} (h : IsStateName name) : name ≠ [] := by
  rintro rfl
  exact h

theorem IsStateName.forall_mem {name : List Char} (h : IsStateName name) :
    ∀ c ∈ name, InStateName c := by
  rcases name with _ | ⟨c, run⟩
  · exact nofun
  · exact List.forall_mem_cons.2 ⟨.inr h.1, h.2⟩

/-- A text without a character stands in front of the first one in any text that starts with it. -/
theorem initial_of_append_cons {a b front tail : List Char} {d : Char}
    (h : a ++ b = front ++ d :: tail) (hd : d ∉ a) : a <+: front := by
  rcases List.append_eq_append_iff.1 h with ⟨mid, rfl, -⟩ | ⟨mid, rfl, hmid⟩
  · exact List.prefix_append a mid
  · rcases mid with _ | ⟨d', mid⟩
    · simp
    · cases hmid
      exact absurd (by simp) hd

/-! ### One element after the other -/

variable {name : List Char}

theorem reads_state (hgap : Gap gap) (hname : IsStateName name) (h : Reads stopped 0 rest parts) :
    Reads stopped 0 (gap ++ (name ++ ':' :: rest)) (.state (String.ofList name) :: parts) := by
  have hpart : Element.state.part? (name ++ [':']) = some (.state (String.ofList name)) := by
    rw [Element.part?, Text.dropEndWhile_append (by simp), Text.dropEndWhile_eq_self]
    intro d hd
    have hin := hname.forall_mem d (List.mem_of_getLast? hd)
    simpa using fun hcolon : d = ':' => not_inStateName d (by simp [hcolon]) hin
  obtain ⟨c, run, rfl⟩ := List.exists_cons_of_ne_nil hname.ne_nil
  obtain ⟨hfirst, hchars⟩ := hname
  have hc : c ∉ [' ', '\t', '\r'] := fun hmem =>
    not_inStateName c (List.mem_append_left [':', '|', '=', '\n'] hmem) (.inr hfirst)
  have hconsume : Element.state.shape.consume (c :: (run ++ [':']) ++ rest) some = some rest := by
    have hrun : ∀ d ∈ run, lowerOrDigit.contains d = true := fun d hd =>
      contains_lowerOrDigit.2 (hchars d hd)
    have hcolon : ∀ d ∈ (':' :: rest).head?, lowerOrDigit.contains d = false := by
      rintro _ ⟨⟩
      rfl
    have hrest := Pattern.consume_star_run hrun hcolon
      (k := fun text => (Pattern.char ':').consume text some) (a := rest) rfl
    simpa [Element.shape, Pattern.seqAll, contains_lower.2 hfirst] using hrest
  have hnext : lineGrammar.next? 0 Element.state = some 0 := rfl
  have hpiece := Reads.piece .state hgap hc nofun hconsume hnext h
  simpa [show Element.state.part? (c :: (run ++ [':'])) = _ from hpart] using hpiece

/-- A name is not taken for that of a state if it cannot be one, or if no colon stands right behind
it. -/
theorem consume_state_eq_none (hname : ':' ∉ name) (hrest : ∀ d ∈ rest.head?, ¬ InStateName d)
    (h : IsStateName name → ':' ∉ rest.head?) :
    Element.state.shape.consume (name ++ rest) some = none := by
  cases hconsume : Element.state.shape.consume (name ++ rest) some with
  | none => rfl
  | some tail =>
    obtain ⟨left, htakes, -⟩ := Pattern.exists_takes_of_consume hconsume
    simp only [Element.shape, Pattern.seqAll, Pattern.char, Pattern.takes_seq, Pattern.takes_one,
      Pattern.takes_star_one] at htakes
    obtain ⟨_, ⟨c, hc, htext⟩, _, ⟨run, rfl, hrun⟩, colon, hcolon, rfl⟩ := htakes
    obtain rfl : ':' = colon := by simpa using hcolon
    have hstate : IsStateName (c :: run) :=
      ⟨contains_lower.1 hc, fun d hd => contains_lowerOrDigit.1 (hrun d hd)⟩
    -- the colon stands behind the name, so the name of the state is longer or the same
    rw [← List.cons_append] at htext
    obtain ⟨more, hmore⟩ := initial_of_append_cons htext hname
    rw [← hmore, List.append_assoc, List.append_cancel_left_eq] at htext
    rcases more with _ | ⟨d, more⟩
    · rw [List.append_nil] at hmore
      exact absurd (by rw [htext]; rfl) (h (hmore ▸ hstate))
    · refine absurd (hstate.forall_mem d ?_) (hrest d (by rw [htext]; rfl))
      rw [← hmore]
      simp

theorem reads_category (hq : q ∈ [0, 2]) (hgap : Gap gap) (hname : IsCategoryName name)
    (hrest : ∀ d ∈ rest.head?, ¬ InCategoryName d)
    (hstate : q = 0 → Element.state.shape.consume (name ++ rest) some = none)
    (h : Reads stopped 1 rest parts) :
    Reads stopped q (gap ++ (name ++ rest)) (.category (String.ofList name) :: parts) := by
  have hnext : lineGrammar.next? q Element.category = some 1 := by
    rcases List.mem_pair.1 hq with rfl | rfl <;> rfl
  have hconsume : Element.category.shape.consume (name ++ rest) some = some rest :=
    Pattern.consume_plus_run hname.1 (fun d hd => contains_upperOrDigit.2 (hname.2 d hd))
      (fun d hd => Bool.eq_false_iff.2 (mt contains_upperOrDigit.1 (hrest d hd))) rfl
  have hearlier : ∀ u ∈ Element.category.earlier, lineGrammar.next? q u = none ∨
      u.shape.consume (name ++ rest) some = none := by
    intro u hu
    obtain rfl : u = .state := by simpa [Element.earlier] using hu
    rcases List.mem_pair.1 hq with rfl | rfl
    · exact .inr (hstate rfl)
    · exact .inl rfl
  obtain ⟨c, run, rfl⟩ := List.exists_cons_of_ne_nil hname.1
  have hc : c ∉ [' ', '\t', '\r'] := fun hmem => not_inCategoryName c
    (List.mem_append_left [':', '|', '=', '\n'] hmem) (hname.2 c List.mem_cons_self)
  exact Reads.piece .category hgap hc hearlier hconsume hnext h

theorem reads_bar (hgap : Gap gap) (h : Reads stopped 2 rest parts) :
    Reads stopped 1 (gap ++ '|' :: rest) parts := by
  have hnext : lineGrammar.next? 1 Element.bar = some 2 := rfl
  have hearlier : ∀ u ∈ Element.bar.earlier, lineGrammar.next? 1 u = none := by decide
  have hconsume : Element.bar.shape.consume ('|' :: [] ++ rest) some = some rest := rfl
  exact Reads.piece .bar hgap (by decide) (fun u hu => .inl (hearlier u hu)) hconsume hnext h

theorem reads_target (hgap : Gap gap) (hname : IsStateName name)
    (hrest : ∀ d ∈ rest.head?, ¬ InStateName d) (h : Reads stopped 3 rest parts) :
    Reads stopped 1 (gap ++ (':' :: name ++ rest)) (.target (String.ofList name) :: parts) := by
  have hnext : lineGrammar.next? 1 Element.target = some 3 := rfl
  have hearlier : ∀ u ∈ Element.target.earlier, lineGrammar.next? 1 u = none ∨
      u.shape.mayStart ':' = false := by decide
  have hconsume : Element.target.shape.consume (':' :: name ++ rest) some = some rest :=
    Pattern.consume_plus_run hname.ne_nil
      (fun d hd => contains_lowerOrDigit.2 (hname.forall_mem d hd))
      (fun d hd => Bool.eq_false_iff.2 (mt contains_lowerOrDigit.1 (hrest d hd))) rfl
  exact Reads.piece .target hgap (by decide)
    (fun u hu => (hearlier u hu).imp_right fun h => Element.consume_eq_none h _) hconsume hnext h

/-- A pattern ends with the line; the gap behind it is no part of it. -/
theorem reads_pattern (hgap : Gap gap) {source blanks : List Char} (hne : source ≠ [])
    (hsource : '\n' ∉ source) (hlast : Text.isBlank (source.getLast hne) = false)
    (hblanks : Gap blanks) (hrest : ∀ d ∈ rest.head?, d = '\n') (h : Reads stopped 3 rest parts) :
    Reads stopped 1 (gap ++ ('=' :: (source ++ blanks) ++ rest))
      (.pattern (String.ofList source) :: parts) := by
  have hnext : lineGrammar.next? 1 Element.pattern = some 3 := rfl
  have hearlier : ∀ u ∈ Element.pattern.earlier, lineGrammar.next? 1 u = none ∨
      u.shape.mayStart '=' = false := by decide
  have hline : ∀ d ∈ source ++ blanks, CharSet.notLineFeed.contains d = true := by
    have hbreak : '\n' ∉ source ++ blanks := by
      rw [List.mem_append]
      rintro (hmem | hmem)
      · exact hsource hmem
      · exact absurd (hblanks _ hmem) (by decide)
    intro d hd
    simpa [CharSet.notLineFeed] using fun heq : '\n' = d => hbreak (heq ▸ hd)
  have hconsume : Element.pattern.shape.consume ('=' :: (source ++ blanks) ++ rest) some =
      some rest := by
    refine Pattern.consume_plus_run (by simp [hne]) hline (fun d hd => ?_) rfl
    rw [hrest d hd]
    rfl
  have hpart : Element.pattern.part? ('=' :: (source ++ blanks)) =
      some (.pattern (String.ofList source)) := by
    have hblank : ∀ d ∈ [' ', '\t', '\r'], Text.isBlank d = true := by decide
    rw [Element.part?, List.drop_succ_cons, List.drop_zero, Text.trimEnd,
      Text.dropEndWhile_append fun d hd => hblank d (hblanks d hd), Text.dropEndWhile_eq_self]
    rw [List.getLast?_eq_some_getLast hne]
    rintro _ ⟨⟩
    exact hlast
  have hpiece := Reads.piece .pattern hgap (by decide)
    (fun u hu => (hearlier u hu).imp_right fun h => Element.consume_eq_none h _) hconsume hnext h
  rwa [hpart] at hpiece

theorem reads_lineBreak (hq : q ∈ [0, 3]) (hgap : Gap gap) (h : Reads stopped 0 rest parts) :
    Reads stopped q (gap ++ '\n' :: rest) parts := by
  have hnext : lineGrammar.next? q Element.lineBreak = some 0 := by
    revert q
    decide
  have hearlier : ∀ u ∈ Element.lineBreak.earlier, lineGrammar.next? q u = none ∨
      u.shape.mayStart '\n' = false := by
    revert q
    decide
  have hconsume : Element.lineBreak.shape.consume ('\n' :: [] ++ rest) some = some rest := rfl
  exact Reads.piece .lineBreak hgap (by decide)
    (fun u hu => (hearlier u hu).imp_right fun h => Element.consume_eq_none h _) hconsume hnext h

/-! ### A target without its colon -/

/-- Whether what is read of a text is no list of lines: the scan stops, or a category stands at the
end. -/
def Dangling (stopped : Bool) (parts : List Part) : Prop :=
  stopped = true ∨ ∃ front name, parts = front ++ [.category name]

theorem Dangling.append_left (front : List Part) (h : Dangling stopped parts) :
    Dangling stopped (front ++ parts) :=
  h.imp_right fun ⟨mid, name, heq⟩ => ⟨front ++ mid, name, by rw [heq, List.append_assoc]⟩

/-- Behind a category the scan only goes on at a bar, a target or a pattern. -/
theorem exists_reads_behind_category (hgap : Gap gap)
    (hrest : ∀ c ∈ rest.head?, c ∉ [' ', '\t', '\r', ':', '|', '=']) :
    ∃ stopped, Reads stopped 1 (gap ++ rest) [] := by
  rcases rest with _ | ⟨c, rest⟩
  · exact ⟨false, by rw [List.append_nil]; exact reads_gap 1 hgap⟩
  · have hc := hrest c rfl
    have hblank : c ∉ [' ', '\t', '\r'] := mt (List.mem_append_left [':', '|', '=']) hc
    refine ⟨true, reads_stuck hgap hblank fun e => ?_⟩
    cases e
    case state | category | lineBreak => exact .inl rfl
    case bar | target | pattern =>
      have hsign : ∀ d ∈ [':', '|', '='], (CharSet.only d).contains c = false := by
        intro d hd
        rw [CharSet.contains_only, beq_eq_false_iff_ne]
        rintro rfl
        exact hc (List.mem_append_right [' ', '\t', '\r'] hd)
      refine .inr (Element.consume_eq_none ?_ rest)
      simp [Element.shape, Pattern.seqAll, Pattern.char, Pattern.mayStart, Pattern.advances, hsign]

/-- A category at the start of a line is left without a target if none of the signs that may follow
it does. -/
theorem exists_reads_of_isCategoryName (hname : IsCategoryName name) (hgap : Gap gap)
    (hbehind : ∀ c ∈ (gap ++ rest).head?, ¬ InCategoryName c)
    (hrest : ∀ c ∈ rest.head?, c ∉ [' ', '\t', '\r', ':', '|', '='])
    (hstate : Element.state.shape.consume (name ++ (gap ++ rest)) some = none) :
    ∃ stopped parts, Reads stopped 0 (name ++ (gap ++ rest)) parts ∧ Dangling stopped parts := by
  obtain ⟨stopped, h⟩ := exists_reads_behind_category hgap hrest
  have hreads := reads_category (q := 0) (by simp) gap_nil hname hbehind (fun _ => hstate) h
  exact ⟨stopped, _, hreads, .inr ⟨[], _, rfl⟩⟩

/-- At the start of a line nothing stands at a character of the name of a state that belongs to
neither the name of a state nor that of a category. -/
theorem reads_stuck_of_inStateName {c : Char} (hc : InStateName c) (hcategory : ¬ InCategoryName c)
    (hstate : Element.state.shape.consume (c :: rest) some = none) : Reads true 0 (c :: rest) [] := by
  have hsign := fun hmem => not_inStateName c hmem hc
  have hblank : c ∉ [' ', '\t', '\r'] := mt (List.mem_append_left [':', '|', '=', '\n']) hsign
  refine reads_stuck gap_nil hblank fun e => ?_
  cases e
  case bar | target | pattern => exact .inl rfl
  case state => exact .inr hstate
  case category =>
    have hstart : Element.category.shape.mayStart c = false :=
      Bool.eq_false_iff.2 (mt contains_upperOrDigit.1 hcategory)
    exact .inr (Element.consume_eq_none hstart rest)
  case lineBreak =>
    have hne : '\n' ≠ c := by
      rintro rfl
      exact hsign (by decide)
    have hstart : Element.lineBreak.shape.mayStart c = false :=
      (CharSet.contains_only '\n' c).trans (beq_eq_false_iff_ne.2 hne)
    exact .inr (Element.consume_eq_none hstart rest)

/-- The name of a state at the end of a line is not taken for a state. -/
theorem consume_state_of_isStateName (hname : IsStateName name)
    (hrest : ∀ d ∈ rest.head?, d ∈ [' ', '\t', '\r', '\n']) :
    Element.state.shape.consume (name ++ rest) some = none := by
  have hnot : ∀ d ∈ [' ', '\t', '\r', '\n'], ¬ InStateName d := by decide
  refine consume_state_eq_none (fun hmem => ?_) (fun d hd => hnot d (hrest d hd)) fun _ hmem => ?_
  · exact not_inStateName ':' (by decide) (hname.forall_mem _ hmem)
  · exact absurd (hrest ':' hmem) (by decide)

/-- At the start of a line, the name of a state without a colon behind it is not understood: at most
its start is taken for the name of a category, and nothing follows that. -/
theorem exists_reads_of_isStateName (hname : IsStateName name) (hgap : Gap gap)
    (hrest : ∀ d ∈ rest.head?, d = '\n') :
    ∃ stopped parts, Reads stopped 0 (name ++ (gap ++ rest)) parts ∧ Dangling stopped parts := by
  have hbehind : ∀ d ∈ (gap ++ rest).head?, d ∈ [' ', '\t', '\r', '\n'] :=
    forall_head?_gap_append hgap (by decide) fun d hd => by rw [hrest d hd]; decide
  have hstate := consume_state_of_isStateName hname hbehind
  obtain ⟨front, back, rfl, hfront, hback⟩ : ∃ front back, name = front ++ back ∧
      (∀ d ∈ front, InCategoryName d) ∧ ∀ d ∈ back.head?, ¬ InCategoryName d := by
    refine ⟨name.takeWhile (InCategoryName ·), name.dropWhile (InCategoryName ·), by simp,
      fun d hd => by simpa using List.all_eq_true.1 List.all_takeWhile d hd, fun d hd => ?_⟩
    have hnot := List.head?_dropWhile_not (InCategoryName ·) name
    simpa [Option.mem_def.1 hd] using hnot
  -- the scan stops where the name goes on with small letters, or at the end of the line
  rcases back with _ | ⟨d, back⟩
  · have hnot : ∀ d ∈ [' ', '\t', '\r', '\n'], ¬ InCategoryName d := by decide
    rw [List.append_nil] at hname hstate ⊢
    exact exists_reads_of_isCategoryName ⟨hname.ne_nil, hfront⟩ hgap
      (fun d hd => hnot d (hbehind d hd)) (fun d hd => by rw [hrest d hd]; decide) hstate
  have hd : InStateName d := hname.forall_mem d (by simp)
  have hcategory : ¬ InCategoryName d := hback d rfl
  rw [List.append_assoc] at hstate ⊢
  rcases front with _ | ⟨c, front⟩
  · exact ⟨true, [], reads_stuck_of_inStateName hd hcategory hstate, .inl rfl⟩
  · have hcut : ∀ c ∈ (d :: back ++ (gap ++ rest)).head?, ¬ InCategoryName c := by
      rintro _ ⟨⟩
      exact hcategory
    have hsign : ∀ c ∈ (d :: back ++ (gap ++ rest)).head?, c ∉ [' ', '\t', '\r', ':', '|', '='] := by
      rintro _ ⟨⟩ hmem
      exact not_inStateName d (List.mem_append_left ['\n'] hmem) hd
    exact (exists_reads_of_isCategoryName ⟨by simp, hfront⟩ gap_nil hcut hsign hstate :)

end Criteria.Description

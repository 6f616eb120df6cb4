import Criteria.Proofs.Grammar.Building
import Criteria.Proofs.Grammar.Elements

/-!
# Reading written descriptions

An `Entry` is what a line of a description says, and `Writes` relates entries and their lines to the
texts that consist of them: one entry to a line, blank lines anywhere, and gaps before, between and
behind the elements of a line. Such a text is scanned into the parts of its entries (`Writes.reads`),
these parts are read as the lines of the entries (`readLines_eq`), and so the description is loaded by
the calls that the entries stand for, one after the other on a new draft.

There is one exception. The name of a category such as `_1` may also be that of a state, and at the
start of a line `_1:` is taken for a state. A rule of this one category has to have a gap in front of
the colon; if it has none (`Entry.RunsOn`), its target is left over and the description is not loaded
(`Writes.dangling`). `load_eq_of_writes` states both.
-/

namespace Criteria.Description

/-! ### Entries -/

/-- The name of a state: small letters, digits and underscores with no digit at the start. -/
structure StateName where
  text : String
  valid : IsStateName text.toList

/-- The text of a pattern: not empty, in one line and without white space at the end. -/
structure PatternSource where
  text : String
  ne_nil : text.toList ≠ []
  noBreak : '\n' ∉ text.toList
  last : Text.isBlank (text.toList.getLast ne_nil) = false

/-- Categories with names by which they are found. Capital letters, digits and underscores make up a
name. -/
structure Naming (κ : Type) where
  name : κ → String
  resolve : String → Option κ
  resolve_name : ∀ kind, resolve (name kind) = some kind
  valid : ∀ kind, IsCategoryName (name kind).toList

/-- The names of the categories of expressions. -/
def tokenKinds : Naming TokenKind where
  name := TokenKind.name
  resolve := TokenKind.ofName?
  resolve_name := TokenKind.ofName?_name
  valid kind := by cases kind <;> decide

/-- The same names, but for one that may be that of a state. -/
def underscored : Naming TokenKind where
  name kind := if kind = .null then "_1" else kind.name
  resolve name := if name = "_1" then some .null else TokenKind.ofName? name
  resolve_name kind := by cases kind <;> decide
  valid kind := by cases kind <;> decide

/-- What a line of a description says. -/
inductive Entry (κ : Type) where
  /-- Declares and opens a state. -/
  | state (name : StateName)
  /-- A transition of the open state. -/
  | rule (kinds : List κ) (ne_nil : kinds ≠ []) (target : StateName)
  | pattern (kind : κ) (source : PatternSource)

variable {κ : Type}

namespace Entry

/-- The elements of a line as they are written. -/
def elements (n : Naming κ) : Entry κ → List (List Char)
  | state name => [name.text.toList ++ [':']]
  | rule kinds _ target =>
    (kinds.map fun kind => (n.name kind).toList).intersperse ['|'] ++ [':' :: target.text.toList]
  | pattern kind source => [(n.name kind).toList, '=' :: source.text.toList]

/-- The category and the source of an entry that gives a pattern. -/
def pattern? : Entry κ → Option (κ × String)
  | pattern kind source => some (kind, source.text)
  | _ => none

/-- Whether a line gives a rule of one category with no gap in front of the colon, although the name of
the category may be that of a state. -/
def RunsOn (n : Naming κ) : Entry κ → List Char → Prop
  | rule [kind] _ target, line => IsStateName (n.name kind).toList ∧
    ∃ gap gap', Gap gap ∧ Gap gap' ∧
      line = gap ++ ((n.name kind).toList ++ (':' :: target.text.toList ++ gap'))
  | _, _ => False

/-- No name of a category of expressions may be that of a state, so that no rule of these runs on. -/
theorem not_runsOn_tokenKinds (e : Entry TokenKind) (line : List Char) :
    ¬ e.RunsOn tokenKinds line := by
  have hnames : ∀ kind, ¬ IsStateName (tokenKinds.name kind).toList := by
    intro kind
    cases kind <;> decide
  unfold RunsOn
  split
  case h_1 => exact fun h => hnames _ h.1
  case h_2 => exact id

end Entry

/-- Texts that consist of the given elements with gaps before, between and behind them. -/
inductive Spaced : List (List Char) → List Char → Prop where
  | nil {gap : List Char} (hgap : Gap gap) : Spaced [] gap
  | cons {gap line : List Char} {es : List (List Char)} (hgap : Gap gap) (e : List Char)
      (h : Spaced es line) : Spaced (e :: es) (gap ++ (e ++ line))

/-- Texts that write entries, one to a line; the entries stand with their lines. A line without an entry
is blank. -/
inductive Writes (n : Naming κ) : List (Entry κ × List Char) → List Char → Prop where
  | last (entry : Option (Entry κ)) {line : List Char}
      (h : Spaced (entry.elim [] (·.elements n)) line) :
      Writes n (entry.map (·, line)).toList line
  | line (entry : Option (Entry κ)) {line text : List Char} {lines : List (Entry κ × List Char)}
      (h : Spaced (entry.elim [] (·.elements n)) line) (htext : Writes n lines text) :
      Writes n ((entry.map (·, line)).toList ++ lines) (line ++ '\n' :: text)

/-- Whether a state is declared before the first rule. -/
def Opens : List (Entry κ) → Prop
  | [] | .state _ :: _ => True
  | .rule .. :: _ => False
  | .pattern .. :: entries => Opens entries

/-- The calls that entries stand for, from the state that is open. A rule declares its target and
then adds a transition of the open state. -/
def calls : Option String → List (Entry κ) → List (DraftCall κ)
  | _, [] => []
  | _, .state name :: entries => .addState name.text :: calls (some name.text) entries
  | some source, .rule kinds _ target :: entries =>
    .addState target.text :: .transition source target.text kinds :: calls (some source) entries
  | none, .rule .. :: entries => calls none entries
  | current, .pattern .. :: entries => calls current entries

/-! ### From the text to the parts -/

/-- The parts of a line. -/
def Entry.parts (n : Naming κ) : Entry κ → List Part
  | state name => [.state name.text]
  | rule kinds _ target => (kinds.map fun kind => .category (n.name kind)) ++ [.target target.text]
  | pattern kind source => [.category (n.name kind), .pattern source.text]

variable {n : Naming κ} {stopped : Bool} {q : Nat} {gap rest line text : List Char}
  {parts : List Part} {entries : List (Entry κ)} {lines : List (Entry κ × List Char)}

/-- Whether a text goes on behind a line, with certain parts. -/
structure GoesOn (stopped : Bool) (rest : List Char) (parts : List Part) : Prop where
  first : ∀ c ∈ rest.head?, c = '\n'
  reads : ∀ q ∈ [0, 3], ∀ gap, Gap gap → Reads stopped q (gap ++ rest) parts

theorem goesOn_nil : GoesOn false [] [] where
  first := nofun
  reads q _ gap hgap := by
    rw [List.append_nil]
    exact reads_gap q hgap

theorem goesOn_lineBreak (h : Reads stopped 0 text parts) : GoesOn stopped ('\n' :: text) parts where
  first := by rintro _ ⟨⟩; rfl
  reads _ hq _ hgap := reads_lineBreak hq hgap h

/-- The name of a category is read as such in front of a sign, unless it may also be that of a state and
a colon stands right behind it at the start of a line. -/
theorem reads_name {gap' : List Char} (hq : q ∈ [0, 2]) (hgap : Gap gap) (kind : κ) (hgap' : Gap gap')
    (hsign : ∀ c ∈ rest.head?, c ∈ [':', '|', '='])
    (hrun : q = 0 → IsStateName (n.name kind).toList → gap' = [] → ':' ∉ rest.head?)
    (h : Reads stopped 1 (gap' ++ rest) parts) :
    Reads stopped q (gap ++ ((n.name kind).toList ++ (gap' ++ rest)))
      (.category (n.name kind) :: parts) := by
  have hbehind : ∀ c ∈ (gap' ++ rest).head?, c ∈ [' ', '\t', '\r', ':', '|', '=', '\n'] :=
    forall_head?_gap_append hgap' (fun c hc => List.mem_append_left [':', '|', '=', '\n'] hc)
      fun c hc => List.mem_append_right [' ', '\t', '\r'] (List.mem_append_left ['\n'] (hsign c hc))
  have hcolon : ':' ∉ (n.name kind).toList := fun hmem =>
    not_inCategoryName ':' (by decide) ((n.valid kind).2 _ hmem)
  have hstate (hzero : q = 0) :
      Element.state.shape.consume ((n.name kind).toList ++ (gap' ++ rest)) some = none := by
    refine consume_state_eq_none hcolon (fun c hc => not_inStateName c (hbehind c hc)) ?_
    intro hname hmem
    rcases gap' with _ | ⟨c, gap'⟩
    · exact hrun hzero hname rfl hmem
    · cases hmem
      have hblank := hgap' ':' List.mem_cons_self
      exact absurd hblank (by decide)
  simpa using reads_category hq hgap (n.valid kind) (fun c hc => not_inCategoryName c (hbehind c hc))
    hstate h

theorem reads_rule {kinds : List κ} (hne : kinds ≠ []) (target : StateName)
    (h : Spaced ((kinds.map fun kind => (n.name kind).toList).intersperse ['|'] ++
      [':' :: target.text.toList]) line) (hrest : GoesOn stopped rest parts) (hq : q ∈ [0, 2])
    (hrun : q = 0 → ¬ (Entry.rule kinds hne target).RunsOn n line) :
    Reads stopped q (line ++ rest)
      ((kinds.map fun kind => .category (n.name kind)) ++ .target target.text :: parts) := by
  induction kinds generalizing q line with
  | nil => exact absurd rfl hne
  | cons kind kinds ih =>
    -- only the last category stands in front of the colon
    rcases kinds with _ | ⟨kind', kinds⟩
    · obtain _ | ⟨hgap, _, _ | ⟨hgap', _, ⟨hgap''⟩⟩⟩ := h
      have htarget := reads_target hgap' target.valid
        (forall_head?_gap_append hgap'' (by decide) fun c hc => hrest.first c hc ▸ by decide)
        (hrest.reads 3 (by simp) _ hgap'')
      have hname := reads_name (n := n) hq hgap kind hgap' (by rintro _ ⟨⟩; decide) ?_ htarget
      · simpa using hname
      · rintro hzero hstate rfl -
        exact hrun hzero ⟨hstate, _, _, hgap, hgap'', rfl⟩
    · simp only [List.map_cons, List.intersperse_cons_cons, List.cons_append] at h ih ⊢
      obtain _ | ⟨hgap, _, _ | ⟨hgap', _, h⟩⟩ := h
      have hbar := reads_bar hgap' (ih (by simp) h (by simp) nofun)
      have hname := reads_name (n := n) hq hgap kind hgap' (by rintro _ ⟨⟩; decide)
        (fun _ _ _ => by simp) hbar
      simpa using hname

theorem Entry.reads (e : Entry κ) (h : Spaced (e.elements n) line) (hrun : ¬ e.RunsOn n line)
    (hrest : GoesOn stopped rest parts) : Reads stopped 0 (line ++ rest) (e.parts n ++ parts) := by
  cases e with
  | state name =>
    obtain _ | ⟨hgap, _, ⟨hgap'⟩⟩ := h
    simpa [Entry.parts] using reads_state hgap name.valid (hrest.reads 0 (by simp) _ hgap')
  | rule kinds hne target =>
    simpa [Entry.parts] using reads_rule hne target h hrest List.mem_cons_self fun _ => hrun
  | pattern kind source =>
    obtain _ | ⟨hgap, _, _ | ⟨hgap', _, ⟨hgap''⟩⟩⟩ := h
    -- the pattern takes the gap behind it along, so that none is left
    have hpattern := reads_pattern hgap' source.ne_nil source.noBreak source.last hgap'' hrest.first
      (hrest.reads 3 (by simp) [] nofun)
    have hname := reads_name (n := n) List.mem_cons_self hgap kind hgap' (by rintro _ ⟨⟩; decide)
      (fun _ _ _ => by simp) hpattern
    simpa [Entry.parts] using hname

/-- A line whose rule runs on is read up to the colon, and its target is left over. -/
theorem Entry.RunsOn.dangling {e : Entry κ} (h : e.RunsOn n line)
    (hrest : ∀ c ∈ rest.head?, c = '\n') :
    ∃ stopped parts, Reads stopped 0 (line ++ rest) parts ∧ Dangling stopped parts := by
  unfold RunsOn at h
  split at h
  case h_1 kind _ target =>
    obtain ⟨hstate, gap, gap', hgap, hgap', rfl⟩ := h
    obtain ⟨stopped, parts, hreads, hdangling⟩ :=
      exists_reads_of_isStateName target.valid hgap' hrest
    exact ⟨stopped, _, by simpa using reads_state hgap hstate hreads,
      hdangling.append_left [.state _]⟩
  case h_2 => exact h.elim

/-- **A text is read as the parts of its entries** if no rule runs on. -/
theorem Writes.reads (h : Writes n lines text) (hrun : ∀ l ∈ lines, ¬ l.1.RunsOn n l.2) :
    Reads false 0 text ((lines.map Prod.fst).flatMap (·.parts n)) := by
  induction h with
  | last entry h =>
    cases entry with
    | none =>
      obtain ⟨hgap⟩ := h
      exact reads_gap 0 hgap
    | some e => simpa using e.reads h (hrun (e, _) List.mem_cons_self) goesOn_nil
  | line entry h _ ih =>
    cases entry with
    | none =>
      obtain ⟨hgap⟩ := h
      exact reads_lineBreak (by simp) hgap (ih hrun)
    | some e =>
      obtain ⟨he, hlines⟩ := List.forall_mem_cons.1 hrun
      exact e.reads h he (goesOn_lineBreak (ih hlines))

/-- A text with a rule that runs on is read as no list of lines. -/
theorem Writes.dangling (h : Writes n lines text) (hrun : ∃ l ∈ lines, l.1.RunsOn n l.2) :
    ∃ stopped parts, Reads stopped 0 text parts ∧ Dangling stopped parts := by
  induction h with
  | last entry h =>
    cases entry with
    | none => exact absurd hrun (by simp)
    | some e =>
      obtain ⟨_, hmem, he⟩ := hrun
      obtain rfl := List.mem_singleton.1 hmem
      have hend : ∀ c ∈ ([] : List Char).head?, c = '\n' := nofun
      simpa using he.dangling hend
  | @line entry line text lines h _ ih =>
    cases entry with
    | none =>
      obtain ⟨hgap⟩ := h
      obtain ⟨stopped, parts, hreads, hdangling⟩ := ih hrun
      exact ⟨stopped, parts, reads_lineBreak (by simp) hgap hreads, hdangling⟩
    | some e =>
      by_cases he : e.RunsOn n line
      · exact he.dangling (by rintro _ ⟨⟩; rfl)
      · obtain ⟨stopped, parts, hreads, hdangling⟩ :=
          ih (((List.exists_mem_cons_iff ..).1 hrun).resolve_left he)
        exact ⟨stopped, _, e.reads h he (goesOn_lineBreak hreads), hdangling.append_left _⟩

/-! ### From the parts to the lines -/

/-- The lines of entries, from the state that is open. -/
def linesOf : Option String → List (Entry κ) → List (Line κ)
  | _, [] => []
  | _, .state name :: entries => .state name.text :: linesOf (some name.text) entries
  | some source, .rule kinds _ target :: entries =>
    .rule source kinds target.text :: linesOf (some source) entries
  | none, .rule .. :: entries => linesOf none entries
  | current, .pattern kind source :: entries => .pattern kind source.text :: linesOf current entries

section

variable {resolve : String → Option κ} {extended : Bool} {size : Nat} {current : Option String}
  {pending : List κ} {ts : List (Token Element)}

/-- Bars and line breaks are passed over. -/
theorem readLines_append {us : List (Token Element)} (h : partsOf us = []) :
    readLines resolve extended size current pending (us ++ ts) =
      readLines resolve extended size current pending ts := by
  induction us with
  | nil => rfl
  | cons u us ih =>
    obtain ⟨hu, hus⟩ := List.forall_mem_cons.1 (List.filterMap_eq_nil_iff.1 h)
    obtain ⟨kind, text, start⟩ := u
    cases kind
    case bar | lineBreak =>
      rw [← ih (List.filterMap_eq_nil_iff.2 hus), List.cons_append]
      rcases current with _ | _ <;> rcases pending with _ | ⟨_, _ | _⟩ <;> simp only [readLines]
    all_goals cases hu

theorem readLines_of_partsOf_eq_nil (h : partsOf ts = []) :
    readLines resolve extended size current pending ts =
      readLines resolve extended size current pending [] := by
  calc readLines resolve extended size current pending ts
      = readLines resolve extended size current pending (ts ++ []) := by rw [List.append_nil]
    _ = readLines resolve extended size current pending [] := readLines_append h

/-- The first part stands in a token with nothing but bars and line breaks before it. -/
theorem exists_of_partsOf_cons {p : Part} (h : partsOf ts = p :: parts) :
    ∃ us t ts', ts = us ++ t :: ts' ∧ partsOf us = [] ∧ t.kind.part? t.text.toList = some p ∧
      partsOf ts' = parts := by
  obtain ⟨us, t, ts', rfl, hus, ht, hts⟩ := List.filterMap_eq_cons_iff.1 h
  exact ⟨us, t, ts', rfl, List.filterMap_eq_nil_iff.2 hus, ht, hts⟩

theorem readLines_state {name : String} (h : partsOf ts = .state name :: parts) :
    ∃ ts', partsOf ts' = parts ∧ ∀ current pending,
      readLines resolve extended size current pending ts =
        (readLines resolve extended size (some name) pending ts').cons (.state name) := by
  obtain ⟨us, ⟨kind, text, start⟩, ts', rfl, hus, ht, hts⟩ := exists_of_partsOf_cons h
  cases kind <;> cases ht
  refine ⟨ts', hts, fun current pending => ?_⟩
  rw [readLines_append hus]
  rcases current with _ | _ <;> rcases pending with _ | ⟨_, _ | _⟩ <;> simp only [readLines]

theorem readLines_category {name : String} {kind : κ} (hresolve : resolve name = some kind)
    (h : partsOf ts = .category name :: parts) :
    ∃ ts', partsOf ts' = parts ∧ ∀ current pending,
      readLines resolve extended size current pending ts =
        readLines resolve extended size current (pending ++ [kind]) ts' := by
  obtain ⟨us, ⟨kind, text, start⟩, ts', rfl, hus, ht, hts⟩ := exists_of_partsOf_cons h
  cases kind <;> cases ht
  refine ⟨ts', hts, fun current pending => ?_⟩
  rw [String.ofList_toList] at hresolve
  rw [readLines_append hus]
  rcases current with _ | _ <;> rcases pending with _ | ⟨_, _ | _⟩ <;>
    simp only [readLines, hresolve]

theorem readLines_target {name : String} (h : partsOf ts = .target name :: parts) :
    ∃ ts', partsOf ts' = parts ∧ ∀ source pending,
      readLines resolve extended size (some source) pending ts =
        (readLines resolve extended size (some source) [] ts').cons (.rule source pending name) := by
  obtain ⟨us, ⟨kind, text, start⟩, ts', rfl, hus, ht, hts⟩ := exists_of_partsOf_cons h
  cases kind <;> cases ht
  refine ⟨ts', hts, fun source pending => ?_⟩
  rw [readLines_append hus]
  rcases pending with _ | ⟨_, _ | _⟩ <;> simp only [readLines]

theorem readLines_pattern {source : String} (h : partsOf ts = .pattern source :: parts) :
    ∃ ts', partsOf ts' = parts ∧ ∀ current kind,
      readLines resolve true size current [kind] ts =
        (readLines resolve true size current [] ts').cons (.pattern kind source) := by
  obtain ⟨us, ⟨kind, text, start⟩, ts', rfl, hus, ht, hts⟩ := exists_of_partsOf_cons h
  cases kind <;> cases ht
  refine ⟨ts', hts, fun current kind => ?_⟩
  rw [readLines_append hus]
  rcases current with _ | _ <;> simp only [readLines, if_true]

/-- The categories of a rule wait for its target. -/
theorem readLines_categories (n : Naming κ) (kinds : List κ)
    (h : partsOf ts = (kinds.map fun kind => .category (n.name kind)) ++ parts) :
    ∃ ts', partsOf ts' = parts ∧ ∀ current pending,
      readLines n.resolve extended size current pending ts =
        readLines n.resolve extended size current (pending ++ kinds) ts' := by
  induction kinds generalizing ts with
  | nil => exact ⟨ts, h, fun current pending => by rw [List.append_nil]⟩
  | cons kind kinds ih =>
    obtain ⟨us, hus, hread⟩ := readLines_category (n.resolve_name kind) h
    obtain ⟨ts', hts', hread'⟩ := ih hus
    refine ⟨ts', hts', fun current pending => ?_⟩
    rw [hread, hread', List.append_assoc]
    rfl

/-- **The parts of entries are read as their lines**, if there is an open state where one is needed,
and patterns only in the extended form. -/
theorem readLines_eq (hparts : partsOf ts = entries.flatMap (·.parts n))
    (hopens : current = none → Opens entries)
    (hextended : extended = true ∨ entries.filterMap Entry.pattern? = []) :
    readLines n.resolve extended size current [] ts = ⟨linesOf current entries, none⟩ := by
  induction entries generalizing current ts with
  | nil => rw [readLines_of_partsOf_eq_nil hparts, readLines, linesOf]
  | cons e entries ih =>
    cases e with
    | state name =>
      obtain ⟨us, hus, hread⟩ := readLines_state hparts
      rw [hread, ih hus (by rintro ⟨⟩) hextended]
      rcases current with _ | _ <;> rfl
    | rule kinds hne target =>
      obtain ⟨source, rfl⟩ : ∃ source, current = some source :=
        Option.ne_none_iff_exists'.1 hopens
      obtain ⟨us, hus, hread⟩ := readLines_categories n kinds (hparts.trans (List.append_assoc ..))
      obtain ⟨us', hus', hread'⟩ := readLines_target hus
      rw [hread, hread', ih hus' (by rintro ⟨⟩) hextended]
      rfl
    | pattern kind source =>
      obtain rfl : extended = true := hextended.resolve_right (by simp [Entry.pattern?])
      obtain ⟨us, hus, hread⟩ := readLines_category (n.resolve_name kind) hparts
      obtain ⟨us', hus', hread'⟩ := readLines_pattern hus
      rw [hread, List.nil_append, hread', ih hus' hopens (.inl rfl)]
      rcases current with _ | _ <;> rfl

/-! ### Faults -/

/-- What has a fault in every case has one behind further elements. -/
theorem isSome_fault_append (us : List (Token Element))
    (h : ∀ current pending,
      (readLines resolve extended size current pending ts).fault.isSome = true)
    (current : Option String) (pending : List κ) :
    (readLines resolve extended size current pending (us ++ ts)).fault.isSome = true := by
  induction us generalizing current pending with
  | nil => exact h current pending
  | cons u us ih =>
    rw [List.cons_append, readLines.eq_def]
    split
    case h_1 heq | h_2 heq => cases heq
    case h_3 heq =>
      cases heq
      -- a line in front does not change the fault
      split
      case h_1 | h_3 | h_4 => exact ih _ _
      case h_2 =>
        split
        · exact ih _ _
        · rfl
      case h_5 =>
        split
        · rfl
        · exact ih _ _
      case h_6 =>
        split
        · split
          · exact ih _ _
          · rfl
        · rfl

/-- A category at the end has no target, if it is known at all. -/
theorem isSome_fault_of_category {name : String} (h : partsOf ts = [.category name])
    (current : Option String) (pending : List κ) :
    (readLines resolve extended size current pending ts).fault.isSome = true := by
  cases hresolve : resolve name with
  | some kind =>
    obtain ⟨us, hus, hread⟩ : ∃ us, partsOf us = [] ∧ ∀ current pending,
        readLines resolve extended size current pending ts =
          readLines resolve extended size current (pending ++ [kind]) us :=
      readLines_category hresolve h
    rw [hread, readLines_of_partsOf_eq_nil hus]
    cases pending <;> rfl
  | none =>
    obtain ⟨us, ⟨kind, text, start⟩, ts', rfl, hus, ht, -⟩ := exists_of_partsOf_cons h
    cases kind <;> cases ht
    rw [String.ofList_toList] at hresolve
    rw [readLines_append hus]
    rcases current with _ | _ <;> rcases pending with _ | ⟨_, _ | _⟩ <;>
      simp [readLines, hresolve]

/-- A category at the end is a fault, whatever stands in front of it. -/
theorem isSome_fault_of_partsOf {front : List Part} {name : String}
    (h : partsOf ts = front ++ [.category name]) (current : Option String) (pending : List κ) :
    (readLines resolve extended size current pending ts).fault.isSome = true := by
  obtain ⟨us, vs, rfl, -, hvs⟩ := List.filterMap_eq_append_iff.1 h
  exact isSome_fault_append us (isSome_fault_of_category hvs) current pending

end

/-! ### From the lines to the calls -/

theorem filterMap_linesOf (current : Option String) (entries : List (Entry κ)) :
    (linesOf current entries).filterMap Line.pattern? = entries.filterMap Entry.pattern? := by
  induction entries generalizing current with
  | nil => rfl
  | cons e entries ih =>
    cases e with
    | state name => exact ih (some name.text)
    | rule kinds hne target => cases current <;> exact ih _
    | pattern kind source => exact congrArg ((kind, source.text) :: ·) (ih current)

variable [DecidableEq κ] [Labelled κ]

theorem foldlM_linesOf (current : Option String) (entries : List (Entry κ)) (d : GrammarDraft κ) :
    (linesOf current entries).foldlM Line.apply d =
      (calls current entries).foldlM DraftCall.apply d := by
  induction entries generalizing current d with
  | nil => rfl
  | cons e entries ih =>
    cases e with
    | state name => exact ih (some name.text) _
    | rule kinds hne target =>
      cases current with
      | none => exact ih none d
      | some source =>
        exact congrArg (((d.addState target.text).2.transition source target.text kinds) >>= ·)
          (funext fun d' => ih (some source) d')
    | pattern kind source => exact ih current d

theorem Lines.exists_load_eq_error {ls : Lines κ} (h : ls.fault.isSome = true) :
    ∃ e, ls.load = .error e := by
  obtain ⟨fault, hfault⟩ := Option.isSome_iff_exists.1 h
  cases hlines : ls.lines.foldlM Line.apply {} with
  | error e => exact ⟨e, by rw [Lines.load, hlines]; rfl⟩
  | ok draft => exact ⟨fault, by rw [Lines.load, hlines, ok_bind, hfault]; rfl⟩

/-- A text that is scanned to its end is loaded as its elements are read. -/
theorem load_of_scanFrom {resolve : String → Option κ} {extended : Bool} {text : String}
    {ts : List (Token Element)}
    (h : elements.scanFrom (fun state kind _ => lineGrammar.advance state kind) 0 text.toList 0 =
      ⟨ts, none, q⟩) :
    load resolve extended text =
      (readLines resolve extended (Text.byteLength text.toList) none [] ts).load := by
  have hok : scan text = .ok ts := by
    rw [scan, Scanner.scan, h]
  rw [load, hok, ok_bind]

/-- What is read as the parts of entries is loaded by their calls. -/
theorem Reads.load_eq {extended : Bool} {text : String}
    (h : Reads false 0 text.toList (entries.flatMap (·.parts n))) (hopens : Opens entries)
    (hextended : extended = true ∨ entries.filterMap Entry.pattern? = []) :
    load n.resolve extended text = do
      let draft ← (calls none entries).foldlM DraftCall.apply {}
      return (← draft.build, entries.filterMap Entry.pattern?) := by
  obtain ⟨ts, _ | _, q, hscan, hstop, hparts⟩ := h 0
  · rw [load_of_scanFrom hscan, readLines_eq hparts (fun _ => hopens) hextended, Lines.load,
      foldlM_linesOf, filterMap_linesOf]
  · cases hstop

/-- What is read as no list of lines is not loaded. -/
theorem Dangling.exists_load_eq_error {resolve : String → Option κ} {extended : Bool} {text : String}
    (h : Dangling stopped parts) (hreads : Reads stopped 0 text.toList parts) :
    ∃ e, load resolve extended text = .error e := by
  obtain ⟨ts, _ | stop, q, hscan, rfl, hparts⟩ := hreads 0
  · obtain ⟨front, name, rfl⟩ := h.resolve_left nofun
    rw [load_of_scanFrom hscan]
    exact Lines.exists_load_eq_error (isSome_fault_of_partsOf hparts none [])
  · rw [load, scan, Scanner.scan, hscan]
    exact ⟨_, rfl⟩

/-- **A written description is loaded by the calls that its entries stand for, if no rule runs on**: on
a new draft each state is declared, each rule declares its target and adds a transition of the state
that is open, and the draft is finished; the patterns come in their order. If a call fails, so does
loading, with the same error. The lines may have gaps before, between and behind their elements, and
there may be blank lines; a state has to be declared before the first rule, and patterns need the
extended form. **If a rule runs on, the description is not loaded.** -/
theorem load_eq_of_writes (n : Naming κ) {extended : Bool} {lines : List (Entry κ × List Char)}
    {text : String} (h : Writes n lines text.toList) (hopens : Opens (lines.map Prod.fst))
    (hextended : extended = true ∨ (lines.map Prod.fst).filterMap Entry.pattern? = []) :
    ((∀ l ∈ lines, ¬ l.1.RunsOn n l.2) → load n.resolve extended text = do
      let draft ← (calls none (lines.map Prod.fst)).foldlM DraftCall.apply {}
      return (← draft.build, (lines.map Prod.fst).filterMap Entry.pattern?)) ∧
    ((∃ l ∈ lines, l.1.RunsOn n l.2) → ∃ e, load n.resolve extended text = .error e) := by
  refine ⟨fun hrun => (h.reads hrun).load_eq hopens hextended, fun hrun => ?_⟩
  obtain ⟨stopped, parts, hreads, hdangling⟩ := h.dangling hrun
  exact hdangling.exists_load_eq_error hreads

/-- A rule with a blank line in front of it and no gap in front of the colon, behind the name `_1` that
may be that of a state; it does not run on, as there are two categories. The rule of `_1` alone has a
gap there. Of the white space around the pattern only that in front belongs to it. -/
theorem load_eq_of_writes_gaps :
    load underscored.resolve true "a:\n\t\nOPERAND |_1:b_1\nb_1:\r\n_1 :a\n_1= x \r" =
      .ok (⟨[⟨"a", [⟨[.operand, .null], 1⟩]⟩, ⟨"b_1", [⟨[.null], 0⟩]⟩], 0⟩, [(.null, " x")]) := by
  let a : StateName := ⟨"a", by decide⟩
  let b : StateName := ⟨"b_1", by decide⟩
  let x : PatternSource := ⟨" x", by decide, by decide, by decide⟩
  have hnil : Gap [] := nofun
  have hspace : Gap [' '] := show ∀ c ∈ [' '], c ∈ [' ', '\t', '\r'] by decide
  have htab : Gap ['\t'] := show ∀ c ∈ ['\t'], c ∈ [' ', '\t', '\r'] by decide
  have hreturn : Gap ['\r'] := show ∀ c ∈ ['\r'], c ∈ [' ', '\t', '\r'] by decide
  have hend : Gap [' ', '\r'] := show ∀ c ∈ [' ', '\r'], c ∈ [' ', '\t', '\r'] by decide
  have hstate : Spaced ((Entry.state a).elements underscored) ([] ++ ("a".toList ++ [':'] ++ [])) :=
    .cons hnil _ (.nil hnil)
  have hchain : Spaced ((Entry.rule [.operand, .null] (by simp) b).elements underscored)
      ([] ++ ("OPERAND".toList ++ ([' '] ++ (['|'] ++ ([] ++ ("_1".toList ++ ([] ++
        (':' :: "b_1".toList ++ [])))))))) :=
    .cons hnil _ (.cons hspace _ (.cons hnil _ (.cons hnil _ (.nil hnil))))
  have hopen : Spaced ((Entry.state b).elements underscored)
      ([] ++ ("b_1".toList ++ [':'] ++ ['\r'])) :=
    .cons hnil _ (.nil hreturn)
  have hrule : Spaced ((Entry.rule [.null] (by simp) a).elements underscored)
      ([] ++ ("_1".toList ++ ([' '] ++ (':' :: "a".toList ++ [])))) :=
    .cons hnil _ (.cons hspace _ (.nil hnil))
  have hpattern : Spaced ((Entry.pattern .null x).elements underscored)
      ([] ++ ("_1".toList ++ ([] ++ (('=' :: " x".toList) ++ [' ', '\r'])))) :=
    .cons hnil _ (.cons hnil _ (.nil hend))
  have h : Writes underscored
      [(.state a, "a:".toList), (.rule [.operand, .null] (by simp) b, "OPERAND |_1:b_1".toList),
        (.state b, "b_1:\r".toList), (.rule [.null] (by simp) a, "_1 :a".toList),
        (.pattern .null x, "_1= x \r".toList)]
      "a:\n\t\nOPERAND |_1:b_1\nb_1:\r\n_1 :a\n_1= x \r".toList :=
    have hlast := Writes.last (n := underscored) (some (.pattern .null x)) hpattern
    have hrules := Writes.line (n := underscored) (some (.rule _ _ a)) hrule hlast
    have hopens := Writes.line (n := underscored) (some (.state b)) hopen hrules
    have hchains := Writes.line (n := underscored) (some (.rule _ _ b)) hchain hopens
    have hblank := Writes.line (n := underscored) none (.nil htab) hchains
    Writes.line (n := underscored) (some (.state a)) hstate hblank
  have hgap : ¬ (Entry.rule [.null] (by simp) a).RunsOn underscored ['_', '1', ' ', ':', 'a'] := by
    rintro ⟨-, _ | ⟨c, gap⟩, gap', hgap, -, heq⟩
    · cases heq
    · obtain ⟨rfl, -⟩ := List.cons.inj heq
      exact absurd (hgap '_' List.mem_cons_self) (by decide)
  refine (load_eq_of_writes underscored h trivial (.inl rfl)).1 ?_
  simp only [List.forall_mem_cons]
  exact ⟨id, id, id, hgap, id, nofun⟩

/-- **A description with a rule that runs on is not loaded although its calls give a grammar**: the name
`_1` with the colon is taken for a state, and nothing is known to start with `b`. It does not matter
what the names stand for. -/
theorem load_ne_calls_of_runsOn : ∃ lines,
    Writes underscored lines "a:\n_1:b\n".toList ∧ Opens (lines.map Prod.fst) ∧
    (do
      let draft ← (calls none (lines.map Prod.fst)).foldlM DraftCall.apply {}
      return (← draft.build, (lines.map Prod.fst).filterMap Entry.pattern?)) =
        .ok (⟨[⟨"a", [⟨[.null], 1⟩]⟩, ⟨"b", []⟩], 0⟩, []) ∧
    ∀ resolve : String → Option TokenKind,
      load resolve false "a:\n_1:b\n" = .error (.invalidGrammar 6 "unexpected 'b'") := by
  let a : StateName := ⟨"a", by decide⟩
  let b : StateName := ⟨"b", by decide⟩
  have hnil : Gap [] := nofun
  have hstate : Spaced ((Entry.state a).elements underscored) ([] ++ ("a".toList ++ [':'] ++ [])) :=
    .cons hnil _ (.nil hnil)
  have hrule : Spaced ((Entry.rule [.null] (by simp) b).elements underscored)
      ([] ++ ("_1".toList ++ ([] ++ (':' :: "b".toList ++ [])))) :=
    .cons hnil _ (.cons hnil _ (.nil hnil))
  have hlast := Writes.last (n := underscored) none (.nil hnil)
  have hrules := Writes.line (n := underscored) (some (.rule [.null] (by simp) b)) hrule hlast
  have hscan : scan "a:\n_1:b\n" = .error (.invalidGrammar 6 "unexpected 'b'") := by decide +kernel
  refine ⟨_, Writes.line (n := underscored) (some (.state a)) hstate hrules, trivial, rfl,
    fun resolve => ?_⟩
  rw [load, hscan]
  rfl

/-- In front of a gap the name is that of a category, which has to be known. -/
example : load TokenKind.ofName? false "a:\n_1 :b\n" =
    .error (.invalidGrammar 3 "unknown token '_1'") := by decide +kernel

end Criteria.Description

import Criteria.Proofs.Dialect.BuiltinPatterns
import Criteria.Proofs.Dialect.OperandTokens
import Criteria.Proofs.Expression.Offsets
import Criteria.Proofs.Pattern.Tails

/-!
# Spaces between tokens

The tokens of a text with single spaces in between are the same tokens again. What stands behind a
token is then a space, and that must not change which pattern finds the token:

* the pattern that found it still does (`Finds.apart`). It cannot take the space, or it ends at a
  quote or a bracket of its own;
* the patterns before it still miss it. That is a matter of two patterns at a time: `Yields` lists
  the reasons for which one of them does not find more than before in front of a token of the other.

`Spaceable` collects what is asked of the patterns of a dialect; for the built-in dialects it is
checked by evaluation (`exists_spaceable`).
-/

namespace Criteria

open Text Scanner

/-- Whether a text goes on with a space, if it goes on. -/
def Apart (tail : List Char) : Prop := ∀ c ∈ tail.head?, c = ' '

theorem not_isWord_of_isBlank {c : Char} (h : isBlank c = true) : isWord c = false := by
  by_contra hword
  rw [Bool.not_eq_false] at hword
  have hchar := Operand.pathChar_of_isWord hword
  rw [(endsPath_of_isBlank h [] c rfl).1] at hchar
  cases hchar

/-- The members of a set of ASCII characters, or of all their variants. -/
def CharSet.members? : CharSet → Option (List Char)
  | folded a =>
    if a.isAscii then
      Option.some ((((List.range 128).map Char.ofNat).filter a.contains).flatMap caseVariants)
    else Option.none
  | a =>
    if a.isAscii then Option.some (((List.range 128).map Char.ofNat).filter a.contains)
    else Option.none

theorem CharSet.mem_of_members? {a : CharSet} {cs : List Char} (h : a.members? = .some cs) {c : Char}
    (hc : a.contains c = true) : c ∈ cs := by
  have ascii {a : CharSet} (ha : a.isAscii = true) {c : Char} (hc : a.contains c = true) :
      c ∈ ((List.range 128).map Char.ofNat).filter a.contains := by
    refine List.mem_filter.2 ⟨List.mem_map.2 ⟨c.toNat, ?_, Char.ofNat_toNat c⟩, hc⟩
    exact List.mem_range.2 (toNat_lt_of_isAscii ha hc)
  unfold members? at h
  split at h
  · split_ifs at h with ha
    cases h
    refine forall_folded (p := fun c => c ∈ _) ha (fun n hn hmem v hv => ?_) hc
    exact List.mem_flatMap.2 ⟨Char.ofNat n,
      List.mem_filter.2 ⟨List.mem_map_of_mem (List.mem_range.2 hn), hmem⟩, hv⟩
  · split_ifs at h with ha
    cases h
    exact ascii ha hc

namespace TokenPattern

variable {u t : TokenPattern TokenKind} {x tail tail' : List Char}

/-- Whether a pattern finds a text in front of another one. -/
structure Finds (t : TokenPattern TokenKind) (x tail : List Char) : Prop where
  consume : t.pattern.consume (x ++ tail) some = some tail
  follows : t.Follows tail

theorem Finds.takes (h : t.Finds x tail) (ht : t.pattern.unconditional = true) :
    t.pattern.Takes x [] := by
  obtain ⟨rest, htakes, heq⟩ := Pattern.exists_takes_of_consume h.consume
  cases heq
  exact htakes.of_append ht

/-! ### Reasons to yield -/

/-- No state allows both categories. -/
def Elsewhere (u t : TokenPattern TokenKind) : Prop :=
  ∀ state < 2, expressionGrammar.next? state t.kind = none ∨
    expressionGrammar.next? state u.kind = none

/-- Nothing has to follow, and the pattern takes no space. -/
def Unguarded (u : TokenPattern TokenKind) : Prop :=
  u.follow = none ∧ u.pattern.mayTake ' ' = false

/-- The pattern is a fixed sequence of characters other than a space, at the end of a word. -/
def IsWord (u : TokenPattern TokenKind) : Prop :=
  u.follow = some .endOfWord ∧
    (u.pattern.sets?.any fun sets => sets.all fun set => !set.contains ' ') = true

/-- What the pattern finds goes as far as the characters of words. -/
def EndsWord (t : TokenPattern TokenKind) : Prop :=
  t.follow = some .endOfWord ∨ t.follow = some .openingOfCall ∨ t.pattern = Operand.path

/-- The first pattern starts with a fixed sequence that has a mark which the second cannot take. -/
def Lacks (u t : TokenPattern TokenKind) : Prop :=
  (∀ set ∈ u.pattern.front, set.contains ' ' = false) ∧
    (['-', ':', '\x27', '['].any fun d =>
      u.pattern.front.contains (.only d) && !t.pattern.mayTake d) = true

/-- No match of the first pattern starts as those of the second do. -/
def StartsApart (u t : TokenPattern TokenKind) : Prop :=
  u.pattern.advances = true ∧ ((t.pattern.front.head?.bind CharSet.members?).any fun cs =>
    cs.all fun c => !u.pattern.mayStart c) = true

/-- The first pattern is found only in front of a bracket, and the second is that of an operand
without one. -/
def IsCall (u t : TokenPattern TokenKind) : Prop :=
  u.follow = some .openingOfCall ∧ u.pattern.mayTake ' ' = false ∧ t.kind = .operand ∧
    t.pattern.mayTake '(' = false

/-- Why a pattern that misses a token of another pattern misses it with a space behind it as well. -/
def Yields (u t : TokenPattern TokenKind) : Prop :=
  u.Elsewhere t ∨ u.Unguarded ∨ u.IsWord ∧ t.EndsWord ∨ u.Lacks t ∨ u.StartsApart t ∨ u.IsCall t

instance (u t : TokenPattern TokenKind) : Decidable (u.Yields t) := by
  unfold Yields Elsewhere Unguarded IsWord EndsWord Lacks StartsApart IsCall
  infer_instance

theorem Unguarded.misses (hu : u.Unguarded) (hfree : u.pattern.unconditional = true)
    (hmiss : u.Misses (x ++ tail)) (hapart : Apart tail') : u.Misses (x ++ tail') := by
  obtain ⟨hfollow, hspace⟩ := hu
  have hnone : u.pattern.consume (x ++ tail) some = none := by
    cases hc : u.pattern.consume (x ++ tail) some with
    | none => rfl
    | some rest => exact absurd (fun q hq => by rw [hfollow] at hq; cases hq) (hmiss rest hc)
  have htail : ∀ c ∈ tail'.head?, u.pattern.mayTake c = false := fun c hc => hapart c hc ▸ hspace
  exact misses_of_consume ((Pattern.consume_carries hfree htail x).of_none hnone)

/-- A word that is missed is followed by more of a word, and so is then the token. -/
theorem IsWord.misses (hu : u.IsWord) (hmiss : u.Misses (x ++ tail)) (hapart : Apart tail')
    (hend : ∀ c ∈ tail.head?, isWord c = false) : u.Misses (x ++ tail') := by
  obtain ⟨hfollow, hsets⟩ := hu
  obtain ⟨sets, hsets, hspace⟩ := (Option.any_eq_true _ _).1 hsets
  have hhead : ∀ c ∈ tail'.head?, ∀ set ∈ sets, set.contains c = false := by
    intro c hc set hset
    have := List.all_eq_true.1 hspace set hset
    rw [hapart c hc]
    simpa using this
  intro rest hrest hf
  rw [Pattern.consume_of_sets? hsets, Pattern.behind_append_of_head? hhead, Option.bind_fun_some] at hrest
  obtain ⟨z, hz, rfl⟩ := Option.map_eq_some_iff.1 hrest
  obtain ⟨front, rfl, hfront⟩ := Pattern.behind_eq_some_iff.1 hz
  -- `z` is what the word leaves of the token; if nothing, then what follows is the tail
  refine hmiss (z ++ tail) ?_ ((follows_endOfWord_iff hfollow).2 fun c hc => ?_)
  · rw [Pattern.consume_of_sets? hsets, List.append_assoc, Pattern.behind_append hfront]
    rfl
  · rcases z with _ | ⟨d, z⟩
    · exact hend c hc
    · exact (follows_endOfWord_iff hfollow).1 hf c hc

theorem Lacks.misses (hu : u.Lacks t) (ht : t.pattern.Takes x []) (hapart : Apart tail') :
    u.Misses (x ++ tail') := by
  obtain ⟨hspace, hmark⟩ := hu
  obtain ⟨d, -, hmark⟩ := List.any_eq_true.1 hmark
  rw [Bool.and_eq_true, List.contains_iff_mem, Bool.not_eq_true'] at hmark
  obtain ⟨hd, hlack⟩ := hmark
  have hhead : ∀ c ∈ tail'.head?, ∀ set ∈ u.pattern.front, set.contains c = false :=
    fun c hc set hset => hapart c hc ▸ hspace set hset
  have hnone : Pattern.behind u.pattern.front x = none := by
    cases hb : Pattern.behind u.pattern.front x with
    | none => rfl
    | some rest =>
      -- the mark would be a character of the token
      obtain ⟨i, hi⟩ := List.getElem?_of_mem hd
      obtain ⟨c, hc, hset⟩ := Pattern.getElem?_of_behind (by rw [hb]; rfl) hi
      cases CharSet.contains_only_iff.1 hset
      obtain ⟨front, heq, hfront⟩ := ht.mayTake
      rw [List.append_nil] at heq
      subst heq
      rw [hfront _ (List.mem_of_getElem? hc)] at hlack
      cases hlack
  refine misses_of_consume (Pattern.consume_eq_none_of_front ?_ some)
  rw [Pattern.behind_append_of_head? hhead, hnone]
  rfl

theorem StartsApart.misses (hu : u.StartsApart t) (ht : t.pattern.Takes x []) (tail' : List Char) :
    u.Misses (x ++ tail') := by
  obtain ⟨hadvances, hstart⟩ := hu
  obtain ⟨cs, hcs, hall⟩ := (Option.any_eq_true _ _).1 hstart
  obtain ⟨set, hset, hmembers⟩ := Option.bind_eq_some_iff.1 hcs
  rw [List.head?_eq_getElem?] at hset
  obtain ⟨c, hc, hcontains⟩ := Pattern.getElem?_of_behind ht.front hset
  obtain ⟨run, rfl⟩ := List.head?_eq_some_iff.1 ((List.head?_eq_getElem? ..).trans hc)
  have hno := List.all_eq_true.1 hall c (CharSet.mem_of_members? hmembers hcontains)
  exact misses_of_consume (Pattern.consume_eq_none_of_mayStart hadvances (by simpa using hno))

/-- The name of a method that starts an operand is not in front of a bracket. -/
theorem IsCall.misses (hu : u.IsCall t) (ht : t.pattern.Takes x []) (hapart : Apart tail')
    (htail : Resumes tail') : u.Misses (x ++ tail') := by
  obtain ⟨hfollow, hspace, -, hbracket⟩ := hu
  intro rest hrest hf
  obtain ⟨blanks, more, rfl, hblanks⟩ := (follows_call_iff hfollow).1 hf
  obtain ⟨_, htakes, heq⟩ := Pattern.exists_takes_of_consume hrest
  cases heq
  obtain ⟨piece, htext, hpiece⟩ := htakes.mayTake
  obtain ⟨front, heq, hfront⟩ := ht.mayTake
  rw [List.append_nil] at heq
  subst heq
  rcases List.append_eq_append_iff.1 htext with ⟨q, rfl, hcall⟩ | ⟨q, rfl, hcall⟩
  · -- the name would go on behind the operand
    rcases q with _ | ⟨c, q⟩
    · exact not_call_of_resumes (hcall ▸ htail) hblanks
    · have hc := hpiece c (by simp)
      rw [hapart c (by rw [hcall]; rfl), hspace] at hc
      cases hc
  · -- the bracket would stand in the operand, or behind it
    rcases List.append_eq_append_iff.1 hcall with ⟨q', rfl, hbehind⟩ | ⟨q', rfl, hbehind⟩
    · rcases q' with _ | ⟨c, q'⟩
      · have hnil : Resumes ([] ++ '(' :: more) := by
          rw [hbehind]
          exact htail
        exact not_call_of_resumes hnil nofun
      · cases (List.cons.inj hbehind).1
        rw [hfront '(' (by simp)] at hbracket
        cases hbracket
    · exact not_call_of_resumes (hbehind ▸ htail) fun c hc => hblanks c (by simp [hc])

theorem EndsWord.not_isWord (ht : t.EndsWord) (hfree : t.pattern.unconditional = true)
    (h : t.Finds x tail) : ∀ c ∈ tail.head?, Text.isWord c = false := by
  rcases ht with hword | hcall | hpath
  · exact (follows_endOfWord_iff hword).1 h.follows
  · obtain ⟨blanks, more, rfl, hblanks⟩ := (follows_call_iff hcall).1 h.follows
    rcases blanks with _ | ⟨b, blanks⟩
    · rintro c ⟨⟩
      decide
    · rintro c ⟨⟩
      exact not_isWord_of_isBlank (hblanks _ List.mem_cons_self)
  · have htakes := h.takes hfree
    have hconsume := h.consume
    rw [hpath] at htakes hconsume
    exact not_isWord_of_consume_path htakes hconsume

/-- **A pattern that misses a token misses it with a space behind it as well**, if it yields to the
pattern that finds the token. -/
theorem Yields.misses (hu : u.Yields t) {state target : Nat}
    (hnext : expressionGrammar.next? state t.kind = some target)
    (hufree : u.pattern.unconditional = true) (htfree : t.pattern.unconditional = true)
    (h : t.Finds x tail) (hmiss : expressionGrammar.next? state u.kind = none ∨ u.Misses (x ++ tail))
    (hapart : Apart tail') (htail : t.kind = .operand → Resumes tail') :
    expressionGrammar.next? state u.kind = none ∨ u.Misses (x ++ tail') := by
  rcases hmiss with hnone | hmiss
  · exact .inl hnone
  rcases hu with helsewhere | hunguarded | ⟨hword, hend⟩ | hlacks | hstarts | hcall
  · have hstate : state < 2 := by rcases state_of_next? hnext with rfl | rfl <;> decide
    rcases helsewhere state hstate with hnone | hnone
    · rw [hnext] at hnone
      cases hnone
    · exact .inl hnone
  · exact .inr (hunguarded.misses hufree hmiss hapart)
  · exact .inr (hword.misses hmiss hapart (hend.not_isWord htfree h))
  · exact .inr (hlacks.misses (h.takes htfree) hapart)
  · exact .inr (hstarts.misses (h.takes htfree) tail')
  · exact .inr (hcall.misses (h.takes htfree) hapart (htail hcall.2.2.1))

/-! ### The pattern that finds a token -/

/-- The patterns of tokens that end at a quote or a bracket of their own. -/
def delimited : List Pattern := [Operand.string, Operand.quotedDateTime, Operand.list]

/-- A space behind a token does not matter to the pattern that finds it. -/
theorem Finds.consume_apart (h : t.Finds x tail) (hfree : t.pattern.unconditional = true)
    (hspace : t.pattern.mayTake ' ' = false ∨ t.pattern ∈ delimited) (hapart : Apart tail') :
    t.pattern.consume (x ++ tail') some = some tail' := by
  have htakes := h.takes hfree
  simp only [delimited, List.mem_cons, List.not_mem_nil, or_false] at hspace
  rcases hspace with hspace | hstring | hquoted | hlist
  · have htail : ∀ c ∈ tail'.head?, t.pattern.mayTake c = false := fun c hc => hapart c hc ▸ hspace
    exact (Pattern.consume_carries hfree htail x).of_some [] h.consume
  · rw [hstring] at htakes ⊢
    obtain ⟨s, rfl⟩ := Operand.takes_string htakes
    have hquote : tail'.head? ≠ some '\x27' := fun hc => absurd (hapart _ hc) (by decide)
    simpa using Operand.consume_string s hquote
  · rw [hquoted] at htakes ⊢
    obtain ⟨word, body, rfl, hword, hbody⟩ := Operand.takes_quotedDateTime.1 htakes
    simpa using Operand.consume_quotedDateTime hword hbody tail'
  · rw [hlist] at htakes ⊢
    obtain ⟨body, rfl, hbody⟩ := Operand.takes_list.1 htakes
    simpa using Operand.consume_list hbody tail'

end TokenPattern

open TokenPattern

/-! ### Patterns of a dialect -/

/-- What makes the patterns of a dialect find the tokens of a text again with spaces in between. -/
structure Spaceable (ts : List (TokenPattern TokenKind)) : Prop where
  plain : ∀ t ∈ ts, t.plain = true ∧ t.pattern.unconditional = true ∧ t.pattern.advances = true
  /-- No token but a delimited one has a space in it. -/
  space : ∀ t ∈ ts, t.pattern.mayTake ' ' = false ∨ t.pattern ∈ delimited
  /-- Only the guard of methods asks for more than the end of a word. -/
  follow : ∀ t ∈ ts, t.follow = none ∨ t.follow = some .endOfWord ∨
    t.follow = some .openingOfCall ∧ expressionGrammar.next? 1 t.kind = none ∧
      expressionGrammar.next? 0 t.kind = some 0
  /-- A method is found in front of a bracket only. -/
  call : ∀ t ∈ ts, t.kind = .method → t.follow = some .openingOfCall
  /-- The opening bracket comes first. -/
  bracket : ts.head? = some ⟨.bracketOpen, .spelled "(", none⟩
  /-- No opening bracket stands behind an operand. -/
  closed : ∀ t ∈ ts, expressionGrammar.next? 1 t.kind = none ∨ t.pattern.mayStart '(' = false
  pairwise : ts.Pairwise Yields

instance (ts : List (TokenPattern TokenKind)) : Decidable (Spaceable ts) :=
  decidable_of_iff (_ ∧ _ ∧ _ ∧ _ ∧ _ ∧ _ ∧ _)
    ⟨fun ⟨h₁, h₂, h₃, h₄, h₅, h₆, h₇⟩ => ⟨h₁, h₂, h₃, h₄, h₅, h₆, h₇⟩,
      fun ⟨h₁, h₂, h₃, h₄, h₅, h₆, h₇⟩ => ⟨h₁, h₂, h₃, h₄, h₅, h₆, h₇⟩⟩

/-- The built-in dialects have such patterns. -/
theorem exists_spaceable {draft : DialectDraft} (h : draft ∈ DialectDraft.builtins) :
    ∃ ts, draft.build = .ok (.ofDraft draft ts) ∧ Spaceable ts := by
  simp only [DialectDraft.builtins, List.mem_cons, List.not_mem_nil, or_false] at h
  rcases h with rfl | rfl | rfl | rfl
  · exact ⟨OperatorNames.patterns OperatorNames.odata, build_odata, by decide +kernel⟩
  · exact ⟨OperatorNames.patterns OperatorNames.java, build_java, by decide +kernel⟩
  · exact ⟨OperatorNames.patterns OperatorNames.sharp, build_sharp, by decide +kernel⟩
  · exact ⟨OperatorNames.patterns OperatorNames.sql, build_sql, by decide +kernel⟩

/-! ### Scanning again -/

/-- The texts of tokens, each with a space in front of it. -/
def spacedText (ts : List (Token TokenKind)) : List Char := ts.flatMap fun t => ' ' :: t.text.toList

theorem apart_spacedText (ts : List (Token TokenKind)) : Apart (spacedText ts) := by
  rcases ts with _ | ⟨t, ts⟩
  · exact nofun
  · rintro c ⟨⟩
    rfl

/-- Single spaces between texts are a space in front of each but the first. -/
theorem toList_join_spaces (t : Token TokenKind) (ts : List (Token TokenKind)) :
    (join " " ((t :: ts).map (·.text))).toList = t.text.toList ++ spacedText ts := by
  induction ts generalizing t with
  | nil => simp [join, spacedText]
  | cons u ts ih =>
    have hrest := ih u
    rw [List.map_cons] at hrest
    rw [List.map_cons, List.map_cons, join]
    · simp [hrest, spacedText]
    · simp

/-- A piece behind blanks starts with no blank. -/
theorem exists_cons_of_dropWhile {text x tail : List Char}
    (h : text.dropWhile isBlank = x ++ tail) (hx : 0 < x.length) :
    ∃ c run, x = c :: run ∧ isBlank c = false := by
  obtain ⟨c, run, rfl⟩ := List.exists_cons_of_length_pos hx
  have hnot := List.head?_dropWhile_not isBlank text
  rw [h] at hnot
  exact ⟨c, run, rfl, hnot⟩

namespace Spaceable

variable {patterns : List (TokenPattern TokenKind)} {ts : List (Token TokenKind)}
  {text : List Char} {offset state target : Nat} {c : Candidate TokenKind}

/-- What is picked is picked again in front of a space, if the guard of methods and what comes behind
an operand are as they have to be. -/
theorem exists_piece (hp : Spaceable patterns)
    (h : pick? expressionGrammar (patterns.map definition) text state = some (c, target)) :
    ∃ x tail, ∃ t ∈ patterns, text = x ++ tail ∧ x.length = c.size ∧ t.Finds x tail ∧
      expressionGrammar.next? state t.kind = some target ∧
      ∀ tail', Apart tail' → (t.kind = .operand → Resumes tail') →
        (t.follow = some .openingOfCall → ∃ more, tail' = ' ' :: '(' :: more) →
        pick? expressionGrammar (patterns.map definition) (x ++ tail') state = some (c, target) := by
  obtain ⟨before, t, after, x, tail, hsplit, rfl, hsize, hkind, hconsume, hfollow, hnext, hbefore⟩ :=
    exists_split_of_pick? (fun t ht => (hp.plain t ht).1) h
  have ht : t ∈ patterns := by simp [hsplit]
  have hfinds : t.Finds x tail := ⟨hconsume, hfollow⟩
  obtain ⟨-, hfree, -⟩ := hp.plain t ht
  refine ⟨x, tail, t, ht, rfl, hsize, hfinds, hnext, fun tail' hapart hresumes hcall => ?_⟩
  have hne : x ≠ [] := List.length_pos_iff.1 (hsize ▸ c.size_pos)
  have hfollow' : t.Follows tail' := by
    rcases hp.follow t ht with hnone | hword | ⟨hmethod, -⟩
    · intro q hq
      rw [hnone] at hq
      cases hq
    · exact (follows_endOfWord_iff hword).2 fun c hc => hapart c hc ▸ by decide
    · obtain ⟨more, rfl⟩ := hcall hmethod
      exact (follows_call_iff hmethod).2 ⟨[' '], more, rfl, by decide⟩
  -- every pattern before the one that finds the piece yields to it
  have hpairwise := hp.pairwise
  rw [hsplit] at hpairwise ⊢
  have hmisses : ∀ u ∈ before,
      expressionGrammar.next? state u.kind = none ∨ u.Misses (x ++ tail') := by
    intro u hu
    obtain ⟨huplain, hufree, huadvances⟩ := hp.plain u (by simp [hsplit, hu])
    have hyields : u.Yields t :=
      (List.pairwise_append.1 hpairwise).2.2 u hu t List.mem_cons_self
    exact hyields.misses hnext hufree hfree hfinds
      ((hbefore u hu).imp_right (misses_of_candidate? huplain huadvances)) hapart hresumes
  rw [pick?_eq_some (fun u hu => (hp.plain u (hsplit ▸ hu)).1) hmisses hne
    (hfinds.consume_apart hfree (hp.space t ht) hapart) hfollow' hnext]
  obtain ⟨kind, size, hpos⟩ := c
  simp only [Option.some.injEq, Prod.mk.injEq, Candidate.mk.injEq, and_true]
  exact ⟨hkind.symm, hsize⟩

/-- Behind an operand comes no opening bracket. -/
theorem resumes_spacedText (hp : Spaceable patterns)
    (h : tokensFrom expressionGrammar (patterns.map definition) offset text 1 = .ok ts) :
    Resumes (spacedText ts) := by
  rcases ts with _ | ⟨u, ts⟩
  · trivial
  obtain ⟨rest, c, target, _, hrest, -, hpick, -, htext, -⟩ := exists_pick_of_tokensFrom_cons h
  obtain ⟨x, tail, t, ht, rfl, hsize, hfinds, hnext, -⟩ := hp.exists_piece hpick
  rw [Candidate.text, ← hsize, List.take_left] at htext
  obtain ⟨d, run, rfl, hblank⟩ := exists_cons_of_dropWhile hrest (hsize ▸ c.size_pos)
  have hstart : t.pattern.mayStart d = true := by
    obtain ⟨-, hfree, -⟩ := hp.plain t ht
    rcases (hfinds.takes hfree).mayStart with hnil | ⟨_, _, heq, hstart⟩
    · cases hnil
    · cases heq
      exact hstart
  have hbracket : d ≠ '(' := by
    rintro rfl
    rcases hp.closed t ht with hnone | hno
    · rw [hnext] at hnone
      cases hnone
    · rw [hno] at hstart
      cases hstart
  have hspaced : spacedText (u :: ts) = ' ' :: d :: (run ++ spacedText ts) := by
    simp [spacedText, htext]
  rw [hspaced]
  exact ⟨hblank, hbracket⟩

/-- Where a bracket is opened, the bracket is the first token. -/
theorem exists_cons_of_bracket (hp : Spaceable patterns) {blanks more : List Char}
    (hblanks : ∀ c ∈ blanks, isBlank c = true)
    (h : tokensFrom expressionGrammar (patterns.map definition) offset (blanks ++ '(' :: more) 0 =
      .ok ts) : ∃ b us, ts = b :: us ∧ b.kind = .bracketOpen ∧ b.text = "(" := by
  obtain ⟨patterns, rfl⟩ := List.head?_eq_some_iff.1 hp.bracket
  have hdrop : (blanks ++ '(' :: more).dropWhile isBlank = '(' :: more := by
    rw [List.dropWhile_append_of_pos hblanks, List.dropWhile_cons_of_neg (by decide)]
  have hcandidate : (definition ⟨.bracketOpen, .spelled "(", none⟩).candidate? ('(' :: more) =
      some ⟨TokenKind.bracketOpen, 1, Nat.one_pos⟩ :=
    (candidate?_eq_some_iff rfl).2 ⟨['('], more, rfl, rfl, nofun, rfl, rfl⟩
  have hpick : pick? expressionGrammar
      ((⟨.bracketOpen, .spelled "(", none⟩ :: patterns).map definition) ('(' :: more) 0 =
        some (⟨.bracketOpen, 1, Nat.one_pos⟩, 0) := by
    rw [List.map_cons, pick?, List.findSome?_cons, hcandidate]
    rfl
  rw [tokensFrom_pick hdrop (by simp) hpick] at h
  obtain ⟨us, -, rfl⟩ := map_eq_ok_iff.1 h
  exact ⟨_, us, rfl, rfl, rfl⟩

/-- **The tokens of a text with spaces in between are the same tokens again.** -/
theorem tokensFrom_spacedText (hp : Spaceable patterns)
    (h : tokensFrom expressionGrammar (patterns.map definition) offset text state = .ok ts)
    (offset' : Nat) {text' : List Char}
    (htext' : text'.dropWhile isBlank = (spacedText ts).dropWhile isBlank) :
    ∃ us, tokensFrom expressionGrammar (patterns.map definition) offset' text' state = .ok us ∧
      us.map (fun t => (t.kind, t.text)) = ts.map fun t => (t.kind, t.text) := by
  -- both scans take the same choice, so they stay in the same state
  induction ts generalizing offset text state offset' text' with
  | nil => exact ⟨[], tokensFrom_blank htext', rfl⟩
  | cons u ts ih =>
    obtain ⟨rest, c, target, _, hrest, hne, hpick, hkind, htext, hts⟩ :=
      exists_pick_of_tokensFrom_cons h
    obtain ⟨x, tail, t, ht, rfl, hsize, hfinds, hnext, hagain⟩ := hp.exists_piece hpick
    rw [Candidate.text, ← hsize, List.take_left] at htext
    rw [← hsize, List.drop_left] at hts
    obtain ⟨d, run, rfl, hblank⟩ := exists_cons_of_dropWhile hrest (hsize ▸ c.size_pos)
    have hpick' := hagain (spacedText ts) (apart_spacedText ts) ?_ ?_
    · have hrest' : text'.dropWhile isBlank = d :: run ++ spacedText ts := by
        rw [htext']
        simp [spacedText, htext, hblank, show isBlank ' ' = true from rfl]
      obtain ⟨us, hus, hmap⟩ := ih hts _ rfl
      rw [tokensFrom_pick hrest' (by simp) hpick', Candidate.text, ← hsize, List.take_left,
        List.drop_left, hus]
      exact ⟨_, rfl, by simp [hmap, hkind, htext]⟩
    · -- an operand is read in front of one only
      intro hoperand
      rw [hoperand] at hnext
      rcases state_of_next? hnext with rfl | rfl
      · cases hnext
        exact hp.resumes_spacedText hts
      · cases hnext
    · -- the bracket behind a method is a token, the next one
      intro hcall
      rcases hp.follow t ht with hno | hno | ⟨-, hone, hzero⟩
      · rw [hcall] at hno
        cases hno
      · rw [hcall] at hno
        cases hno
      obtain ⟨blanks, more, rfl, hblanks⟩ := (follows_call_iff hcall).1 hfinds.follows
      rcases state_of_next? hnext with rfl | rfl
      · rw [hzero] at hnext
        cases hnext
        obtain ⟨b, us, rfl, -, hbracket⟩ := hp.exists_cons_of_bracket hblanks hts
        exact ⟨spacedText us, by simp [spacedText, hbracket]⟩
      · rw [hone] at hnext
        cases hnext

end Spaceable

/-- **Spaces between tokens do not matter.** In every built-in dialect the texts of the tokens of an
input, joined with single spaces, are split into tokens of the same categories and texts again. So
they are parsed to the same tree, or parsing fails in the same way up to offsets. -/
theorem tokenize_join_spaces {draft : DialectDraft} (hd : draft ∈ DialectDraft.builtins)
    {d : Dialect} (hbuild : draft.build = .ok d) {input : String} {ts : List (Token TokenKind)}
    (h : d.tokenize input = .ok ts) :
    ∃ us, d.tokenize (join " " (ts.map (·.text))) = .ok us ∧
      us.map (fun t => (t.kind, t.text)) = ts.map (fun t => (t.kind, t.text)) ∧
      (d.parse (join " " (ts.map (·.text)))).mapError (SyntaxError.moved fun _ => 0) =
        (d.parse input).mapError (SyntaxError.moved fun _ => 0) := by
  obtain ⟨patterns, hpatterns, hp⟩ := exists_spaceable hd
  rw [hbuild] at hpatterns
  cases hpatterns
  have htokens : tokensFrom expressionGrammar (patterns.map definition) 0 input.toList 0 = .ok ts := h
  have hjoin : (join " " (ts.map (·.text))).toList.dropWhile isBlank =
      (spacedText ts).dropWhile isBlank := by
    rcases ts with _ | ⟨t, ts⟩
    · rfl
    · rw [toList_join_spaces]
      rfl
  obtain ⟨us, hus, hmap⟩ := hp.tokensFrom_spacedText htokens 0 hjoin
  have htokenize : (Dialect.ofDraft draft patterns).tokenize (join " " (ts.map (·.text))) = .ok us :=
    hus
  refine ⟨us, htokenize, hmap, ?_⟩
  rw [Dialect.parse, Dialect.parse, htokenize, h, ok_bind, ok_bind]
  exact Postfix.mapError_of_alike hmap

/-- Of `!(a==-1)` the hyphen is a sign, and so it is with spaces in between. -/
theorem tokenize_join_spaces_sign :
    ∃ us, Dialect.java.tokenize "! ( a == -1 )" = .ok us ∧
      us.map (fun t => (t.kind, t.text)) =
        [(.unaryOperator, "!"), (.bracketOpen, "("), (.operand, "a"), (.binaryOperator, "=="),
          (.operand, "-1"), (.bracketClose, ")")] ∧
      (Dialect.java.parse "! ( a == -1 )").mapError (SyntaxError.moved fun _ => 0) =
        (Dialect.java.parse "!(a==-1)").mapError (SyntaxError.moved fun _ => 0) := by
  have hjava : DialectDraft.java ∈ DialectDraft.builtins := by simp [DialectDraft.builtins]
  have htokens : Dialect.java.tokenize "!(a==-1)" =
      .ok [⟨.unaryOperator, "!", 0⟩, ⟨.bracketOpen, "(", 1⟩, ⟨.operand, "a", 2⟩,
        ⟨.binaryOperator, "==", 3⟩, ⟨.operand, "-1", 5⟩, ⟨.bracketClose, ")", 7⟩] := by decide +kernel
  exact tokenize_join_spaces hjava build_java htokens

end Criteria

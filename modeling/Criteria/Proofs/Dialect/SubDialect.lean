import Criteria.Proofs.Dialect.Operands
import Criteria.Proofs.Expression.Balance

/-!
# `java` is a part of `sharp`

Whatever `java` parses, `sharp` parses to the same tree. The two dialects scan alike as long as none
of the patterns that only `sharp` has comes first. Words between operands stand behind the symbols,
and where `java` has no symbol it stops. A method stands in front of the operands; but where one is
found, what `java` takes in its place is the name of a field, and behind that comes an opening
bracket, where `java` stops as well (`java_stops_at_call`).
-/

namespace Criteria

open Text Scanner TokenPattern

/-! ### Blanks -/

/-- The code points of blanks. -/
def blankCodes : List Nat :=
  [0x09, 0x0A, 0x0B, 0x0C, 0x0D, 0x20, 0x85, 0xA0, 0x1680, 0x2000, 0x2001, 0x2002, 0x2003, 0x2004,
    0x2005, 0x2006, 0x2007, 0x2008, 0x2009, 0x200A, 0x2028, 0x2029, 0x202F, 0x205F, 0x3000]

theorem mem_blankCodes {c : Char} (h : isBlank c = true) : c.toNat ∈ blankCodes := by
  unfold isBlank at h
  simp only [blankCodes, List.mem_cons, List.not_mem_nil, or_false]
  split_ifs at h with hc
  · simp only [Bool.or_eq_true, beq_iff_eq, Bool.and_eq_true, decide_eq_true_eq, Char.le_def,
      UInt32.le_iff_toNat_le] at h
    rcases h with rfl | ⟨h1, h2⟩
    · decide
    · change 9 ≤ c.toNat at h1
      change c.toNat ≤ 13 at h2
      omega
  · simp only [blankRanges, Ranges.contains_cons, Ranges.contains_nil, Bool.or_false] at h
    split_ifs at h <;> simp only [Bool.or_eq_true, decide_eq_true_eq, Bool.false_eq_true, or_false] at h <;> omega

/-- No blank stands in a path. -/
theorem endsPath_of_isBlank {c : Char} (h : isBlank c = true) (more : List Char) :
    Operand.EndsPath (c :: more) := by
  have table : ∀ n ∈ blankCodes, Operand.pathChar.contains (Char.ofNat n) = false ∧
      Operand.pathSeparator.contains (Char.ofNat n) = false := by decide +kernel
  rintro d ⟨⟩
  simpa using table c.toNat (mem_blankCodes h)

/-! ### Where a method is found -/

/-- What follows the name of a method are blanks and an opening bracket. -/
theorem follows_call_iff {t : TokenPattern TokenKind} (ht : t.follow = some .openingOfCall)
    {tail : List Char} : t.Follows tail ↔
      ∃ blanks more, tail = blanks ++ '(' :: more ∧ ∀ c ∈ blanks, isBlank c = true := by
  have htakes {rest : List Char} : Pattern.openingOfCall.Takes tail rest ↔
      ∃ blanks, tail = blanks ++ '(' :: rest ∧ ∀ c ∈ blanks, isBlank c = true := by
    simp only [Pattern.openingOfCall, Pattern.char, Pattern.takes_seq, Pattern.takes_star_one,
      Pattern.takes_one, CharSet.contains_only, beq_iff_eq]
    constructor
    · rintro ⟨_, ⟨blanks, rfl, hblanks⟩, c, rfl, rfl⟩
      exact ⟨blanks, rfl, hblanks⟩
    · rintro ⟨blanks, rfl, hblanks⟩
      exact ⟨_, ⟨blanks, rfl, hblanks⟩, _, rfl, rfl⟩
  constructor
  · intro h
    obtain ⟨a, ha⟩ := Option.isSome_iff_exists.1 (h _ ht)
    obtain ⟨rest, ht, -⟩ := Pattern.exists_takes_of_consume ha
    obtain ⟨blanks, htail, hblanks⟩ := htakes.1 ht
    exact ⟨blanks, rest, htail, hblanks⟩
  · rintro ⟨blanks, more, htail, hblanks⟩ q hq
    rw [ht] at hq
    cases hq
    exact Pattern.isSome_consume rfl (htakes.2 ⟨blanks, htail, hblanks⟩) rfl

/-- A method is found at its name if blanks and an opening bracket follow. -/
theorem method_found {text tail : List Char}
    (h : method.pattern.consume text some = some tail) (hf : method.Follows tail) :
    ∃ name ∈ methodNames, ∃ piece blanks more, text = piece ++ tail ∧
      Pattern.Spells (name.toList.map Pattern.letterSet) piece ∧
      tail = blanks ++ '(' :: more ∧ ∀ c ∈ blanks, isBlank c = true := by
  obtain ⟨rest, ht, heq⟩ := Pattern.exists_takes_of_consume h
  cases heq
  obtain ⟨name, hname, ht⟩ := (Pattern.takes_spelledAny (by decide)).1 ht
  obtain ⟨piece, rfl, hpiece⟩ := Pattern.takes_spelled.1 ht
  obtain ⟨blanks, more, rfl, hblanks⟩ := (follows_call_iff rfl).1 hf
  exact ⟨name, hname, piece, blanks, more, rfl, hpiece, rfl, hblanks⟩

/-- The characters that may stand for those of the name of a method: they may stand in a path, and
the first two of them start no other token that `java` tries before paths. -/
theorem variants_methodNames : ∀ name ∈ methodNames,
    (∀ l ∈ name.toList, l.toNat < 128 ∧ ∀ v ∈ caseVariants l,
      Operand.pathChar.contains v = true) ∧
    ∃ a b more, name.toList = a :: b :: more ∧ ∀ v ∈ caseVariants a,
      Operand.pathStart.contains v = true ∧ ∀ t ∈ punctuation ++ [negation] ++ literals,
        t.pattern.advances = true ∧ (t.pattern.mayStart v = false ∨
          t.pattern = Operand.guid ∧ ∀ w ∈ caseVariants b, Operand.hexDigit.mayStart w = false) := by
  simp only [methodNames, List.forall_mem_cons]
  refine ⟨?_, ?_, ?_, ?_, ?_, ?_, ?_, nofun⟩ <;>
    exact ⟨by decide, _, _, _, rfl, by decide⟩

/-- An identifier starts with two hexadecimal digits. -/
theorem guid_consume_eq_none {c d : Char} (hd : Operand.hexDigit.mayStart d = false)
    (more : List Char) : Operand.guid.consume (c :: d :: more) some = none := by
  obtain ⟨set, sets, hset, hsets⟩ : ∃ set sets, Operand.hexDigit = .one set ∧
      Operand.guid.sets? = some (set :: set :: sets) := ⟨_, _, rfl, rfl⟩
  rw [Pattern.consume_of_sets? hsets]
  rw [hset, Pattern.mayStart] at hd
  simp [Pattern.behind, hd]

/-- At the name of a method nothing that `java` tries before paths matches, and the characters of
the name may stand in a path. -/
theorem spells_method {name : String} (hname : name ∈ methodNames) {piece : List Char}
    (h : Pattern.Spells (name.toList.map Pattern.letterSet) piece) (tail : List Char) :
    (∃ c run, piece = c :: run ∧ Operand.pathStart.contains c = true ∧
      ∀ d ∈ run, Operand.pathChar.contains d = true) ∧
    ∀ t ∈ punctuation ++ [negation] ++ literals, t.Misses (piece ++ tail) := by
  obtain ⟨hall, a, b, more, hchars, hfirst⟩ := variants_methodNames name hname
  have hpath : ∀ d ∈ piece, Operand.pathChar.contains d = true := by
    intro d hd
    obtain ⟨set, hset, hd⟩ := h.exists_of_mem hd
    obtain ⟨l, hl, rfl⟩ := List.mem_map.1 hset
    exact (hall l hl).2 d (Pattern.contains_letterSet (hall l hl).1 hd)
  rw [hchars] at h hall
  rw [List.map_cons, List.map_cons] at h
  obtain ⟨x, rest, hx, hrest, rfl⟩ := List.forall₂_cons_left_iff.1 h
  obtain ⟨y, rest, hy, hmore, rfl⟩ := List.forall₂_cons_left_iff.1 hrest
  have hxa := Pattern.contains_letterSet (hall a (by simp)).1 hx
  have hyb := Pattern.contains_letterSet (hall b (by simp)).1 hy
  refine ⟨⟨x, y :: rest, rfl, (hfirst x hxa).1, fun d hd => hpath d (List.mem_cons_of_mem x hd)⟩,
    fun t ht => misses_of_consume ?_⟩
  obtain ⟨hadv, hstart | ⟨heq, hsecond⟩⟩ := (hfirst x hxa).2 t ht
  · exact Pattern.consume_eq_none_of_mayStart hadv hstart
  · rw [heq]
    exact guid_consume_eq_none (hsecond y hyb) (rest ++ tail)

/-- Where a method is found, `java` takes the name of a field. -/
theorem java_picks_name {name : String} (hname : name ∈ methodNames) {piece tail : List Char}
    (h : Pattern.Spells (name.toList.map Pattern.letterSet) piece) (ht : Operand.EndsPath tail)
    (hne : piece ≠ []) :
    pick? expressionGrammar (java.map definition) (piece ++ tail) 0 =
      some (⟨.operand, piece.length, List.length_pos_iff.2 hne⟩, 1) := by
  obtain ⟨⟨c, run, rfl, hc, hrun⟩, hmiss⟩ := spells_method hname h tail
  have hsplit : java = (punctuation ++ [negation, symbol] ++ literals) ++ path :: [] := by
    simp [java, operands]
  rw [hsplit]
  refine pick?_eq_some (by decide) ?_ hne ?_ (by simp [Follows, path]) rfl
  · intro u hu
    simp only [List.mem_append, List.mem_cons, List.not_mem_nil, or_false] at hu
    rcases hu with (hu | rfl | rfl) | hu
    · exact .inr (hmiss u (by simp [hu]))
    · exact .inr (hmiss _ (by simp))
    · exact .inl rfl
    · exact .inr (hmiss u (by simp [hu]))
  · have hsegments : Operand.Segments [] := by simp [Operand.Segments]
    exact Operand.consume_path hc hrun hsegments ht

/-- Behind an operand `java` has nothing for an opening bracket. -/
theorem java_picks_no_bracket (more : List Char) :
    pick? expressionGrammar (java.map definition) ('(' :: more) 1 = none := by
  refine pick?_eq_none (by decide) fun t ht => ?_
  have table : ∀ t ∈ java, expressionGrammar.next? 1 t.kind = none ∨
      t.pattern.advances = true ∧ t.pattern.mayStart '(' = false := by decide
  exact (table t ht).imp_right fun ⟨hadv, hstart⟩ =>
    misses_of_consume (Pattern.consume_eq_none_of_mayStart hadv hstart)

/-- Where a method is found, `java` stops. -/
theorem java_stops_at_call (offset : Nat) {text rest tail : List Char}
    (hrest : text.dropWhile isBlank = rest)
    (h : method.pattern.consume rest some = some tail) (hf : method.Follows tail) :
    ∃ e, tokensFrom expressionGrammar (java.map definition) offset text 0 = .error e := by
  obtain ⟨name, hname, piece, blanks, more, rfl, hpiece, rfl, hblanks⟩ := method_found h hf
  have hne : piece ≠ [] := by
    obtain ⟨⟨c, run, rfl, -⟩, -⟩ := spells_method hname hpiece []
    simp
  have hends : Operand.EndsPath (blanks ++ '(' :: more) := by
    rcases blanks with _ | ⟨c, blanks⟩
    · rintro c ⟨⟩
      decide
    · exact endsPath_of_isBlank (hblanks c List.mem_cons_self) _
  rw [tokensFrom_pick hrest (by simp [hne]) (java_picks_name hname hpiece hends hne)]
  simp only [List.drop_left]
  have hdrop : (blanks ++ '(' :: more).dropWhile isBlank = '(' :: more := by
    rw [List.dropWhile_append_of_pos hblanks, List.dropWhile_cons_of_neg (by decide)]
  obtain ⟨e, he⟩ := tokensFrom_stuck (offset + byteLength (text.takeWhile isBlank) +
    byteLength ((piece ++ (blanks ++ '(' :: more)).take piece.length)) hdrop (by simp)
    (java_picks_no_bracket more)
  rw [he]
  exact ⟨e, rfl⟩

/-! ### Scanning alike -/

/-- Where no method is found, `sharp` finds in front of an operand what `java` finds. -/
theorem sharp_picks_operand {text : List Char} (h : method.definition.candidate? text = none) :
    pick? expressionGrammar (sharp.map definition) text 0 =
      pick? expressionGrammar (java.map definition) text 0 := by
  have hmethod : pick? expressionGrammar ([method].map definition) text 0 = none := by
    simp [pick?, h]
  have hword : pick? expressionGrammar ([word].map definition) text 0 = none :=
    pick?_eq_none (by decide) fun t ht => .inl (by simp_all [word]; rfl)
  simp only [sharp, java, List.map_append, pick?_append] at hmethod hword ⊢
  rw [hmethod, Option.or_none, hword, Option.or_none]

/-- Behind an operand `sharp` finds what `java` finds. -/
theorem sharp_picks_operator {text : List Char} {r : Candidate TokenKind × Nat}
    (h : pick? expressionGrammar (java.map definition) text 1 = some r) :
    pick? expressionGrammar (sharp.map definition) text 1 = some r := by
  have hmethod : pick? expressionGrammar ([method].map definition) text 1 = none :=
    pick?_eq_none (by decide) fun t ht => .inl (by simp_all [method]; rfl)
  have hoperands : pick? expressionGrammar (operands.map definition) text 1 = none := by
    refine pick?_eq_none (by decide) fun t ht => .inl ?_
    have table : ∀ t ∈ operands, expressionGrammar.next? 1 t.kind = none := by decide
    exact table t ht
  simp only [sharp, java, List.map_append, pick?_append] at h hmethod hoperands ⊢
  rw [hoperands, Option.or_none] at h
  rw [hmethod, Option.or_none, hoperands, Option.or_none, h, Option.some_or]

/-- **What `java` splits into tokens, `sharp` splits into the same tokens.** -/
theorem tokensFrom_sharp_of_java {offset state : Nat} {text : List Char}
    {ts : List (Token TokenKind)}
    (h : tokensFrom expressionGrammar (java.map definition) offset text state = .ok ts) :
    tokensFrom expressionGrammar (sharp.map definition) offset text state = .ok ts := by
  generalize hn : text.length = n
  induction n using Nat.strongRecOn generalizing offset state text ts with
  | ind n ih =>
  subst hn
  by_cases hne : text.dropWhile isBlank = []
  · rw [tokensFrom_blank hne] at h ⊢
    exact h
  cases hpick : pick? expressionGrammar (java.map definition) (text.dropWhile isBlank) state with
  | none =>
    obtain ⟨e, he⟩ := tokensFrom_stuck offset rfl hne hpick
    rw [he] at h
    cases h
  | some r =>
    obtain ⟨c, target⟩ := r
    have hsharp : pick? expressionGrammar (sharp.map definition) (text.dropWhile isBlank) state =
        some (c, target) := by
      match state with
      | 0 =>
        cases hmethod : method.definition.candidate? (text.dropWhile isBlank) with
        | none => rw [sharp_picks_operand hmethod, hpick]
        | some m =>
          obtain ⟨piece, tail, -, htake, hf, -⟩ :=
            (candidate?_eq_some_iff (by decide)).1 hmethod
          obtain ⟨e, he⟩ := java_stops_at_call offset rfl htake hf
          rw [he] at h
          cases h
      | 1 => exact sharp_picks_operator hpick
      | state + 2 =>
        rw [pick?_eq_none (by decide) fun t ht => .inl rfl] at hpick
        cases hpick
    rw [tokensFrom_pick rfl hne hpick] at h
    rw [tokensFrom_pick rfl hne hsharp]
    obtain ⟨us, hus, rfl⟩ := map_eq_ok_iff.1 h
    have hlt : ((text.dropWhile isBlank).drop c.size).length < text.length :=
      Nat.lt_of_lt_of_le (c.drop_length_lt hne) (List.dropWhile_sublist _).length_le
    exact map_eq_ok_iff.2 ⟨us, ih _ hlt hus rfl, rfl⟩

/-! ### Putting in order alike -/

/-- Spellings of further operators change nothing in an expression that does without them. -/
theorem Postfix.reorderFrom_mono {d d' : Dialect}
    (hd : ∀ t op, lookUp d t = .ok op → lookUp d' t = .ok op) {stack : List Waiting}
    {ts : List (Token TokenKind)} {sequence : List Item}
    (h : reorderFrom d stack ts = .ok sequence) : reorderFrom d' stack ts = .ok sequence := by
  fun_induction reorderFrom d stack ts generalizing sequence with
  | case1 stack =>
    rw [reorderFrom]
    exact h
  | case2 stack t ts hk ih | case3 stack t ts hk ih =>
    obtain ⟨rest, hr, h⟩ := bind_eq_ok_iff.1 h
    rw [reorderFrom, hk]
    exact bind_eq_ok_iff.2 ⟨rest, ih hr, h⟩
  | case4 stack t ts hk ih =>
    obtain ⟨op, hop, h⟩ := bind_eq_ok_iff.1 h
    rw [reorderFrom, hk]
    exact bind_eq_ok_iff.2 ⟨op, hd t op hop, ih op h⟩
  | case5 stack t ts hk ih =>
    obtain ⟨op, hop, h⟩ := bind_eq_ok_iff.1 h
    obtain ⟨rest, hr, h⟩ := bind_eq_ok_iff.1 h
    rw [reorderFrom, hk]
    exact bind_eq_ok_iff.2 ⟨op, hd t op hop, bind_eq_ok_iff.2 ⟨rest, ih op _ hr, h⟩⟩
  | case6 stack t ts hk ih =>
    obtain ⟨op, hop, h⟩ := bind_eq_ok_iff.1 h
    rcases ts with _ | ⟨b, ts⟩
    · cases h
    · by_cases hb : b.kind = .bracketOpen
      · simp only [hb, if_true] at h
        rw [reorderFrom, hk]
        refine bind_eq_ok_iff.2 ⟨op, hd t op hop, ?_⟩
        simp only [hb, if_true]
        exact ih op h
      · simp only [hb, if_false] at h
        cases h
  | case7 stack t ts hk ih =>
    rw [reorderFrom, hk]
    exact ih h
  | case8 stack t ts hk ih | case9 stack t ts hk ih =>
    obtain ⟨r, hc, h⟩ := bind_eq_ok_iff.1 h
    obtain ⟨rest, hr, h⟩ := bind_eq_ok_iff.1 h
    rw [reorderFrom, hk]
    exact bind_eq_ok_iff.2 ⟨r, hc, bind_eq_ok_iff.2 ⟨rest, ih r.2 hr, h⟩⟩

/-- `sharp` has the spellings of `java`. -/
theorem lookUp_sharp_of_java {t : Token TokenKind} {op : Operator}
    (h : Postfix.lookUp Dialect.java t = .ok op) : Postfix.lookUp Dialect.sharp t = .ok op := by
  obtain ⟨more, hmore⟩ : ∃ more, Dialect.sharp.spellings = Dialect.java.spellings ++ more :=
    ⟨_, rfl⟩
  rw [Postfix.lookUp_eq_ok_iff, Dialect.operator?] at h ⊢
  obtain ⟨s, hs, rfl⟩ := Option.map_eq_some_iff.1 h
  rw [hmore, List.find?_append]
  rw [show Dialect.sharp.spells = Dialect.java.spells from rfl, hs]
  rfl

/-- **Whatever `java` parses, `sharp` parses to the same tree.** -/
theorem parse_sharp_of_java {text : String} {o : Operation}
    (h : (DialectDraft.java.build >>= fun d => d.parse text) = .ok o) :
    (DialectDraft.sharp.build >>= fun d => d.parse text) = .ok o := by
  rw [build_java, ok_bind, Dialect.parse] at h
  rw [build_sharp, ok_bind, Dialect.parse]
  obtain ⟨ts, hts, h⟩ := bind_eq_ok_iff.1 h
  obtain ⟨sequence, hsequence, h⟩ := bind_eq_ok_iff.1 h
  refine bind_eq_ok_iff.2 ⟨ts, tokensFrom_sharp_of_java hts, ?_⟩
  exact bind_eq_ok_iff.2
    ⟨sequence, Postfix.reorderFrom_mono (fun _ _ => lookUp_sharp_of_java) hsequence, h⟩

/-- The name of a method may be the name of a field. -/
theorem parse_sharp_of_java_field :
    (DialectDraft.sharp.build >>= fun d => d.parse "!count") =
      .ok ⟨.not, [.reference ⟨[], "count"⟩]⟩ := by
  have hnot : pick? expressionGrammar (java.map definition) "!count".toList 0 =
      some (⟨.unaryOperator, 1, by decide⟩, 0) := by decide
  have hfield : pick? expressionGrammar (java.map definition) "count".toList 0 =
      some (⟨.operand, 5, by decide⟩, 1) := by decide
  have htokens : Dialect.java.tokenize "!count" =
      .ok [⟨.unaryOperator, "!", 0⟩, ⟨.operand, "count", 1⟩] := by
    change tokensFrom expressionGrammar (java.map definition) 0 "!count".toList 0 = _
    rw [tokensFrom_pick (by decide) (by decide) hnot,
      show "!count".toList.drop 1 = "count".toList from rfl,
      tokensFrom_pick (by decide) (by decide) hfield, tokensFrom_blank (by decide)]
    rfl
  have hclassify : Literal.classify "count" = none := by
    rw [Literal.classify, Literal.classifyChars,
      show Literal.scalar? "count".toList = none by decide,
      show Literal.matchesWhole Literal.listPattern "count".toList = false by decide]
    rfl
  have hresolve : Postfix.resolve ⟨.operand, "count", 1⟩ = .ok (.reference ⟨[], "count"⟩) := by
    simp only [Postfix.resolve, hclassify, reduceCtorEq, if_false]
    rfl
  apply parse_sharp_of_java
  rw [build_java, ok_bind, Dialect.parse, htokens, ok_bind,
    show Postfix.reorder Dialect.java _ = .ok [.value _, .operator .not] from rfl, ok_bind]
  simp only [Postfix.fold, List.foldlM_cons, Postfix.push, hresolve]
  rfl

end Criteria

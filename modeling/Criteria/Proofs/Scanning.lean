import Criteria.Lexer
import Criteria.Proofs.Expression.Phrase
import Criteria.Proofs.Pattern.Runs

/-!
# Scanning with a grammar

A scanner whose candidates are accepted by a grammar takes the first definition that matches and
whose category may come next. `Scanner.pick?` is this choice without the state-passing of an
acceptor (`choose_eq_pick?`), and `tokensFrom` is the scan that goes from choice to choice.

All definitions of a dialect are tied to the start of the text. What such a definition finds is told
by `Pattern.consume` (`candidate?_eq_some_iff`).
-/

namespace Criteria

/-- A pattern at the start of a text. -/
def Pattern.atStart (p : Pattern) : Pattern := .seq (.anchor .textStart) p

theorem Definition.candidate?_eq_some {κ : Type} {d : Definition κ} {text : List Char} {c : Candidate κ} :
    d.candidate? text = some c ↔ d.pattern.matchEnd? text = some c.size ∧
      (d.follow.all fun guard => guard.isMatch (text.drop c.size)) = true ∧ c.kind = d.kind := by
  obtain ⟨kind, size, hpos⟩ := c
  unfold candidate?
  split
  · next hm => simp [hm]
  · next hm =>
    simp only [hm, Option.some.injEq]
    exact ⟨nofun, fun h => absurd h.1 (Nat.ne_of_lt hpos)⟩
  · next n hm =>
    rw [hm, Option.some.injEq]
    split_ifs with hg
    · simp only [Option.some.injEq, Candidate.mk.injEq]
      constructor
      · rintro ⟨rfl, rfl⟩
        exact ⟨rfl, hg, rfl⟩
      · rintro ⟨rfl, -, rfl⟩
        exact ⟨rfl, rfl⟩
    · constructor
      · intro h
        cases h
      · rintro ⟨rfl, hg', -⟩
        exact absurd hg' hg

/-- A category of tokens, a pattern at the start of the text and what has to follow it. -/
structure TokenPattern (κ : Type) where
  kind : κ
  pattern : Pattern
  follow : Option Pattern := none
  deriving DecidableEq

namespace TokenPattern

variable {κ : Type}

/-- The definition with the pattern tied to the start of the text. -/
def definition (t : TokenPattern κ) : Definition κ :=
  ⟨t.kind, t.pattern.atStart, t.follow.map Pattern.atStart⟩

/-- Whether trying finds what the patterns match. -/
def plain (t : TokenPattern κ) : Bool := t.pattern.plain && t.follow.all Pattern.plain

/-- Whether what follows a token is as it has to be. -/
def Follows (t : TokenPattern κ) (tail : List Char) : Prop :=
  ∀ q ∈ t.follow, (q.consume tail some).isSome = true

/-- **A definition finds what its pattern takes, if that is not nothing and the guard matches.** -/
theorem candidate?_eq_some_iff {t : TokenPattern κ} (ht : t.plain = true) {text : List Char}
    {c : Candidate κ} :
    t.definition.candidate? text = some c ↔
      ∃ piece tail, text = piece ++ tail ∧ t.pattern.consume text some = some tail ∧
        t.Follows tail ∧ c.kind = t.kind ∧ c.size = piece.length := by
  obtain ⟨kind, p, follow⟩ := t
  obtain ⟨hp, hf⟩ := Bool.and_eq_true_iff.1 ht
  have hguard (tail : List Char) : ((definition ⟨kind, p, follow⟩).follow.all fun guard =>
      guard.isMatch tail) = true ↔ Follows ⟨kind, p, follow⟩ tail := by
    cases follow with
    | none => simp [definition, Follows]
    | some q =>
      simp only [definition, Follows, Option.map_some, Option.all_some, Option.mem_def,
        Option.some.injEq, forall_eq']
      rw [Pattern.atStart, Pattern.isMatch_eq_consume (by simpa using hf)]
  have hmatch : (definition ⟨kind, p, follow⟩).pattern.matchEnd? text =
      (p.consume text some).map fun rest => text.length - rest.length :=
    Pattern.matchEnd?_eq_consume hp text
  rw [Definition.candidate?_eq_some, hmatch, hguard]
  cases hc : p.consume text some with
  | none => simp
  | some tail =>
    obtain ⟨rest, ht, heq⟩ := Pattern.exists_takes_of_consume hc
    cases heq
    obtain ⟨piece, rfl⟩ := ht.suffix
    rw [Option.map_some, List.length_append, Nat.add_sub_cancel, Option.some.injEq]
    constructor
    · rintro ⟨hsize, hg, hkind⟩
      rw [← hsize, List.drop_left] at hg
      exact ⟨piece, tail, rfl, rfl, hg, hkind, hsize.symm⟩
    · rintro ⟨piece', tail', heq, htail, hg, hkind, hsize⟩
      cases htail
      cases List.append_cancel_right heq
      refine ⟨hsize.symm, ?_, hkind⟩
      rw [hsize, List.drop_left]
      exact hg

/-- Without conditions in the pattern, it takes what the definition finds as a whole text. -/
theorem takes_of_candidate? {t : TokenPattern κ} (ht : t.plain = true)
    (hfree : t.pattern.unconditional = true) {text : List Char} {c : Candidate κ}
    (h : t.definition.candidate? text = some c) : t.pattern.Takes (text.take c.size) [] := by
  obtain ⟨piece, tail, rfl, hconsume, -, -, hsize⟩ := (candidate?_eq_some_iff ht).1 h
  obtain ⟨rest, htakes, heq⟩ := Pattern.exists_takes_of_consume hconsume
  cases heq
  rw [hsize, List.take_left]
  exact htakes.of_append hfree

/-- Whether a definition finds nothing at the start of a text. -/
def Misses (t : TokenPattern κ) (text : List Char) : Prop :=
  ∀ tail, t.pattern.consume text some = some tail → ¬ t.Follows tail

theorem candidate?_eq_none {t : TokenPattern κ} (ht : t.plain = true) {text : List Char}
    (h : t.Misses text) : t.definition.candidate? text = none := by
  cases hc : t.definition.candidate? text with
  | none => rfl
  | some c =>
    obtain ⟨piece, tail, -, htail, hf, -⟩ := (candidate?_eq_some_iff ht).1 hc
    exact absurd hf (h tail htail)

/-- A definition that advances finds nothing only where its pattern or its guard fails. -/
theorem misses_of_candidate? {t : TokenPattern κ} (ht : t.plain = true)
    (hadvances : t.pattern.advances = true) {text : List Char}
    (h : t.definition.candidate? text = none) : t.Misses text := by
  intro tail htail hf
  obtain ⟨rest, htakes, heq⟩ := Pattern.exists_takes_of_consume htail
  cases heq
  obtain ⟨piece, rfl⟩ := htakes.suffix
  have hlt := htakes.length_lt hadvances
  rw [List.length_append] at hlt
  have hc := (candidate?_eq_some_iff ht (c := ⟨t.kind, piece.length, by omega⟩)).2
    ⟨piece, tail, rfl, htail, hf, rfl, rfl⟩
  rw [h] at hc
  cases hc

theorem misses_of_consume {t : TokenPattern κ} {text : List Char}
    (h : t.pattern.consume text some = none) : t.Misses text := by
  intro tail htail
  rw [h] at htail
  cases htail

end TokenPattern

theorem Scan.result_cons {σ κ : Type} (t : Token κ) (s : Scan σ κ) :
    (s.cons t).result = (t :: ·) <$> s.result := by
  obtain ⟨tokens, stop, state⟩ := s
  cases stop <;> rfl

namespace Scanner

variable {κ : Type}

theorem definitions_ofDefinitions (definitions : List (Definition κ)) :
    (ofDefinitions definitions).definitions = definitions := rfl

/-- A boundary of characters of one set covers those at the start. -/
theorem gap_of_boundary {s : Scanner κ} {set : CharSet}
    (h : s.boundary = (Pattern.plus true (.one set)).atStart) (text : List Char) :
    s.gap text = (text.takeWhile set.contains).length := by
  have hmatch : s.boundary.matchEnd? text =
      ((Pattern.plus true (.one set)).consume text some).map fun rest => text.length - rest.length :=
    h ▸ Pattern.matchEnd?_eq_consume rfl text
  have hhead : ∀ c ∈ (text.dropWhile set.contains).head?, set.contains c = false := by
    intro c hc
    have := List.head?_dropWhile_not set.contains text
    rwa [hc] at this
  have hrun : ∀ c ∈ text.takeWhile set.contains, set.contains c = true := by
    intro c hc
    exact List.all_eq_true.1 List.all_takeWhile c hc
  have hsplit := List.takeWhile_append_dropWhile (p := set.contains) (l := text)
  rw [gap, hmatch]
  by_cases hne : text.takeWhile set.contains = []
  · rw [hne, List.nil_append] at hsplit
    have hnone : (Pattern.plus true (.one set)).consume text some = none := by
      rw [hsplit] at hhead
      rcases text with _ | ⟨c, text⟩
      · exact Pattern.consume_nil_of_advances rfl some
      · exact Pattern.consume_eq_none_of_mayStart rfl (hhead c rfl)
    rw [hnone, hne]
    rfl
  · have hsome := Pattern.consume_plus_run hne hrun hhead (k := some) rfl
    rw [hsplit] at hsome
    have hlen := congrArg List.length hsplit
    rw [List.length_append] at hlen
    rw [hsome, Option.map_some, Option.getD_some]
    omega

/-- The usual boundary covers the blanks at the start. -/
theorem gap_eq (definitions : List (Definition κ)) (text : List Char) :
    (ofDefinitions definitions).gap text = (text.takeWhile Text.isBlank).length :=
  have h : (ofDefinitions definitions).boundary = (Pattern.plus true (.one .blank)).atStart := rfl
  gap_of_boundary h text

theorem drop_gap (definitions : List (Definition κ)) (text : List Char) :
    text.drop ((ofDefinitions definitions).gap text) = text.dropWhile Text.isBlank := by
  have hsplit := List.takeWhile_append_dropWhile (p := Text.isBlank) (l := text)
  have := congrArg (List.drop (text.takeWhile Text.isBlank).length) hsplit
  rw [gap_eq, ← this, List.drop_left]

theorem take_gap (definitions : List (Definition κ)) (text : List Char) :
    text.take ((ofDefinitions definitions).gap text) = text.takeWhile Text.isBlank := by
  have hsplit := List.takeWhile_append_dropWhile (p := Text.isBlank) (l := text)
  have := congrArg (List.take (text.takeWhile Text.isBlank).length) hsplit
  rw [gap_eq, ← this, List.take_left]

variable [DecidableEq κ]

/-- The first definition that matches with a category that may come next. -/
def pick? (g : Grammar κ) (definitions : List (Definition κ)) (text : List Char) (state : Nat) :
    Option (Candidate κ × Nat) :=
  definitions.findSome? fun d =>
    (d.candidate? text).bind fun c => (g.next? state c.kind).map fun target => (c, target)

theorem choose_eq_pick? (g : Grammar κ) (definitions : List (Definition κ)) (text : List Char)
    (state : Nat) :
    choose (fun state kind _ => g.advance state kind) definitions text state =
      match pick? g definitions text state with
      | some (c, target) => (some c, target)
      | none => (none, state) := by
  induction definitions with
  | nil => rfl
  | cons d definitions ih =>
    rw [choose, pick?, List.findSome?_cons]
    cases hc : d.candidate? text with
    | none => exact ih
    | some c =>
      cases hn : g.next? state c.kind with
      | none =>
        simp only [Grammar.advance, hn, Option.bind_some, Option.map_none]
        exact ih
      | some target => simp [Grammar.advance, hn]

@[simp] theorem pick?_nil (g : Grammar κ) (text : List Char) (state : Nat) :
    pick? g [] text state = none := rfl

theorem pick?_append (g : Grammar κ) (a b : List (Definition κ)) (text : List Char)
    (state : Nat) :
    pick? g (a ++ b) text state = (pick? g a text state).or (pick? g b text state) :=
  List.findSome?_append

/-- What is picked is found by a definition whose category may come next. -/
theorem exists_of_pick? {g : Grammar κ} {definitions : List (Definition κ)} {text : List Char}
    {state target : Nat} {c : Candidate κ}
    (h : pick? g definitions text state = some (c, target)) :
    ∃ d ∈ definitions, d.candidate? text = some c ∧ c.kind = d.kind ∧
      g.next? state d.kind = some target := by
  obtain ⟨d, hd, hc⟩ := List.exists_of_findSome?_eq_some h
  obtain ⟨c', hcandidate, hnext⟩ := Option.bind_eq_some_iff.1 hc
  obtain ⟨target', htarget, heq⟩ := Option.map_eq_some_iff.1 hnext
  cases heq
  have hkind := (Definition.candidate?_eq_some.1 hcandidate).2.2
  exact ⟨d, hd, hcandidate, hkind, hkind ▸ htarget⟩

/-- A category that none of the first definitions has is picked from those behind them. -/
theorem pick?_of_append {g : Grammar κ} {a b : List (Definition κ)} {text : List Char}
    {state target : Nat} {c : Candidate κ} (ha : ∀ d ∈ a, d.kind ≠ c.kind)
    (h : pick? g (a ++ b) text state = some (c, target)) :
    pick? g a text state = none ∧ pick? g b text state = some (c, target) := by
  rw [pick?_append] at h
  rcases Option.or_eq_some_iff.1 h with hpick | ⟨hnone, hpick⟩
  · obtain ⟨d, hd, -, hkind, -⟩ := exists_of_pick? hpick
    exact absurd hkind.symm (ha d hd)
  · exact ⟨hnone, hpick⟩

/-- Where nothing is picked, what is found may not come next. -/
theorem next?_of_pick?_eq_none {g : Grammar κ} {definitions : List (Definition κ)}
    {text : List Char} {state : Nat} (h : pick? g definitions text state = none)
    {d : Definition κ} (hd : d ∈ definitions) {c : Candidate κ}
    (hc : d.candidate? text = some c) : g.next? state d.kind = none := by
  have hnone := List.findSome?_eq_none_iff.1 h d hd
  rw [hc, Option.bind_some, Option.map_eq_none_iff] at hnone
  rwa [← (Definition.candidate?_eq_some.1 hc).2.2]

/-- Nothing is picked where no definition both matches and may come next. -/
theorem pick?_eq_none {g : Grammar κ} {ts : List (TokenPattern κ)} {text : List Char}
    {state : Nat} (hts : ∀ t ∈ ts, t.plain = true)
    (h : ∀ t ∈ ts, g.next? state t.kind = none ∨ t.Misses text) :
    pick? g (ts.map TokenPattern.definition) text state = none := by
  simp only [pick?, List.findSome?_eq_none_iff, List.mem_map, forall_exists_index, and_imp]
  rintro _ t ht rfl
  cases hc : t.definition.candidate? text with
  | none => rfl
  | some c =>
    rcases h t ht with hnext | hmiss
    · obtain ⟨-, -, hkind⟩ := Definition.candidate?_eq_some.1 hc
      rw [Option.bind_some, hkind, show t.definition.kind = t.kind from rfl, hnext]
      rfl
    · rw [TokenPattern.candidate?_eq_none (hts t ht) hmiss] at hc
      cases hc

/-- The first definition that matches and may come next is picked. -/
theorem pick?_eq_some {g : Grammar κ} {before after : List (TokenPattern κ)} {t : TokenPattern κ}
    {piece tail : List Char} {state target : Nat}
    (hts : ∀ u ∈ before ++ t :: after, u.plain = true)
    (hbefore : ∀ u ∈ before, g.next? state u.kind = none ∨ u.Misses (piece ++ tail))
    (hne : piece ≠ []) (ht : t.pattern.consume (piece ++ tail) some = some tail)
    (hf : t.Follows tail) (hnext : g.next? state t.kind = some target) :
    pick? g ((before ++ t :: after).map TokenPattern.definition) (piece ++ tail) state =
      some (⟨t.kind, piece.length, List.length_pos_iff.2 hne⟩, target) := by
  have hc : t.definition.candidate? (piece ++ tail) =
      some ⟨t.kind, piece.length, List.length_pos_iff.2 hne⟩ :=
    (TokenPattern.candidate?_eq_some_iff (hts t (by simp))).2
      ⟨piece, tail, rfl, ht, hf, rfl, rfl⟩
  rw [List.map_append, pick?_append,
    pick?_eq_none (fun u hu => hts u (by simp [hu])) hbefore, Option.none_or, List.map_cons]
  simp [pick?, hc, hnext]

/-- What is picked is found by a definition with none in front of it that both matches and may come
next. -/
theorem exists_split_of_pick? {g : Grammar κ} {ts : List (TokenPattern κ)}
    (hts : ∀ t ∈ ts, t.plain = true) {text : List Char} {state target : Nat} {c : Candidate κ}
    (h : pick? g (ts.map TokenPattern.definition) text state = some (c, target)) :
    ∃ before t after piece tail, ts = before ++ t :: after ∧ text = piece ++ tail ∧
      piece.length = c.size ∧ c.kind = t.kind ∧ t.pattern.consume text some = some tail ∧
      t.Follows tail ∧ g.next? state t.kind = some target ∧
      ∀ u ∈ before, g.next? state u.kind = none ∨ u.definition.candidate? text = none := by
  obtain ⟨front, d, back, hsplit, hd, hfront⟩ := List.findSome?_eq_some_iff.1 h
  obtain ⟨before, rest, rfl, rfl, hrest⟩ := List.map_eq_append_iff.1 hsplit
  obtain ⟨t, after, rfl, rfl, -⟩ := List.map_eq_cons_iff.1 hrest
  obtain ⟨c', hc, htarget⟩ := Option.bind_eq_some_iff.1 hd
  obtain ⟨target', hnext, heq⟩ := Option.map_eq_some_iff.1 htarget
  cases heq
  obtain ⟨piece, tail, htext, hconsume, hf, hkind, hsize⟩ :=
    (TokenPattern.candidate?_eq_some_iff (hts t (by simp))).1 hc
  refine ⟨before, t, after, piece, tail, rfl, htext, hsize.symm, hkind, hconsume, hf, hkind ▸ hnext,
    fun u hu => ?_⟩
  have hnone := hfront u.definition (List.mem_map_of_mem hu)
  cases hcandidate : u.definition.candidate? text with
  | none => exact .inr rfl
  | some c' =>
    rw [hcandidate, Option.bind_some, Option.map_eq_none_iff] at hnone
    rw [(Definition.candidate?_eq_some.1 hcandidate).2.2] at hnone
    exact .inl hnone

/-- What is picked behind the gap is the first token of a scan. -/
theorem scanFrom_pick {s : Scanner κ} {g : Grammar κ} {offset state target : Nat}
    {text rest : List Char} {c : Candidate κ} (hrest : text.drop (s.gap text) = rest)
    (hne : rest ≠ []) (h : pick? g s.definitions rest state = some (c, target)) :
    s.scanFrom (fun state kind _ => g.advance state kind) offset text state =
      (s.scanFrom (fun state kind _ => g.advance state kind)
        (offset + Text.byteLength (text.take (s.gap text)) + Text.byteLength (rest.take c.size))
        (rest.drop c.size) target).cons
          ⟨c.kind, c.text rest, offset + Text.byteLength (text.take (s.gap text))⟩ := by
  subst hrest
  rw [scanFrom]
  simp only [hne, dif_neg, not_false_eq_true, choose_eq_pick?, h]

/-- The tokens of a text that starts at an offset, from a state of a grammar on. -/
def tokensFrom (g : Grammar κ) (definitions : List (Definition κ)) (offset : Nat)
    (text : List Char) (state : Nat) : Except SyntaxError (List (Token κ)) :=
  ((ofDefinitions definitions).scanFrom (fun state kind _ => g.advance state kind) offset text
    state).result

variable {g : Grammar κ} {definitions : List (Definition κ)} {offset state : Nat}
  {text : List Char}

/-- Blanks are no tokens. -/
theorem tokensFrom_blank (h : text.dropWhile Text.isBlank = []) :
    tokensFrom g definitions offset text state = .ok [] := by
  rw [tokensFrom, scanFrom]
  simp only [drop_gap, h, dif_pos]
  rfl

/-- What is picked behind the blanks is the first token. -/
theorem tokensFrom_pick {rest : List Char} {c : Candidate κ} {target : Nat}
    (hrest : text.dropWhile Text.isBlank = rest) (hne : rest ≠ [])
    (h : pick? g definitions rest state = some (c, target)) :
    tokensFrom g definitions offset text state =
      (⟨c.kind, c.text rest, offset + Text.byteLength (text.takeWhile Text.isBlank)⟩ :: ·) <$>
        tokensFrom g definitions (offset + Text.byteLength (text.takeWhile Text.isBlank) +
          Text.byteLength (rest.take c.size)) (rest.drop c.size) target := by
  rw [tokensFrom, scanFrom_pick ((drop_gap definitions text).trans hrest) hne h, take_gap,
    Scan.result_cons]
  rfl

/-- Where nothing is picked behind the blanks, there is an error. -/
theorem tokensFrom_stuck (offset : Nat) {rest : List Char} (hrest : text.dropWhile Text.isBlank = rest)
    (hne : rest ≠ []) (h : pick? g definitions rest state = none) :
    ∃ e, tokensFrom g definitions offset text state = .error e := by
  subst hrest
  rw [tokensFrom, scanFrom]
  simp only [drop_gap, hne, dif_neg, not_false_eq_true, choose_eq_pick?, definitions_ofDefinitions,
    h]
  exact ⟨_, rfl⟩

/-- The first token is what is picked behind the blanks, and the others are found behind it. -/
theorem exists_pick_of_tokensFrom_cons {t : Token κ} {ts : List (Token κ)}
    (h : tokensFrom g definitions offset text state = .ok (t :: ts)) :
    ∃ rest c target offset', text.dropWhile Text.isBlank = rest ∧ rest ≠ [] ∧
      pick? g definitions rest state = some (c, target) ∧ t.kind = c.kind ∧ t.text = c.text rest ∧
      tokensFrom g definitions offset' (rest.drop c.size) target = .ok ts := by
  have hne : text.dropWhile Text.isBlank ≠ [] := by
    intro hnil
    rw [tokensFrom_blank hnil] at h
    cases h
  cases hpick : pick? g definitions (text.dropWhile Text.isBlank) state with
  | none =>
    obtain ⟨e, he⟩ := tokensFrom_stuck offset rfl hne hpick
    rw [he] at h
    cases h
  | some r =>
    obtain ⟨c, target⟩ := r
    rw [tokensFrom_pick rfl hne hpick] at h
    obtain ⟨us, hus, heq⟩ := map_eq_ok_iff.1 h
    cases heq
    exact ⟨_, c, target, _, rfl, hne, hpick, rfl, rfl, hus⟩

/-- A blank in front moves the scan on. -/
theorem tokensFrom_cons_blank {c : Char} (hc : Text.isBlank c = true) :
    tokensFrom g definitions offset (c :: text) state =
      tokensFrom g definitions (offset + c.utf8Size) text state := by
  unfold tokensFrom
  rw [scanFrom, scanFrom]
  simp only [drop_gap, take_gap, List.dropWhile_cons_of_pos hc, List.takeWhile_cons_of_pos hc,
    Text.byteLength_cons, Nat.add_assoc]

/-- **Every token is what was picked where it starts.** -/
theorem exists_pick_of_mem_tokensFrom {ts : List (Token κ)}
    (h : tokensFrom g definitions offset text state = .ok ts) :
    ∀ t ∈ ts, ∃ front rest state c target, text = front ++ rest ∧
      pick? g definitions rest state = some (c, target) ∧
      t = ⟨c.kind, c.text rest, offset + Text.byteLength front⟩ := by
  generalize hn : text.length = n
  induction n using Nat.strongRecOn generalizing offset state text ts with
  | ind n ih =>
  subst hn
  by_cases hne : text.dropWhile Text.isBlank = []
  · rw [tokensFrom_blank hne] at h
    cases h
    exact nofun
  cases hpick : pick? g definitions (text.dropWhile Text.isBlank) state with
  | none =>
    obtain ⟨e, he⟩ := tokensFrom_stuck offset rfl hne hpick
    rw [he] at h
    cases h
  | some r =>
    obtain ⟨c, target⟩ := r
    rw [tokensFrom_pick rfl hne hpick] at h
    obtain ⟨us, hus, rfl⟩ := map_eq_ok_iff.1 h
    have hlt : ((text.dropWhile Text.isBlank).drop c.size).length < text.length :=
      Nat.lt_of_lt_of_le (c.drop_length_lt hne) (List.dropWhile_sublist _).length_le
    refine List.forall_mem_cons.2 ⟨⟨text.takeWhile Text.isBlank, _, state, c, target,
      List.takeWhile_append_dropWhile.symm, hpick, rfl⟩, fun t ht => ?_⟩
    -- in front of a later token there are the blanks and the first token as well
    obtain ⟨front, rest, state', c', target', hsplit, hpick', rfl⟩ := ih _ hlt hus rfl t ht
    refine ⟨text.takeWhile Text.isBlank ++ ((text.dropWhile Text.isBlank).take c.size ++ front), rest,
      state', c', target', ?_, hpick', ?_⟩
    · rw [List.append_assoc, List.append_assoc, ← hsplit, List.take_append_drop,
        List.takeWhile_append_dropWhile]
    · simp only [Text.byteLength_append, Nat.add_assoc]

/-- What holds of every candidate that is picked holds of every token. -/
theorem forall_mem_of_tokensFrom {P : κ → String → Prop}
    (hP : ∀ text state c target, pick? g definitions text state = some (c, target) →
      P c.kind (c.text text))
    {ts : List (Token κ)} (h : tokensFrom g definitions offset text state = .ok ts) :
    ∀ t ∈ ts, P t.kind t.text := by
  intro t ht
  obtain ⟨front, rest, state', c, target, -, hpick, rfl⟩ := exists_pick_of_mem_tokensFrom h t ht
  exact hP rest state' c target hpick

/-- The first definition that matches at a character other than a blank, and may come next, gives
the first token. -/
theorem tokensFrom_piece {before after : List (TokenPattern κ)} {t : TokenPattern κ} {c : Char}
    {run tail : List Char} {target : Nat} (hts : ∀ u ∈ before ++ t :: after, u.plain = true)
    (hbefore : ∀ u ∈ before, g.next? state u.kind = none ∨ u.Misses (c :: run ++ tail))
    (hc : Text.isBlank c = false)
    (ht : t.pattern.consume (c :: run ++ tail) some = some tail) (hf : t.Follows tail)
    (hnext : g.next? state t.kind = some target) :
    tokensFrom g ((before ++ t :: after).map TokenPattern.definition) offset (c :: run ++ tail)
        state =
      (⟨t.kind, String.ofList (c :: run), offset⟩ :: ·) <$>
        tokensFrom g ((before ++ t :: after).map TokenPattern.definition)
          (offset + Text.byteLength (c :: run)) tail target := by
  have hpick := pick?_eq_some hts hbefore (List.cons_ne_nil c run) ht hf hnext
  have hdrop : (c :: run ++ tail).dropWhile Text.isBlank = c :: run ++ tail := by simp [hc]
  have htake : (c :: run ++ tail).takeWhile Text.isBlank = [] := by simp [hc]
  rw [tokensFrom_pick hdrop (by simp) hpick, htake]
  simp only [Candidate.text, List.take_left, List.drop_left, Text.byteLength_nil, Nat.add_zero]

end Scanner

end Criteria

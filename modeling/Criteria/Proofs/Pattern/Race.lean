import Criteria.Proofs.Pattern.Consuming

/-!
# The race finds what trying finds

The threads of a race are followed side by side, one character at a time, and the preferred end
wins. `Pattern.consume` tries one way after the other. For patterns without idle rounds, whose
conditions look at what follows alone, both find the same match:

* `Pattern.moves_spec` says that the moves of a pattern at a place are what trying comes to next;
* `Thread.race_eq_consume` follows a whole race, character by character;
* `Pattern.matchEnd?_eq_consume` is the result for patterns that are tied to the start of the text,
  as those of a scanner are.
-/

namespace Criteria

variable {α : Type}

namespace Pattern

/-- Whether the conditions in a pattern look at what follows alone, and every round of a repetition
takes something. -/
def plain : Pattern → Bool
  | empty | one _ => true
  | anchor a => a == .textEnd || a == .lineEnd
  | seq p q | alt p q => p.plain && q.plain
  | opt _ p => p.plain
  | star _ p | plus _ p => p.advances && p.plain

theorem hasIdleRounds_of_plain {p : Pattern} (h : p.plain = true) : p.hasIdleRounds = false := by
  induction p with
  | empty | anchor | one => rfl
  | seq p q ihp ihq | alt p q ihp ihq =>
    obtain ⟨hp, hq⟩ := Bool.and_eq_true_iff.1 h
    simp [hasIdleRounds, ihp hp, ihq hq]
  | opt _ p ih => exact ih h
  | star _ p ih | plus _ p ih =>
    obtain ⟨ha, hp⟩ := Bool.and_eq_true_iff.1 h
    simp [hasIdleRounds, ha, ih hp]

end Pattern

/-- Tries the patterns of a thread one after the other. -/
def Thread.consume : Thread → List Char → (List Char → Option α) → Option α
  | [], text, k => k text
  | (_, p) :: next, text, k => p.consume text fun rest => Thread.consume next rest k

namespace Move

/-- What a move comes to: the given outcome at the end, or else what the thread behind a character
comes to. -/
def outcome (stop : Option α) (k : List Char → Option α) (text : List Char) : Move → Option α
  | .stop _ => stop
  | .take set next =>
    match text with
    | [] => none
    | c :: rest => if set.contains c then Thread.consume next rest k else none

theorem findSome?_outcome_taking (k : List Char → Option α) (text : List Char)
    (stop : Option α) (moves : List Move) :
    (taking moves).findSome? (outcome stop k text) = moves.findSome? (outcome none k text) := by
  induction moves with
  | nil => rfl
  | cons m moves ih =>
    cases m with
    | stop passed =>
      rw [List.findSome?_cons, show outcome none k text (.stop passed) = none from rfl]
      exact ih
    | take set next =>
      change ((take set next :: taking moves).findSome? _) = _
      rw [List.findSome?_cons, List.findSome?_cons, ih]
      rfl

theorem findSome?_outcome_followedBy {k : List Char → Option α} {text : List Char}
    {stop mid : Option α} {moves : List Move} {second : List Nat → List Move}
    (h : ∀ passed, (second passed).findSome? (outcome stop k text) = mid) :
    (followedBy moves second).findSome? (outcome stop k text) =
      moves.findSome? (outcome mid k text) := by
  induction moves with
  | nil => rfl
  | cons m moves ih =>
    cases m with
    | stop passed =>
      rw [followedBy, List.findSome?_append, h, findSome?_outcome_taking, List.findSome?_cons]
      cases mid with
      | none => rfl
      | some a => rfl
    | take set next =>
      rw [followedBy, List.findSome?_cons, List.findSome?_cons, ih]
      rfl

theorem findSome?_outcome_orStop (greedy : Bool) (k : List Char → Option α) (text : List Char)
    (stop : Option α) (moves : List Move) (passed : List Nat) :
    (orStop greedy moves passed).findSome? (outcome stop k text) =
      Pattern.prefer greedy (moves.findSome? (outcome stop k text)) stop := by
  cases greedy with
  | true => cases stop <;> simp [orStop, Pattern.prefer, List.findSome?_append, outcome]
  | false => cases stop <;> simp [orStop, Pattern.prefer, outcome, List.findSome?_cons]

theorem findSome?_outcome_of_isStop {k : List Char → Option α} {text : List Char}
    {moves : List Move} (h : ∀ m ∈ moves, m.isStop = false) (a b : Option α) :
    moves.findSome? (outcome a k text) = moves.findSome? (outcome b k text) := by
  induction moves with
  | nil => rfl
  | cons m moves ih =>
    cases m with
    | stop passed => cases h _ List.mem_cons_self
    | take set next =>
      rw [List.findSome?_cons, List.findSome?_cons,
        ih fun m hm => h m (List.mem_cons_of_mem _ hm)]
      rfl

theorem isStop_followedBy {moves : List Move} {second : List Nat → List Move}
    (h : (∀ m ∈ moves, m.isStop = false) ∨ ∀ passed, ∀ m ∈ second passed, m.isStop = false) :
    ∀ m ∈ followedBy moves second, m.isStop = false := by
  induction moves with
  | nil => simp [followedBy]
  | cons m moves ih =>
    cases m with
    | stop passed =>
      rcases h with h | h
      · cases h _ List.mem_cons_self
      · intro m hm
        rcases List.mem_append.1 hm with hm | hm
        · exact h passed m hm
        · simpa using (List.mem_filter.1 hm).2
    | take set next =>
      intro m hm
      rcases List.mem_cons.1 hm with rfl | hm
      · rfl
      · refine ih ?_ m hm
        exact h.imp_left fun h m hm => h m (List.mem_cons_of_mem _ hm)

end Move

namespace Pattern

theorem holds_of_plain {a : Anchor} (h : (anchor a).plain = true) (before : Option Char)
    (text : List Char) : a.holds ⟨before, text⟩ = a.holds (.start text) := by
  cases a <;> first | rfl | cases h

/-- A pattern that advances does not come to its end at once. -/
theorem isStop_of_advances {p : Pattern} {place : Place} {n : Nat} {next : Thread}
    {passed : List Nat} (h : p.advances = true) :
    ∀ m ∈ p.moves false place n next passed, m.isStop = false := by
  induction p generalizing n next passed with
  | empty | anchor | opt | star => cases h
  | one set => simp [moves, Move.isStop]
  | seq p q ihp ihq =>
    refine Move.isStop_followedBy ?_
    rcases Bool.or_eq_true_iff.1 h with h | h
    · exact .inl (ihp h)
    · exact .inr fun passed => ihq h
  | alt p q ihp ihq =>
    obtain ⟨hp, hq⟩ := Bool.and_eq_true_iff.1 h
    intro m hm
    rcases List.mem_append.1 hm with hm | hm
    · exact ihp hp m hm
    · exact ihq hq m hm
  | plus greedy p ih => exact Move.isStop_followedBy (.inl (ih h))

/-- **The moves of a pattern are what trying comes to next.** -/
theorem moves_spec {p : Pattern} (hp : p.plain = true) (before : Option Char) (text : List Char)
    (k : List Char → Option α) (n : Nat) (next : Thread) (passed : List Nat) :
    (p.moves false ⟨before, text⟩ n next passed).findSome?
        (Move.outcome (Thread.consume next text k) k text) =
      p.consume text fun rest => Thread.consume next rest k := by
  induction p generalizing n next passed with
  | empty => simp [moves, consume, Move.outcome]
  | one set => cases text <;> simp [moves, consume, Move.outcome]
  | anchor a =>
    simp only [moves, consume, holds_of_plain hp before text]
    split_ifs
    · simp [Move.outcome]
    · rfl
  | seq p q ihp ihq =>
    obtain ⟨hp, hq⟩ := Bool.and_eq_true_iff.1 hp
    rw [moves, Move.findSome?_outcome_followedBy fun passed => ihq hq _ next passed, consume]
    exact ihp hp n ((n + p.choices, q) :: next) passed
  | alt p q ihp ihq =>
    obtain ⟨hp, hq⟩ := Bool.and_eq_true_iff.1 hp
    rw [moves, pass, List.findSome?_append, ihp hp, ihq hq, consume]
  | opt greedy p ih => rw [moves, pass, Move.findSome?_outcome_orStop, ih hp, consume]
  | star greedy p ih =>
    obtain ⟨ha, hp⟩ := Bool.and_eq_true_iff.1 hp
    rw [moves, pass, Move.findSome?_outcome_orStop, Move.findSome?_outcome_taking,
      Move.findSome?_outcome_of_isStop (isStop_of_advances ha) _
        (Thread.consume ((n, star greedy p) :: next) text k), ih hp, consume_star ha]
    rfl
  | plus greedy p ih =>
    obtain ⟨ha, hp⟩ := Bool.and_eq_true_iff.1 hp
    have stop (passed : List Nat) :
        (pass false n passed fun passed => [.stop passed]).findSome?
          (Move.outcome (Thread.consume next text k) k text) = Thread.consume next text k := by
      simp [pass, Move.outcome]
    rw [moves, Move.findSome?_outcome_followedBy stop,
      Move.findSome?_outcome_of_isStop (isStop_of_advances ha) _
        (Thread.consume ((n, star greedy p) :: next) text k), ih hp]
    rfl

end Pattern

/-! ### Races -/

namespace Thread

/-- Whether trying finds what the race finds for every pattern of a thread. -/
def Plain (t : Thread) : Prop := ∀ np ∈ t, np.2.plain = true

theorem moves_spec {t : Thread} (ht : t.Plain) (before : Option Char) (text : List Char)
    (k : List Char → Option α) (passed : List Nat) :
    (t.moves false ⟨before, text⟩ passed).findSome? (Move.outcome (k text) k text) =
      t.consume text k := by
  induction t generalizing passed with
  | nil => simp [moves, consume, Move.outcome]
  | cons np next ih =>
    have hnext : Plain next := fun np h => ht np (List.mem_cons_of_mem _ h)
    rw [moves, Move.findSome?_outcome_followedBy (ih hnext)]
    exact Pattern.moves_spec (ht np List.mem_cons_self) ..

end Thread

/-- Whether the threads behind moves are plain. -/
def Move.Plain : Move → Prop
  | .stop _ => True
  | .take _ next => next.Plain

theorem Move.plain_followedBy {moves : List Move} {second : List Nat → List Move}
    (h : ∀ m ∈ moves, m.Plain) (hs : ∀ passed, ∀ m ∈ second passed, m.Plain) :
    ∀ m ∈ followedBy moves second, m.Plain := by
  induction moves with
  | nil => simp [followedBy]
  | cons m moves ih =>
    have hm := h m List.mem_cons_self
    have hmoves : ∀ m ∈ moves, m.Plain := fun m hm => h m (List.mem_cons_of_mem _ hm)
    cases m with
    | stop passed =>
      intro m hm
      rcases List.mem_append.1 hm with hm | hm
      · exact hs passed m hm
      · exact hmoves m (List.mem_filter.1 hm).1
    | take set next =>
      intro m' hm'
      rcases List.mem_cons.1 hm' with rfl | hm'
      · exact hm
      · exact ih hmoves m' hm'

theorem Move.plain_orStop {greedy : Bool} {moves : List Move} {passed : List Nat}
    (h : ∀ m ∈ moves, m.Plain) : ∀ m ∈ orStop greedy moves passed, m.Plain := by
  intro m hm
  cases greedy with
  | true =>
    rcases List.mem_append.1 hm with hm | hm
    · exact h m hm
    · rw [List.mem_singleton.1 hm]
      trivial
  | false =>
    rcases List.mem_cons.1 hm with rfl | hm
    · trivial
    · exact h m hm

/-- Threads stay plain. -/
theorem Pattern.plain_moves {p : Pattern} (hp : p.plain = true) {place : Place} {n : Nat}
    {next : Thread} {passed : List Nat} (hn : next.Plain) :
    ∀ m ∈ p.moves false place n next passed, m.Plain := by
  have push {q : Pattern} {n : Nat} {next : Thread} (hq : q.plain = true) (hn : next.Plain) :
      Thread.Plain ((n, q) :: next) := by
    rintro np (_ | ⟨_, h⟩)
    · exact hq
    · exact hn np h
  induction p generalizing n next passed with
  | empty => simp [moves, Move.Plain]
  | one set => simpa [moves, Move.Plain] using hn
  | anchor a =>
    rw [moves]
    split_ifs
    · simp [Move.Plain]
    · simp
  | seq p q ihp ihq =>
    obtain ⟨hp, hq⟩ := Bool.and_eq_true_iff.1 hp
    exact Move.plain_followedBy (ihp hp (push hq hn)) fun passed => ihq hq hn
  | alt p q ihp ihq =>
    obtain ⟨hp, hq⟩ := Bool.and_eq_true_iff.1 hp
    intro m hm
    rcases List.mem_append.1 hm with hm | hm
    · exact ihp hp hn m hm
    · exact ihq hq hn m hm
  | opt greedy p ih => exact Move.plain_orStop (ih hp hn)
  | star greedy p ih =>
    have hs := hp
    obtain ⟨ha, hp⟩ := Bool.and_eq_true_iff.1 hp
    exact Move.plain_orStop fun m hm => ih hp (push hs hn) m (List.mem_filter.1 hm).1
  | plus greedy p ih =>
    have hs := hp
    obtain ⟨ha, hp⟩ := Bool.and_eq_true_iff.1 hp
    refine Move.plain_followedBy (ih hp (push hs hn)) fun passed => ?_
    simp [pass, Move.Plain]

theorem Thread.plain_moves {t : Thread} (ht : t.Plain) {place : Place} {passed : List Nat} :
    ∀ m ∈ t.moves false place passed, m.Plain := by
  induction t generalizing passed with
  | nil => simp [moves, Move.Plain]
  | cons np next ih =>
    have hnext : Plain next := fun np h => ht np (List.mem_cons_of_mem _ h)
    exact Move.plain_followedBy (Pattern.plain_moves (ht np List.mem_cons_self) hnext)
      fun passed => ih hnext

theorem findSome?_filter {β : Type} {f : β → Option α} {p : β → Bool} {l : List β}
    (h : ∀ b, p b = false → f b = none) : (l.filter p).findSome? f = l.findSome? f := by
  induction l with
  | nil => rfl
  | cons b l ih =>
    cases hb : p b with
    | true => rw [List.filter_cons_of_pos hb, List.findSome?_cons, List.findSome?_cons, ih]
    | false => rw [List.filter_cons_of_neg (by simp [hb]), List.findSome?_cons, h b hb, ih]

theorem findSome?_eraseDups {β : Type} [BEq β] [LawfulBEq β] (f : β → Option α) (l : List β) :
    l.eraseDups.findSome? f = l.findSome? f := by
  induction hn : l.length using Nat.strongRecOn generalizing l with
  | ind n ihn =>
    rcases l with _ | ⟨b, l⟩
    · rfl
    · rw [List.eraseDups_cons, List.findSome?_cons, List.findSome?_cons,
        ihn _ (by rw [← hn]; exact Nat.lt_succ_of_le (List.length_filter_le ..)) _ rfl]
      cases hb : f b with
      | some a => rfl
      | none =>
        refine findSome?_filter fun x hx => ?_
        rw [show x = b by simpa using hx, hb]

namespace Move

theorem findSome?_outcome_nil (moves : List Move) :
    moves.findSome? (outcome (some []) some []) =
      if moves.any isStop then some [] else none := by
  induction moves with
  | nil => rfl
  | cons m moves ih =>
    cases m with
    | stop passed => rfl
    | take set next => exact ih

/-- Of the threads behind a character only those count whose moves stand before the first end. -/
theorem findSome?_outcome_cons (moves : List Move) (c : Char) (rest : List Char) :
    moves.findSome? (outcome (some (c :: rest)) some (c :: rest)) =
      (((moves.takeWhile fun m => !m.isStop).filterMap (next? c)).findSome?
        fun t => Thread.consume t rest some).or
          (if moves.any isStop then some (c :: rest) else none) := by
  induction moves with
  | nil => rfl
  | cons m moves ih =>
    cases m with
    | stop passed => rfl
    | take set next =>
      rw [List.findSome?_cons, ih]
      cases hc : set.contains c with
      | true =>
        cases hn : Thread.consume next rest some <;>
          simp [outcome, hc, hn, next?, isStop]
      | false => simp [outcome, hc, next?, isStop]

theorem plain_of_next? {c : Char} {m : Move} {t : Thread} (hm : m.Plain)
    (h : m.next? c = some t) : t.Plain := by
  cases m with
  | stop passed => cases h
  | take set next =>
    simp only [next?] at h
    split_ifs at h
    cases h
    exact hm

end Move

theorem Thread.findSome?_consume {threads : List Thread} (h : ∀ t ∈ threads, t.Plain)
    (before : Option Char) (text : List Char) :
    (threads.findSome? fun t => t.consume text some) =
      (threads.flatMap fun t => t.moves false ⟨before, text⟩ []).findSome?
        (Move.outcome (some text) some text) := by
  induction threads with
  | nil => rfl
  | cons t threads ih =>
    rw [List.flatMap_cons, List.findSome?_append,
      Thread.moves_spec (h t List.mem_cons_self) before text some [],
      ← ih fun t ht => h t (List.mem_cons_of_mem _ ht), List.findSome?_cons]
    cases t.consume text some <;> rfl

/-- **A race ends where trying does.** -/
theorem Thread.race_eq_consume {threads : List Thread} (h : ∀ t ∈ threads, t.Plain)
    (best : Option Place) (before : Option Char) (text : List Char) :
    (race false best threads before text).map Place.rest =
      (threads.findSome? fun t => t.consume text some).or (best.map Place.rest) := by
  induction text generalizing threads best before with
  | nil =>
    rcases threads with _ | ⟨t, threads⟩
    · rfl
    · rw [findSome?_consume h before, Move.findSome?_outcome_nil]
      simp only [race]
      split_ifs <;> rfl
  | cons c rest ih =>
    rcases threads with _ | ⟨t, threads⟩
    · rfl
    · rw [findSome?_consume h before, Move.findSome?_outcome_cons]
      simp only [race]
      rw [ih, findSome?_eraseDups, Option.or_assoc]
      · split_ifs <;> rfl
      · intro u hu
        obtain ⟨m, hm, hnext⟩ := List.mem_filterMap.1 (List.mem_eraseDups.1 hu)
        obtain ⟨v, hv, hmv⟩ := List.mem_flatMap.1 ((List.takeWhile_sublist _).subset hm)
        exact Move.plain_of_next? (plain_moves (h v hv) m hmv) hnext

/-- Threads with the same moves go on in the same way. -/
theorem Thread.race_congr {remember : Bool} {best : Option Place} {t u : Thread} {place : Place}
    (h : t.moves remember place [] = u.moves remember place []) :
    race remember best [t] place.before place.rest =
      race remember best [u] place.before place.rest := by
  obtain ⟨before, text⟩ := place
  cases text <;> simp only [race, List.flatMap_cons, h]

namespace Pattern

/-- Trying all that a pattern can take at the start of a text. -/
theorem finish?_eq_consume {p : Pattern} (hp : p.plain = true) (before : Option Char)
    (text : List Char) :
    (finish? p ⟨before, text⟩).map Place.rest = p.consume text some := by
  have h : ∀ t ∈ [[(0, p)]], Thread.Plain t := by
    simpa [Thread.Plain] using hp
  rw [finish?, hasIdleRounds_of_plain hp, Thread.race_eq_consume h]
  simp [Thread.consume, List.findSome?_cons]
  cases p.consume text some <;> rfl

/-- Trying a pattern that is tied to the start of the text. -/
theorem search_anchored {p : Pattern} (hp : p.plain = true) (text : List Char) :
    (search (seq (anchor .textStart) p) text).map Place.rest = p.consume text some := by
  have hmoves : Thread.moves false (.start text) [(0, seq (anchor .textStart) p)] [] =
      Thread.moves false (.start text) [(0, p)] [] := by
    simp [Thread.moves, moves, Anchor.holds, Place.start, Move.followedBy, Move.taking, choices]
  have hidle : (seq (anchor .textStart) p).hasIdleRounds = p.hasIdleRounds := by
    simp [hasIdleRounds]
  rw [← finish?_eq_consume hp none text, search, if_pos (by rfl), finish?, finish?, hidle,
    hasIdleRounds_of_plain hp]
  rw [Thread.race_congr hmoves]
  rfl

/-- **Matching from the start of a text is trying.** -/
theorem matchEnd?_eq_consume {p : Pattern} (hp : p.plain = true) (text : List Char) :
    (seq (anchor .textStart) p).matchEnd? text =
      (p.consume text some).map fun rest => text.length - rest.length := by
  rw [matchEnd?, ← search_anchored hp, Option.map_map]
  rfl

theorem isMatch_eq_consume {p : Pattern} (hp : p.plain = true) (text : List Char) :
    (seq (anchor .textStart) p).isMatch text = (p.consume text some).isSome := by
  rw [isMatch, ← search_anchored hp, Option.isSome_map]

end Pattern

end Criteria

import Criteria.Pattern.Matching
import Mathlib.Tactic.SplitIfs

/-!
# Matching by trying

`Pattern.consume` tries the ways to match one after the other: it takes the beginning of a text in
the most preferred way from which a given continuation succeeds. `Pattern.Takes` forgets the
preferences and says which rests a pattern may leave at all; `exists_takes_of_consume` and
`consume_congr` tie the two together.
-/

namespace Criteria

variable {α : Type}

namespace Pattern

/-! ### Trying -/

/-- The preferred one of going on and stopping, if it succeeds, or else the other. -/
def prefer (greedy : Bool) (more stop : Option α) : Option α :=
  if greedy then more.or stop else stop.or more

/-- Tries rounds that each take something and then the continuation `k`. -/
def rounds (greedy : Bool) (round : List Char → (List Char → Option α) → Option α)
    (text : List Char) (k : List Char → Option α) : Option α :=
  prefer greedy
    (round text fun rest =>
      if _ : rest.length < text.length then rounds greedy round rest k else none)
    (k text)
termination_by text.length

/-- Takes the beginning of a text in the first way for which `k` succeeds on the rest. -/
def consume : Pattern → List Char → (List Char → Option α) → Option α
  | empty, text, k => k text
  | one set, text, k =>
    match text with
    | [] => none
    | c :: rest => if set.contains c then k rest else none
  | anchor a, text, k => if a.holds (.start text) then k text else none
  | seq p q, text, k => p.consume text fun rest => q.consume rest k
  | alt p q, text, k => (p.consume text k).or (q.consume text k)
  | opt greedy p, text, k => prefer greedy (p.consume text k) (k text)
  | star greedy p, text, k => rounds greedy p.consume text k
  | plus greedy p, text, k => p.consume text fun rest => rounds greedy p.consume rest k

/-- Whether a pattern may take the beginning of a text and leave a given rest. -/
inductive Takes : Pattern → List Char → List Char → Prop where
  | empty (text) : Takes empty text text
  | one {set c} (rest) (h : set.contains c = true) : Takes (one set) (c :: rest) rest
  | anchor {a text} (h : a.holds (.start text) = true) : Takes (anchor a) text text
  | seq {p q text mid rest} (hp : Takes p text mid) (hq : Takes q mid rest) :
      Takes (seq p q) text rest
  | left {p q text rest} (h : Takes p text rest) : Takes (alt p q) text rest
  | right {p q text rest} (h : Takes q text rest) : Takes (alt p q) text rest
  | once {greedy p text rest} (h : Takes p text rest) : Takes (opt greedy p) text rest
  | absent {greedy p} (text) : Takes (opt greedy p) text text
  | done {greedy p} (text) : Takes (star greedy p) text text
  | round {greedy p text mid rest} (hp : Takes p text mid) (h : Takes (star greedy p) mid rest) :
      Takes (star greedy p) text rest
  | plus {greedy p text mid rest} (hp : Takes p text mid) (h : Takes (star greedy p) mid rest) :
      Takes (plus greedy p) text rest

theorem Takes.suffix {p : Pattern} {text rest : List Char} (h : p.Takes text rest) :
    rest <:+ text := by
  induction h with
  | empty text | anchor _ | absent text | done text => exact List.suffix_rfl
  | one rest _ => exact List.suffix_cons _ rest
  | left _ ih | right _ ih | once _ ih => exact ih
  | seq _ _ ih₁ ih₂ | round _ _ ih₁ ih₂ | plus _ _ ih₁ ih₂ => exact ih₂.trans ih₁

/-- A pattern that advances leaves less than the whole text. -/
theorem Takes.length_lt {p : Pattern} {text rest : List Char} (h : p.Takes text rest)
    (hp : p.advances = true) : rest.length < text.length := by
  induction h with
  | empty text | anchor _ | absent text | done text | once _ _ | round _ _ _ _ => cases hp
  | one rest _ => exact Nat.lt_succ_self _
  | seq h₁ h₂ ih₁ ih₂ =>
    have hle₁ := h₁.suffix.length_le
    have hle₂ := h₂.suffix.length_le
    rcases Bool.or_eq_true_iff.1 hp with hp | hp
    · exact Nat.lt_of_le_of_lt hle₂ (ih₁ hp)
    · exact Nat.lt_of_lt_of_le (ih₂ hp) hle₁
  | left _ ih => exact ih (Bool.and_eq_true_iff.1 hp).1
  | right _ ih => exact ih (Bool.and_eq_true_iff.1 hp).2
  | plus _ h₂ ih₁ _ => exact Nat.lt_of_le_of_lt h₂.suffix.length_le (ih₁ hp)

/-! ### What trying finds -/

theorem exists_of_prefer {greedy : Bool} {more stop : Option α} {a : α}
    (h : prefer greedy more stop = some a) : more = some a ∨ stop = some a := by
  unfold prefer at h
  split_ifs at h
  · rcases more with _ | b
    · exact .inr h
    · exact .inl h
  · rcases stop with _ | b
    · exact .inl h
    · exact .inr h

/-- Trying succeeds with a rest that the pattern may leave. -/
theorem exists_takes_of_consume {p : Pattern} {text : List Char} {k : List Char → Option α} {a : α}
    (h : p.consume text k = some a) : ∃ rest, p.Takes text rest ∧ k rest = some a := by
  have star {greedy : Bool} {p : Pattern}
      (ih : ∀ {text k}, p.consume text k = some a → ∃ rest, p.Takes text rest ∧ k rest = some a)
      (text : List Char) : ∀ {k}, rounds greedy p.consume text k = some a →
        ∃ rest, (star greedy p).Takes text rest ∧ k rest = some a := by
    induction hn : text.length using Nat.strongRecOn generalizing text with
    | ind n ihn =>
      intro k h
      rw [rounds] at h
      rcases exists_of_prefer h with h | h
      · obtain ⟨mid, hmid, h⟩ := ih h
        split_ifs at h with hlt
        obtain ⟨rest, hrest, hk⟩ := ihn _ (hn ▸ hlt) mid rfl h
        exact ⟨rest, .round hmid hrest, hk⟩
      · exact ⟨text, .done text, h⟩
  induction p generalizing text k with
  | empty => exact ⟨text, .empty text, h⟩
  | one set =>
    rcases text with _ | ⟨c, rest⟩
    · cases h
    · simp only [consume] at h
      split_ifs at h with hc
      exact ⟨rest, .one rest hc, h⟩
  | anchor b =>
    simp only [consume] at h
    split_ifs at h with hb
    exact ⟨text, .anchor hb, h⟩
  | seq p q ihp ihq =>
    obtain ⟨mid, hmid, h⟩ := ihp h
    obtain ⟨rest, hrest, hk⟩ := ihq h
    exact ⟨rest, .seq hmid hrest, hk⟩
  | alt p q ihp ihq =>
    rcases Option.or_eq_some_iff.1 h with h | ⟨-, h⟩
    · obtain ⟨rest, hrest, hk⟩ := ihp h
      exact ⟨rest, .left hrest, hk⟩
    · obtain ⟨rest, hrest, hk⟩ := ihq h
      exact ⟨rest, .right hrest, hk⟩
  | opt greedy p ih =>
    rcases exists_of_prefer h with h | h
    · obtain ⟨rest, hrest, hk⟩ := ih h
      exact ⟨rest, .once hrest, hk⟩
    · exact ⟨text, .absent text, h⟩
  | star greedy p ih => exact star ih text h
  | plus greedy p ih =>
    obtain ⟨mid, hmid, h⟩ := ih h
    obtain ⟨rest, hrest, hk⟩ := star ih mid h
    exact ⟨rest, .plus hmid hrest, hk⟩

/-- Only the rests that a pattern may leave matter to what follows. -/
theorem consume_congr {p : Pattern} {text : List Char} {k l : List Char → Option α}
    (h : ∀ rest, p.Takes text rest → k rest = l rest) : p.consume text k = p.consume text l := by
  have star {greedy : Bool} {p : Pattern}
      (ih : ∀ {text : List Char} {k l : List Char → Option α},
        (∀ rest, p.Takes text rest → k rest = l rest) → p.consume text k = p.consume text l)
      (text : List Char) : ∀ {k l : List Char → Option α},
        (∀ rest, (star greedy p).Takes text rest → k rest = l rest) →
        rounds greedy p.consume text k = rounds greedy p.consume text l := by
    induction hn : text.length using Nat.strongRecOn generalizing text with
    | ind n ihn =>
      intro k l h
      rw [rounds, rounds, h text (.done text)]
      refine congrArg (prefer greedy · _) (ih fun mid hmid => ?_)
      split_ifs with hlt
      · exact ihn _ (hn ▸ hlt) mid rfl fun rest hrest => h rest (.round hmid hrest)
      · rfl
  induction p generalizing text k l with
  | empty => exact h text (.empty text)
  | one set =>
    rcases text with _ | ⟨c, rest⟩
    · rfl
    · simp only [consume]
      split_ifs with hc
      · exact h rest (.one rest hc)
      · rfl
  | anchor b =>
    simp only [consume]
    split_ifs with hb
    · exact h text (.anchor hb)
    · rfl
  | seq p q ihp ihq => exact ihp fun mid hmid => ihq fun rest hrest => h rest (.seq hmid hrest)
  | alt p q ihp ihq =>
    rw [consume, consume, ihp fun rest hrest => h rest (.left hrest),
      ihq fun rest hrest => h rest (.right hrest)]
  | opt greedy p ih =>
    rw [consume, consume, ih fun rest hrest => h rest (.once hrest), h text (.absent text)]
  | star greedy p ih => exact star ih text h
  | plus greedy p ih =>
    exact ih fun mid hmid => star ih mid fun rest hrest => h rest (.plus hmid hrest)

/-- Where every round takes something, the rounds of a repetition need no bound. -/
theorem consume_star {greedy : Bool} {p : Pattern} (hp : p.advances = true) (text : List Char)
    (k : List Char → Option α) :
    (star greedy p).consume text k =
      prefer greedy (p.consume text fun rest => (star greedy p).consume rest k) (k text) := by
  rw [consume, rounds]
  refine congrArg (prefer greedy · _) (consume_congr fun rest h => ?_)
  rw [dif_pos (h.length_lt hp)]
  rfl

theorem consume_plus {greedy : Bool} {p : Pattern} (text : List Char) (k : List Char → Option α) :
    (plus greedy p).consume text k = p.consume text fun rest => (star greedy p).consume rest k :=
  rfl

end Pattern

end Criteria

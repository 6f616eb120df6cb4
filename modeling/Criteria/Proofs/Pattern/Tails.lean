import Criteria.Proofs.Pattern.Runs

/-!
# What stands behind a match

Another text behind a match does not change the match if its first character is none that the
pattern may take. Trying is followed on both texts side by side: where it succeeds in front of the
first tail it succeeds in front of the second one (`consume_carries`), and where it fails it fails.
Nothing is said of tries that take a part of the first tail as well; so a continuation must not give
back more than it was given.
-/

namespace Criteria.Pattern

/-- Whether what trying gives on a text with one tail carries over to the text with another tail. -/
structure Carries (tail tail' : List Char) (found found' : Option (List Char)) : Prop where
  of_none : found = none → found' = none
  of_some : ∀ rest, found = some (rest ++ tail) → found' = some (rest ++ tail')

/-- Whether a continuation gives no more than it is given. -/
def Shrinks (k : List Char → Option (List Char)) : Prop :=
  ∀ text rest, k text = some rest → rest.length ≤ text.length

variable {tail tail' : List Char}

namespace Carries

theorem none : Carries tail tail' none none := ⟨id, nofun⟩

theorem some (rest : List Char) : Carries tail tail' (some (rest ++ tail)) (some (rest ++ tail')) := by
  refine ⟨nofun, fun rest' h => ?_⟩
  rw [List.append_cancel_right (Option.some.inj h)]

variable {first first' second second' : Option (List Char)}

theorem or (h : Carries tail tail' first first') (h' : Carries tail tail' second second') :
    Carries tail tail' (first.or second) (first'.or second') := by
  cases first with
  | none =>
    rw [h.of_none rfl, Option.none_or, Option.none_or]
    exact h'
  | some found =>
    refine ⟨nofun, fun rest hrest => ?_⟩
    rw [h.of_some rest hrest, Option.some_or]

theorem prefer (greedy : Bool) (h : Carries tail tail' first first')
    (h' : Carries tail tail' second second') :
    Carries tail tail' (Pattern.prefer greedy first second)
      (Pattern.prefer greedy first' second') := by
  cases greedy with
  | true => exact h.or h'
  | false => exact h'.or h

end Carries

theorem shrinks_some : Shrinks some := fun _ _ h => Nat.le_of_eq (congrArg _ (Option.some.inj h).symm)

theorem Shrinks.consume {k : List Char → Option (List Char)} (hk : Shrinks k) (p : Pattern) :
    Shrinks fun text => p.consume text k := by
  intro text rest h
  obtain ⟨mid, htakes, hrest⟩ := exists_takes_of_consume h
  exact Nat.le_trans (hk mid rest hrest) htakes.suffix.length_le

/-- Whether trying a pattern gives the same in front of two tails, if what follows does. -/
def Indifferent (p : Pattern) (tail tail' : List Char) : Prop :=
  ∀ ⦃k k' : List Char → Option (List Char)⦄, Shrinks k →
    (∀ x, Carries tail tail' (k (x ++ tail)) (k' (x ++ tail'))) →
      ∀ x, Carries tail tail' (p.consume (x ++ tail) k) (p.consume (x ++ tail') k')

namespace Indifferent

variable {p q : Pattern}

theorem one {set : CharSet} (h : ∀ c ∈ tail'.head?, set.contains c = false) :
    Indifferent (one set) tail tail' := by
  intro k k' hk hcarries x
  rcases x with _ | ⟨c, x⟩
  · refine ⟨fun _ => ?_, fun rest hrest => ?_⟩
    · rcases tail' with _ | ⟨c, more⟩
      · rfl
      · rw [List.nil_append, consume_one_cons, h c rfl]
        rfl
    · -- a character of the tail is gone, so that what is left is too short
      rcases tail with _ | ⟨c, more⟩
      · cases hrest
      · rw [List.nil_append, consume_one_cons] at hrest
        split_ifs at hrest
        have hlen := hk more _ hrest
        rw [List.length_append, List.length_cons] at hlen
        omega
  · rw [List.cons_append, List.cons_append, consume_one_cons, consume_one_cons]
    split_ifs
    · exact hcarries x
    · exact .none

theorem seq (hp : Indifferent p tail tail') (hq : Indifferent q tail tail') :
    Indifferent (seq p q) tail tail' := fun _ _ hk hcarries x =>
  hp (hk.consume q) (hq hk hcarries) x

theorem alt (hp : Indifferent p tail tail') (hq : Indifferent q tail tail') :
    Indifferent (alt p q) tail tail' := fun _ _ hk hcarries x =>
  (hp hk hcarries x).or (hq hk hcarries x)

theorem opt (greedy : Bool) (hp : Indifferent p tail tail') :
    Indifferent (opt greedy p) tail tail' := fun _ _ hk hcarries x =>
  (hp hk hcarries x).prefer greedy (hcarries x)

theorem star (greedy : Bool) (hp : Indifferent p tail tail') :
    Indifferent (star greedy p) tail tail' := by
  intro k k' hk hcarries x
  rw [consume, consume]
  -- on the length of the text, since each round has to leave less
  induction hn : x.length using Nat.strongRecOn generalizing x with
  | ind n ih =>
  subst hn
  rw [rounds, rounds]
  refine (hp ?_ (fun y => ?_) x).prefer greedy (hcarries x)
  · intro text rest h
    dsimp only at h
    split_ifs at h
    exact hk.consume (Pattern.star greedy p) text rest h
  · simp only [List.length_append, Nat.add_lt_add_iff_right]
    split_ifs with hlt
    · exact ih y.length hlt y rfl
    · exact .none

theorem plus (greedy : Bool) (hp : Indifferent p tail tail') :
    Indifferent (plus greedy p) tail tail' := fun _ _ hk hcarries x =>
  hp (hk.consume (.star greedy p)) (hp.star greedy hk hcarries) x

end Indifferent

/-- **A match does not depend on what stands behind it**, if that starts with no character that the
pattern may take. -/
theorem indifferent {p : Pattern} (hp : p.unconditional = true)
    (htail : ∀ c ∈ tail'.head?, p.mayTake c = false) : p.Indifferent tail tail' := by
  have both {p q : Pattern} (h : ∀ c ∈ tail'.head?, (p.mayTake c || q.mayTake c) = false) :
      (∀ c ∈ tail'.head?, p.mayTake c = false) ∧ ∀ c ∈ tail'.head?, q.mayTake c = false :=
    ⟨fun c hc => (Bool.or_eq_false_iff.1 (h c hc)).1, fun c hc => (Bool.or_eq_false_iff.1 (h c hc)).2⟩
  induction p with
  | empty => exact fun _ _ _ hcarries => hcarries
  | one set => exact .one htail
  | anchor => cases hp
  | seq p q ihp ihq =>
    obtain ⟨hp, hq⟩ := Bool.and_eq_true_iff.1 hp
    obtain ⟨htp, htq⟩ := both htail
    exact (ihp hp htp).seq (ihq hq htq)
  | alt p q ihp ihq =>
    obtain ⟨hp, hq⟩ := Bool.and_eq_true_iff.1 hp
    obtain ⟨htp, htq⟩ := both htail
    exact (ihp hp htp).alt (ihq hq htq)
  | opt greedy p ih => exact (ih hp htail).opt greedy
  | star greedy p ih => exact (ih hp htail).star greedy
  | plus greedy p ih => exact (ih hp htail).plus greedy

theorem consume_carries {p : Pattern} (hp : p.unconditional = true)
    (htail : ∀ c ∈ tail'.head?, p.mayTake c = false) (x : List Char) :
    Carries tail tail' (p.consume (x ++ tail) some) (p.consume (x ++ tail') some) :=
  indifferent hp htail shrinks_some .some x

end Criteria.Pattern

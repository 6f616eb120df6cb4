import Criteria.Proofs.Pattern.Alternation

/-!
# The weight of a pattern

Bringing a pattern into normal form makes it heavier by a constant and by little for every branch.
So texts with a bar between them are a pattern unless they are very long
(`Pattern.exists_anchored?_bars`).
-/

namespace Criteria.Pattern

open Text

namespace Shape

/-- The weight of shapes together. -/
def total : List Shape → Nat
  | [] => 0
  | a :: as => a.weight + total as

@[simp] theorem total_nil : total [] = 0 := rfl

@[simp] theorem total_cons (a : Shape) (as : List Shape) : total (a :: as) = a.weight + total as := rfl

@[simp] theorem total_append (as bs : List Shape) : total (as ++ bs) = total as + total bs := by
  induction as with
  | nil => simp
  | cons a as ih => simp [ih, Nat.add_assoc]

theorem total_drop_le (as : List Shape) (n : Nat) : total (as.drop n) ≤ total as := by
  conv_rhs => rw [← List.take_append_drop n as, total_append]
  exact Nat.le_add_left _ _

/-! ### Sequences -/

theorem weight_ofParts_le (as : List Shape) : (ofParts as).weight ≤ total as + 32 := by
  induction as with
  | nil => exact Nat.le_refl _
  | cons a as ih =>
    rcases as with _ | ⟨b, as⟩
    · simp [ofParts]
    · have hcons : (ofParts (a :: b :: as)).weight = a.weight + (ofParts (b :: as)).weight := rfl
      rw [hcons, total_cons]
      omega

theorem total_parts_le (a : Shape) : total a.parts ≤ a.weight := by
  induction a with
  | seq a b _ ihb => exact Nat.add_le_add_left ihb _
  | empty | chars | one | anchor | alt | repeated | group => simp [parts]

theorem total_prepend (a : Shape) (as : List Shape) : total (prepend a as) = total (a :: as) := by
  unfold prepend
  split
  · simp [weight]
    omega
  · rfl

theorem total_foldr_prepend (as : List Shape) : total (as.foldr prepend []) = total as := by
  induction as with
  | nil => rfl
  | cons a as ih => rw [List.foldr_cons, total_prepend, total_cons, total_cons, ih]

theorem weight_sequence_le (as : List Shape) : (sequence as).weight ≤ total as + 32 := by
  have hparts : total (as.flatMap parts) ≤ total as := by
    induction as with
    | nil => exact Nat.le_refl _
    | cons a as ih =>
      rw [List.flatMap_cons, total_append, total_cons]
      exact Nat.add_le_add (total_parts_le a) ih
  refine Nat.le_trans (weight_ofParts_le _) ?_
  rw [total_foldr_prepend]
  omega

/-! ### Choices -/

theorem weight_unionAll_cons (a : CharSet) (sets : List CharSet) :
    (CharSet.unionAll (a :: sets)).weight = a.weight + (CharSet.unionAll sets).weight := by
  rcases sets with _ | ⟨b, sets⟩ <;> rfl

theorem weight_ofSet_le (set : CharSet) : (ofSet set).weight ≤ set.weight + 128 := by
  unfold ofSet
  split
  · next c _ =>
    have := c.utf8Size_le_four
    simp [weight]
    omega
  · simp [weight]
    omega

theorem weight_ofBranches_le (as : List Shape) :
    (ofBranches as).weight ≤ total as + 72 * as.length + 32 := by
  induction as with
  | nil => exact Nat.le_refl _
  | cons a as ih =>
    rcases as with _ | ⟨b, as⟩
    · simp [ofBranches]
      omega
    · have halt (b : Shape) : (alt a b).weight ≤ a.weight + b.weight + 72 := by
        cases b <;> simp [weight]
      have hcons : (ofBranches (a :: b :: as)).weight ≤ a.weight + (ofBranches (b :: as)).weight + 72 :=
        halt (ofBranches (b :: as))
      rw [total_cons, List.length_cons]
      omega

/-- A set of what shapes may be weighs little more than the shapes. -/
theorem weight_ofSet_unionAll_le {as : List Shape} {sets : List CharSet}
    (h : List.Forall₂ (fun a set => set.weight ≤ 2 * a.weight) as sets) :
    (ofSet (.unionAll sets)).weight ≤ 2 * total as + 128 := by
  refine Nat.le_trans (weight_ofSet_le _) (Nat.add_le_add_right ?_ 128)
  induction h with
  | nil => exact Nat.zero_le _
  | cons hab _ ih =>
    rw [weight_unionAll_cons, total_cons, Nat.mul_add]
    exact Nat.add_le_add hab ih

theorem weight_alternatives_le {as : List Shape} (h : ∀ a ∈ as, a.branches = [a]) :
    (alternatives as).weight ≤ 2 * total as + 72 * as.length + 128 := by
  unfold alternatives
  simp only [flatMap_branches h]
  split
  · next _ cs hcs =>
    have hweight : List.Forall₂ (fun a set => set.weight ≤ 2 * a.weight) as (cs.map CharSet.only) := by
      refine List.forall₂_map_right_iff.2 ((forall₂_of_mapM hcs).imp fun a c hc => ?_)
      unfold char? at hc
      split at hc
      · cases hc
        have := c.utf8Size_pos
        simp only [CharSet.only, CharSet.weight, weight, byteLength_cons, byteLength_nil]
        split_ifs <;> omega
      · cases hc
    have := weight_ofSet_unionAll_le hweight
    omega
  · next sets hsets _ =>
    have hweight : List.Forall₂ (fun a set => set.weight ≤ 2 * a.weight) as sets := by
      refine (forall₂_of_mapM hsets).imp fun a set hset => ?_
      unfold set? at hset
      split at hset
      · cases hset
        rw [weight]
        omega
      · cases hset
    have := weight_ofSet_unionAll_le hweight
    omega
  · have := weight_ofBranches_le as
    omega

theorem total_map_ofParts_le (L : List (List Shape)) :
    total (L.map ofParts) ≤ total L.flatten + 32 * L.length := by
  induction L with
  | nil => exact Nat.le_refl _
  | cons as L ih =>
    have := weight_ofParts_le as
    rw [List.map_cons, total_cons, List.flatten_cons, total_append, List.length_cons]
    omega

theorem total_flatten_drop_le (L : List (List Shape)) (n : Nat) :
    total (L.map (·.drop n)).flatten ≤ total L.flatten := by
  induction L with
  | nil => exact Nat.le_refl _
  | cons as L ih =>
    rw [List.map_cons, List.flatten_cons, List.flatten_cons, total_append, total_append]
    exact Nat.add_le_add (total_drop_le as n) ih

/-- Alternatives between texts. -/
theorem weight_alternatives_map_le {L : List (List Shape)} (hL : ∀ as ∈ L, FixedParts as) :
    (alternatives (L.map ofParts)).weight ≤ 2 * total L.flatten + 136 * L.length + 128 := by
  have := weight_alternatives_le (List.forall_mem_map.2 fun as has => (hL as has).branches_eq)
  have := total_map_ofParts_le L
  rw [List.length_map] at *
  omega

/-- A choice between texts. -/
theorem weight_choice_le {L : List (List Shape)} (hL : ∀ as ∈ L, FixedParts as) :
    (choice (L.map ofParts)).weight ≤ 3 * total L.flatten + 136 * L.length + 160 := by
  have halternatives := weight_alternatives_map_le hL
  unfold choice
  rw [parts_of_branches hL]
  rcases L with _ | ⟨a, _ | ⟨b, rest⟩⟩
  · simp [weight]
  · have hle := weight_ofParts_le a
    simp only [List.flatten_singleton]
    omega
  simp only
  split_ifs
  · refine Nat.le_trans halternatives ?_
    omega
  · generalize hstart : (b :: rest).foldl commonStart a = start
    have hinitial : total start ≤ total a := by
      obtain ⟨back, hback⟩ := hstart ▸ foldl_commonStart_initial a (b :: rest)
      rw [← hback, total_append]
      exact Nat.le_add_right _ _
    have hdrop : ∀ as ∈ (a :: b :: rest).map (·.drop start.length), FixedParts as :=
      List.forall_mem_map.2 fun as has p hp => hL as has p (List.mem_of_mem_drop hp)
    have hends : ((a :: b :: rest).map fun as => ofParts (as.drop start.length)) =
        ((a :: b :: rest).map (·.drop start.length)).map ofParts := by
      rw [List.map_map]
      rfl
    have hsequence := weight_sequence_le (start ++
      [alternatives (((a :: b :: rest).map (·.drop start.length)).map ofParts)])
    have hrest := weight_alternatives_map_le hdrop
    have hle := total_flatten_drop_le (a :: b :: rest) start.length
    have hfirst : total a ≤ total (a :: b :: rest).flatten := by
      rw [List.flatten_cons, total_append]
      exact Nat.le_add_right _ _
    rw [total_append, total_cons, total_nil] at hsequence
    rw [List.length_map] at hrest
    rw [hends]
    omega

end Shape

/-! ### Texts with a bar between them -/

theorem weight_ofChar_le (ignoreCase : Bool) {c : Char} (hc : c.toNat < 128) :
    (Shape.ofChar ignoreCase c).weight ≤ 280 := by
  have table : ∀ n < 128, ∀ i : Bool, (Shape.ofChar i (Char.ofNat n)).weight ≤ 280 := by decide +kernel
  exact forall_ascii (p := fun c => ∀ i : Bool, (Shape.ofChar i c).weight ≤ 280) table hc ignoreCase

theorem total_textParts_le (ignoreCase : Bool) {cs : List Char} (hcs : ∀ c ∈ cs, c.toNat < 128) :
    Shape.total (textParts ignoreCase cs) ≤ 280 * cs.length := by
  rw [textParts, Shape.total_foldr_prepend]
  induction cs with
  | nil => exact Nat.le_refl _
  | cons c cs ih =>
    obtain ⟨hc, hcs⟩ := List.forall_mem_cons.1 hcs
    have := weight_ofChar_le ignoreCase hc
    have := ih hcs
    rw [List.map_cons, Shape.total_cons, List.length_cons]
    omega

theorem Shape.weight_tied_le (a : Shape) : a.tied.weight ≤ a.weight + 96 := by
  have hbehind : total a.behindTie ≤ a.weight + 32 := by
    refine Nat.le_trans (total_parts_le _) (Nat.le_trans (weight_ofParts_le _) ?_)
    rw [total_foldr_prepend]
    exact Nat.add_le_add_right (total_parts_le a) 32
  have := weight_ofParts_le (.anchor .textStart :: a.behindTie)
  rw [total_cons, weight] at this
  rw [tied_eq]
  omega

/-- **Texts with a bar between them are a pattern** unless they are very long. -/
theorem exists_anchored?_bars (ignoreCase : Bool) {texts : List (List Char)} (hne : texts ≠ [])
    (hascii : ∀ cs ∈ texts, ∀ c ∈ cs, c.toNat < 128) (htexts : ∀ cs ∈ texts, cs ≠ [])
    (hlength : texts.flatten.length ≤ 10000) {source : String} (hsource : source.toList = bars texts) :
    ∃ p, anchored? ignoreCase source = some p := by
  have hweight : Shape.total (texts.map (textParts ignoreCase)).flatten ≤ 280 * texts.flatten.length ∧
      texts.length ≤ texts.flatten.length := by
    clear hne hsource hlength
    induction texts with
    | nil => exact ⟨Nat.le_refl _, Nat.le_refl _⟩
    | cons cs texts ih =>
      obtain ⟨hcs, hascii⟩ := List.forall_mem_cons.1 hascii
      obtain ⟨hne, htexts⟩ := List.forall_mem_cons.1 htexts
      have := total_textParts_le ignoreCase hcs
      have := List.length_pos_iff.2 hne
      have := ih hascii htexts
      simp only [List.map_cons, List.flatten_cons, Shape.total_append, List.length_append, List.length_cons]
      omega
  have hchoice := Shape.weight_choice_le (L := texts.map (textParts ignoreCase))
    (List.forall_mem_map.2 fun cs hcs => fixedParts_textParts ignoreCase (hascii cs hcs))
  rw [List.map_map, List.length_map] at hchoice
  have htied := Shape.weight_tied_le (anyText ignoreCase texts)
  have hany : (anyText ignoreCase texts).weight ≤ _ := hchoice
  refine ⟨_, (anchored?_bars ignoreCase hne hsource).trans (if_pos ?_)⟩
  rw [Reading.weightLimit]
  omega

end Criteria.Pattern

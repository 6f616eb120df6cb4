import Criteria.Proofs.Evaluation.Ordering
import Criteria.Proofs.Value.Hashing
import Mathlib.Data.Set.Card

/-!
# Counting different values

* `Value.classes`: the classes of equal values in a list. What is collected by any hash holds one value
  of each (`Hashing.length_collect`), and so does a list without its repetitions
  (`Evaluation.distinctCount_eq_ncard`);
* `Term.evaluate_countDistinct`, `Term.evaluate_count`, `Term.evaluate_isIn_list`: what is counted and
  found in a list;
* `Term.countDistinct_laws`: equality, hashing, counting and membership agree.
-/

namespace Criteria

theorem nodup_eraseDups {α : Type} [BEq α] [LawfulBEq α] (l : List α) : l.eraseDups.Nodup := by
  induction hn : l.length using Nat.strongRecOn generalizing l with
  | ind n ihn =>
    rcases l with _ | ⟨a, l⟩
    · exact List.nodup_nil
    · rw [List.eraseDups_cons, List.nodup_cons]
      refine ⟨by simp, ihn _ ?_ _ rfl⟩
      rw [← hn]
      exact Nat.lt_succ_of_le (List.length_filter_le _ _)

namespace Value

/-- Values up to equality. -/
def setoid : Setoid Value := ⟨fun a b => (a == b) = true, equivalence_beq⟩

/-- The classes of equal values in a list. -/
def classes (items : List Value) : Set (Quotient setoid) :=
  {c | ∃ v ∈ items, Quotient.mk setoid v = c}

variable {items others : List Value}

theorem classes_congr (h : ∀ v, v ∈ others ↔ v ∈ items) : classes others = classes items := by
  simp only [classes, h]

theorem ncard_classes (items : List Value) : (classes items).ncard = items.toFinset.card := by
  have hinjective : Function.Injective (Quotient.mk setoid) :=
    fun a b h => eq_of_beq (Quotient.exact h)
  have himage : classes items = Quotient.mk setoid '' items.toFinset := by
    ext c
    simp [classes]
  rw [himage, Set.ncard_image_of_injective _ hinjective, Set.ncard_coe_finset]

/-- A list with every value once has as many classes as values. -/
theorem ncard_classes_of_nodup (h : items.Nodup) : (classes items).ncard = items.length := by
  rw [ncard_classes, List.toFinset_card_of_nodup h]

theorem ncard_classes_le (items : List Value) : (classes items).ncard ≤ items.length := by
  rw [ncard_classes]
  exact items.toFinset_card_le

/-- One more value makes one more class unless it is in the list. -/
theorem ncard_classes_cons (v : Value) (items : List Value) : (classes (v :: items)).ncard =
    if v ∈ items then (classes items).ncard else (classes items).ncard + 1 := by
  rw [ncard_classes, ncard_classes, List.toFinset_cons, Finset.card_insert_eq_ite]
  simp only [List.mem_toFinset]

end Value

open Value

/-- **Collecting by hash keeps one value of each class**, whatever the hash. -/
theorem Hashing.length_collect (h : Hashing) (items : List Value) :
    (h.collect items).length = (classes items).ncard := by
  rw [← ncard_classes_of_nodup h.nodup_collect, classes_congr fun v => h.mem_collect]

namespace Evaluation

theorem distinctCount_eq_ncard (items : List Value) : distinctCount items = (classes items).ncard := by
  rw [distinctCount, ← ncard_classes_of_nodup (nodup_eraseDups items),
    classes_congr fun v => List.mem_eraseDups]

end Evaluation

namespace Term

open Evaluation

variable {document : Option Value} {t x : Term} {items : List Value} {v : Value}

theorem evaluate_countDistinct (h : t.evaluate document = .ok (.list items)) :
    (apply .countDistinct [t]).evaluate document = .ok (.long (.ofNat (classes items).ncard)) := by
  rw [evaluate, Operator.evaluate, h, ← distinctCount_eq_ncard]
  rfl

theorem evaluate_count (h : t.evaluate document = .ok (.list items)) :
    (apply .count [t]).evaluate document = .ok (.long (.ofNat items.length)) := by
  rw [evaluate, Operator.evaluate, h]
  rfl

theorem evaluate_isIn_list (hx : x.evaluate document = .ok v)
    (h : t.evaluate document = .ok (.list items)) :
    (apply .isIn [x, t]).evaluate document = .ok (.boolean (items.contains v)) := by
  rw [evaluate, Operator.evaluate_pair rfl (by decide), hx, h]
  rfl

/-- There are as many different values in lists with the same members. -/
theorem evaluate_countDistinct_congr {u : Term} {others : List Value}
    (ht : t.evaluate document = .ok (.list items)) (hu : u.evaluate document = .ok (.list others))
    (h : ∀ v, v ∈ others ↔ v ∈ items) :
    (apply .countDistinct [u]).evaluate document = (apply .countDistinct [t]).evaluate document := by
  rw [evaluate_countDistinct ht, evaluate_countDistinct hu, classes_congr h]

/-- A value is in a list just if there are as many different values with it as without. -/
theorem evaluate_isIn_iff_countDistinct {u : Term} {others : List Value}
    (ht : t.evaluate document = .ok (.list items)) (hx : x.evaluate document = .ok v)
    (hu : u.evaluate document = .ok (.list others)) (h : others.Perm (v :: items)) :
    (apply .isIn [x, t]).evaluate document = .ok (.boolean true) ↔
      (apply .countDistinct [u]).evaluate document =
        (apply .countDistinct [t]).evaluate document := by
  have hnext (n : Nat) : Int64.ofNat (n + 1) ≠ Int64.ofNat n := by
    intro heq
    simpa using congrArg Int64.toBitVec heq
  rw [evaluate_isIn_list hx ht, evaluate_countDistinct ht, evaluate_countDistinct hu,
    classes_congr fun w => h.mem_iff, ncard_classes_cons]
  simp only [Except.ok.injEq, Value.boolean.injEq, Value.long.injEq, List.contains_iff_mem]
  split
  · next hv => exact iff_of_true hv rfl
  · next hv => exact iff_of_false hv (hnext _)

/-- There are at most as many different values in a list as values. -/
theorem evaluate_countDistinct_le_count (h : t.evaluate document = .ok (.list items))
    (hlength : items.length < 2 ^ 63) :
    (apply .lessOrEqual [apply .countDistinct [t], apply .count [t]]).evaluate document =
      .ok (.boolean true) := by
  have hle := ncard_classes_le items
  have hcount : (Int64.ofNat (classes items).ncard).toInt ≤ (Int64.ofNat items.length).toInt := by
    rw [Int64.toInt_ofNat_of_lt (by omega), Int64.toInt_ofNat_of_lt hlength]
    omega
  refine (evaluate_comparison_iff rfl).2
    ⟨_, _, evaluate_countDistinct h, evaluate_count h, _, rfl, congrArg Value.boolean ?_⟩
  exact (bne_iff_ne.2 (compare_le_iff_le.2 hcount)).symm

/-- **Equality, hashing, counting and membership agree.** Equality of values is an equivalence, and
just equal values write the same to a hasher. So the different values in a list are counted by its
classes, and collecting them by any hash gives as many. They are at most as many as the values, stay as
many when the list is reordered or a value is repeated, and a value is in the list just if there are as
many with it as without. -/
theorem countDistinct_laws :
    Equivalence (fun a b : Value => (a == b) = true) ∧
    (∀ a b : Value, (a == b) = true ↔ a.hashWrites = b.hashWrites) ∧
    ∀ (document : Option Value) (t : Term) (items : List Value),
      t.evaluate document = .ok (.list items) →
      (apply .countDistinct [t]).evaluate document = .ok (.long (.ofNat (classes items).ncard)) ∧
      (∀ h : Hashing, (h.collect items).length = (classes items).ncard) ∧
      (apply .count [t]).evaluate document = .ok (.long (.ofNat items.length)) ∧
      (classes items).ncard ≤ items.length ∧
      (items.length < 2 ^ 63 →
        (apply .lessOrEqual [apply .countDistinct [t], apply .count [t]]).evaluate document =
          .ok (.boolean true)) ∧
      ∀ (u : Term) (others : List Value), u.evaluate document = .ok (.list others) →
        (others.Perm items → (apply .countDistinct [u]).evaluate document =
          (apply .countDistinct [t]).evaluate document) ∧
        (∀ v ∈ items, others.Perm (v :: items) → (apply .countDistinct [u]).evaluate document =
          (apply .countDistinct [t]).evaluate document) ∧
        ∀ (x : Term) (v : Value), x.evaluate document = .ok v → others.Perm (v :: items) →
          ((apply .isIn [x, t]).evaluate document = .ok (.boolean true) ↔
            (apply .countDistinct [u]).evaluate document =
              (apply .countDistinct [t]).evaluate document) := by
  refine ⟨equivalence_beq, fun a b => beq_iff_hashWrites_eq, fun document t items ht => ?_⟩
  refine ⟨evaluate_countDistinct ht, fun h => h.length_collect items, evaluate_count ht,
    ncard_classes_le items, evaluate_countDistinct_le_count ht, fun u others hu => ⟨?_, ?_, ?_⟩⟩
  · intro hperm
    exact evaluate_countDistinct_congr ht hu fun v => hperm.mem_iff
  · intro v hv hperm
    refine evaluate_countDistinct_congr ht hu fun w => ?_
    rw [hperm.mem_iff, List.mem_cons, or_iff_right_of_imp (fun hw => hw ▸ hv)]
  · intro x v hx hperm
    exact evaluate_isIn_iff_countDistinct ht hx hu hperm

/-- Five values of four classes: a not-a-number is equal to itself, also inside a list, and the zeros
are different. -/
theorem countDistinct_laws_nan :
    let nan := Value.double .nan
    let items := [nan, .double .zero, .double (.signedZero true), .list [nan], nan]
    let t := literal (.list items)
    t.evaluate none = .ok (.list items) ∧
      (apply .countDistinct [t]).evaluate none = .ok (.long (.ofNat (classes items).ncard)) ∧
      (apply .countDistinct [t]).evaluate none = .ok (.long 4) ∧
      (apply .lessOrEqual [apply .countDistinct [t], apply .count [t]]).evaluate none =
        .ok (.boolean true) ∧
      (apply .isIn [literal (.list [nan]), t]).evaluate none = .ok (.boolean true) := by
  intro nan items t
  obtain ⟨-, -, hlaws⟩ := countDistinct_laws
  obtain ⟨hclasses, -, -, -, hcount, hother⟩ := hlaws none t items rfl
  obtain ⟨-, -, hmember⟩ := hother (literal (.list (.list [nan] :: items))) _ rfl
  refine ⟨rfl, hclasses, by decide, hcount (by decide), ?_⟩
  exact (hmember (literal (.list [nan])) (.list [nan]) rfl (.refl _)).2 (by decide)

end Term

end Criteria

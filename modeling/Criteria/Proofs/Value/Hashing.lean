import Criteria.Value.Hashing
import Mathlib.Data.List.Nodup

/-!
# Equality and hashing of values

What a value writes to a hasher can be told from what is written behind it
(`Value.hashWrites_append_inj`), so that two values write the same just if they are equal
(`Value.beq_iff_hashWrites_eq`). A search by hash therefore finds a value in a set just if it is there,
whatever the hash (`Hashing.finds_iff`), and what is collected holds each value of a list once
(`Hashing.nodup_collect`, `Hashing.mem_collect`).
-/

namespace Criteria

namespace Value

/-! ### What values write -/

mutual

/-- **What a value writes ends by itself.** The first write tells the variant, and lengths tell how many
items and fields follow. -/
theorem hashWrites_append_inj : ∀ (a b : Value) {r s : List HashWrite},
    a.hashWrites ++ r = b.hashWrites ++ s → a = b ∧ r = s
  | null, b => by cases b <;> simp [hashWrites]
  | boolean _, b => by cases b <;> simp [hashWrites]
  | integer _, b => by cases b <;> simp [hashWrites]
  | long _, b => by cases b <;> simp [hashWrites]
  | double x, b => by
    cases b <;> simp [hashWrites]
    exact fun hbits h => ⟨congrArg Binary64.mk hbits, h⟩
  | string _, b => by cases b <;> simp [hashWrites]
  | guid _, b => by cases b <;> simp [hashWrites]
  | date _, b => by cases b <;> simp [hashWrites]
  | dateTime _, b => by cases b <;> simp [hashWrites]
  | list as, b => by
    cases b <;> simp [hashWrites]
    exact fun hlength h => hashItems_append_inj as _ hlength h
  | object as, b => by
    cases b <;> simp [hashWrites]
    exact fun hlength h => hashFields_append_inj as _ hlength h

theorem hashItems_append_inj : ∀ (as bs : List Value) {r s : List HashWrite},
    as.length = bs.length → hashItems as ++ r = hashItems bs ++ s → as = bs ∧ r = s
  | [], [], _, _, _, h => ⟨rfl, h⟩
  | a :: as, b :: bs, r, s, hlength, h => by
    rw [hashItems, hashItems, List.append_assoc, List.append_assoc] at h
    obtain ⟨hab, h⟩ := hashWrites_append_inj a b h
    obtain ⟨hrest, h⟩ := hashItems_append_inj as bs (Nat.succ.inj hlength) h
    exact ⟨by rw [hab, hrest], h⟩

theorem hashFields_append_inj : ∀ (as bs : List (String × Value)) {r s : List HashWrite},
    as.length = bs.length → hashFields as ++ r = hashFields bs ++ s → as = bs ∧ r = s
  | [], [], _, _, _, h => ⟨rfl, h⟩
  | (j, a) :: as, (k, b) :: bs, r, s, hlength, h => by
    simp only [hashFields, List.cons_append, List.append_assoc, List.cons.injEq,
      HashWrite.string.injEq] at h
    obtain ⟨hname, h⟩ := h
    obtain ⟨hab, h⟩ := hashWrites_append_inj a b h
    obtain ⟨hrest, h⟩ := hashFields_append_inj as bs (Nat.succ.inj hlength) h
    exact ⟨by rw [hname, hab, hrest], h⟩

end

/-- **Equal values write the same to a hasher**, and different values do not. -/
theorem beq_iff_hashWrites_eq {a b : Value} : (a == b) = true ↔ a.hashWrites = b.hashWrites := by
  rw [beq_iff_eq]
  refine ⟨congrArg hashWrites, fun h => ?_⟩
  exact (hashWrites_append_inj a b (congrArg (· ++ []) h)).1

/-- Equality of values is an equivalence. -/
theorem equivalence_beq : Equivalence fun a b : Value => (a == b) = true where
  refl a := beq_self_eq_true a
  symm h := BEq.symm h
  trans h h' := BEq.trans h h'

end Value

/-! ### Sets of values -/

namespace Hashing

variable (h : Hashing) {entries items : List Value} {v w : Value}

/-- A value is found just where it is: an equal entry has the same hash, and no search misses that. -/
theorem finds_iff : h.finds entries v = true ↔ v ∈ entries := by
  rw [finds, List.any_eq_true]
  constructor
  · rintro ⟨w, hw, hfound⟩
    rw [Bool.and_eq_true] at hfound
    rwa [eq_of_beq hfound.2]
  · intro hv
    exact ⟨v, hv, by rw [h.passes_self, beq_self_eq_true, Bool.and_self]⟩

theorem mem_insert : w ∈ h.insert entries v ↔ w ∈ entries ∨ w = v := by
  unfold insert
  split
  · next hfound =>
    have hv := h.finds_iff.1 hfound
    exact ⟨.inl, fun hw => hw.elim id fun heq => heq ▸ hv⟩
  · rw [List.mem_append, List.mem_singleton]

theorem nodup_insert (hentries : entries.Nodup) : (h.insert entries v).Nodup := by
  unfold insert
  split
  · exact hentries
  · next hfound =>
    rw [finds_iff] at hfound
    exact List.nodup_append.2 ⟨hentries, List.nodup_singleton v,
      fun a ha b hb hab => hfound (List.mem_singleton.1 hb ▸ hab ▸ ha)⟩

theorem mem_collect : v ∈ h.collect items ↔ v ∈ items := by
  have hfold (entries : List Value) :
      v ∈ items.foldl h.insert entries ↔ v ∈ entries ∨ v ∈ items := by
    induction items generalizing entries with
    | nil => simp
    | cons w items ih => rw [List.foldl_cons, ih, mem_insert, List.mem_cons, or_assoc]
  simpa [collect] using hfold []

theorem nodup_collect : (h.collect items).Nodup := by
  have hfold (entries : List Value) (hentries : entries.Nodup) :
      (items.foldl h.insert entries).Nodup := by
    induction items generalizing entries with
    | nil => exact hentries
    | cons w items ih => exact ih _ (h.nodup_insert hentries)
  exact hfold [] List.nodup_nil

end Hashing

end Criteria

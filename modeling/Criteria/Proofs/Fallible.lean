import Mathlib.Data.List.Forall2

/-!
# Steps that can fail

When a computation in `Except` that is made of others succeeds and when it fails. The steps over a
list succeed exactly if each of them does, and give what each gives in its place (`mapM_eq_ok_iff`).
-/

namespace Criteria

variable {ε α β : Type}

@[simp] theorem ok_bind (a : α) (f : α → Except ε β) : (Except.ok a >>= f) = f a := rfl

@[simp] theorem error_bind (e : ε) (f : α → Except ε β) : (Except.error e >>= f) = .error e := rfl

theorem bind_eq_ok_iff {x : Except ε α} {f : α → Except ε β} {b : β} :
    x >>= f = .ok b ↔ ∃ a, x = .ok a ∧ f a = .ok b := by
  cases x <;> simp

theorem bind_eq_error_iff {x : Except ε α} {f : α → Except ε β} {e : ε} :
    x >>= f = .error e ↔ x = .error e ∨ ∃ a, x = .ok a ∧ f a = .error e := by
  cases x <;> simp

@[simp] theorem map_ok (f : α → β) (a : α) : f <$> (Except.ok a : Except ε α) = .ok (f a) := rfl

@[simp] theorem map_error (f : α → β) (e : ε) :
    f <$> (Except.error e : Except ε α) = .error e := rfl

theorem map_eq_ok_iff {x : Except ε α} {f : α → β} {b : β} :
    f <$> x = .ok b ↔ ∃ a, x = .ok a ∧ f a = b := by
  cases x with
  | error e => exact ⟨nofun, nofun⟩
  | ok a => exact ⟨fun h => ⟨a, rfl, Except.ok.inj h⟩, fun ⟨_, h, hb⟩ => by cases h; rw [← hb]; rfl⟩

section Lists

variable {f : α → Except ε β} {as as' : List α} {b : β} {bs cs : List β}

theorem mapM_eq_ok_iff : as.mapM f = .ok bs ↔ List.Forall₂ (fun a b => f a = .ok b) as bs := by
  induction as generalizing bs with
  | nil => exact ⟨fun h => by cases h; exact .nil, fun h => by cases h; rfl⟩
  | cons a as ih =>
    rw [List.mapM_cons, bind_eq_ok_iff]
    constructor
    · rintro ⟨b, hb, h⟩
      obtain ⟨bs, hbs, h⟩ := bind_eq_ok_iff.1 h
      cases h
      exact .cons hb (ih.1 hbs)
    · rintro (_ | @⟨_, b, _, bs, hb, hbs⟩)
      exact ⟨b, hb, bind_eq_ok_iff.2 ⟨bs, ih.2 hbs, rfl⟩⟩

theorem exists_of_mapM (h : as.mapM f = .ok bs) : ∀ b ∈ bs, ∃ a ∈ as, f a = .ok b := by
  intro b hb
  obtain ⟨i, hi, rfl⟩ := List.getElem_of_mem hb
  have hplaces := mapM_eq_ok_iff.1 h
  have hi' : i < as.length := hplaces.length_eq ▸ hi
  exact ⟨as[i], List.getElem_mem hi', hplaces.get hi' hi⟩

/-- Steps that give one list and then another one have been made of two lists in turn. -/
theorem exists_append_of_mapM (h : as.mapM f = .ok (bs ++ cs)) :
    ∃ front back, as = front ++ back ∧ front.mapM f = .ok bs ∧ back.mapM f = .ok cs := by
  have hplaces := mapM_eq_ok_iff.1 h
  exact ⟨as.take bs.length, as.drop bs.length, (List.take_append_drop _ _).symm,
    mapM_eq_ok_iff.2 (List.forall₂_take_append as bs cs hplaces),
    mapM_eq_ok_iff.2 (List.forall₂_drop_append as bs cs hplaces)⟩

theorem exists_of_mapM_singleton (h : as.mapM f = .ok [b]) : ∃ a, as = [a] ∧ f a = .ok b := by
  obtain ⟨a, _, hb, hnil, rfl⟩ := List.forall₂_cons_right_iff.1 (mapM_eq_ok_iff.1 h)
  rw [List.forall₂_nil_right_iff.1 hnil]
  exact ⟨a, rfl, hb⟩

/-- Steps that give the same list have given the same in each place. -/
theorem forall₂_of_mapM_eq (h : as.mapM f = .ok bs) (h' : as'.mapM f = .ok bs) :
    List.Forall₂ (fun a a' => f a = f a') as as' := by
  replace h := mapM_eq_ok_iff.1 h
  replace h' := mapM_eq_ok_iff.1 h'
  induction h generalizing as' with
  | nil =>
    cases h'
    exact .nil
  | cons hb _ ih =>
    obtain _ | ⟨hb', h'⟩ := h'
    exact .cons (hb.trans hb'.symm) (ih h')

end Lists

end Criteria

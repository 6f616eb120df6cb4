import Criteria.Pattern.Shape
import Criteria.Proofs.Pattern.Runs
import Criteria.Proofs.Text.Variants

/-!
# The normal form of a pattern

Bringing a pattern into normal form does not change what is matched. For a sequence this is so
whatever its parts are (`Shape.consume_sequence`). A choice is the same if its branches are texts,
that is, sequences of characters and of sets (`Shape.consume_choice`): there is one way at most to
match what they have in common at the start, and so it does not matter that it is matched before the
choice.

Whether two sets are the same, and whether a set has one member only, is found out at the landmarks of
the sets. It is found out correctly of sets whose members are landmarks themselves (`CharSet.Listed`).
-/

namespace Criteria

open Text

variable {α : Type}

/-! ### Sets and their landmarks -/

namespace CharSet

/-- Whether all members of a set are among its landmarks. -/
def Listed (a : CharSet) : Prop := ∀ c, a.contains c = true → c ∈ a.landmarks

theorem charFrom?_toNat (c : Char) : charFrom? c.toNat = some c := by
  have hvalid : c.toNat.isValidChar := c.valid
  rw [charFrom?, if_pos hvalid, Char.ofNat_toNat]

theorem mem_landmarks_of_mem_edges {a : CharSet} {c : Char} (h : c.toNat ∈ a.edges) :
    c ∈ a.landmarks :=
  List.mem_filterMap.2 ⟨c.toNat, List.mem_cons_of_mem _ h, charFrom?_toNat c⟩

theorem listed_only (c : Char) : (only c).Listed := by
  intro d hd
  rw [contains_only_iff.1 hd]
  exact mem_landmarks_of_mem_edges List.mem_cons_self

theorem listed_folded_only {c : Char} (hc : c.toNat < 128) : (folded (only c)).Listed := by
  have table : ∀ n < 128, ∀ v ∈ caseVariants (Char.ofNat n),
      v ∈ (folded (only (Char.ofNat n))).landmarks := by decide +kernel
  intro d hd
  exact forall_ascii (p := fun c => ∀ v ∈ caseVariants c, v ∈ (folded (only c)).landmarks) table hc d
    ((contains_folded_only hc).1 hd)

theorem Listed.union {a b : CharSet} (ha : a.Listed) (hb : b.Listed) : (union a b).Listed := by
  intro c hc
  simp only [contains_union, Bool.or_eq_true] at hc
  have hedges {e : CharSet} (he : ∀ n ∈ e.edges, n ∈ (CharSet.union a b).edges)
      (hmem : c ∈ e.landmarks) : c ∈ (CharSet.union a b).landmarks := by
    obtain ⟨n, hn, hchar⟩ := List.mem_filterMap.1 hmem
    refine List.mem_filterMap.2 ⟨n, ?_, hchar⟩
    rcases List.mem_cons.1 hn with rfl | hn
    · exact List.mem_cons_self
    · exact List.mem_cons_of_mem _ (he n hn)
  rcases hc with hc | hc
  · exact hedges (fun n hn => List.mem_append_left _ hn) (ha c hc)
  · exact hedges (fun n hn => List.mem_append_right _ hn) (hb c hc)

theorem contains_unionAll (sets : List CharSet) (c : Char) :
    (unionAll sets).contains c = sets.any (·.contains c) := by
  induction sets with
  | nil => rfl
  | cons a sets ih =>
    rcases sets with _ | ⟨b, sets⟩
    · simp [unionAll]
    · exact congrArg (a.contains c || ·) ih

/-- Sets that are found to be the same are the same. -/
theorem Listed.contains_eq {a b : CharSet} (ha : a.Listed) (hb : b.Listed) (h : a.same b = true)
    (c : Char) : a.contains c = b.contains c := by
  rcases Bool.or_eq_true_iff.1 h with h | h
  · rw [beq_iff_eq.1 h]
  · have hsame : ∀ d ∈ a.landmarks ++ b.landmarks, a.contains d = b.contains d := fun d hd =>
      beq_iff_eq.1 (List.all_eq_true.1 h d hd)
    rw [Bool.eq_iff_iff]
    constructor
    · intro hc
      rw [← hsame c (List.mem_append_left _ (ha c hc)), hc]
    · intro hc
      rw [hsame c (List.mem_append_right _ (hb c hc)), hc]

/-- Whether a set is known by its landmarks: they tell all members, and whether there is only one. -/
structure Known (a : CharSet) : Prop where
  listed : a.Listed
  only : ∀ e, a.only? = some e → ∀ c, a.contains c = true ↔ c = e

/-- A member that is the only landmark in the set is the only member. -/
theorem Listed.contains_iff {a : CharSet} (ha : a.Listed) {e : Char}
    (he : a.landmarks.find? a.contains = some e)
    (hall : (a.landmarks.all fun d => d == e || !a.contains d) = true) (c : Char) :
    a.contains c = true ↔ c = e := by
  constructor
  · intro hc
    have := List.all_eq_true.1 hall c (ha c hc)
    simpa [hc] using this
  · rintro rfl
    exact List.find?_some he

theorem known_only (c : Char) : (only c).Known where
  listed := listed_only c
  only e h := by
    obtain ⟨he, hall⟩ := Option.filter_eq_some_iff.1 h
    exact (listed_only c).contains_iff he (Bool.and_eq_true_iff.1 hall).2

theorem known_union {a b : CharSet} (ha : a.Listed) (hb : b.Listed) : (union a b).Known where
  listed := ha.union hb
  only e h := by
    obtain ⟨he, hall⟩ := Option.filter_eq_some_iff.1 h
    exact (ha.union hb).contains_iff he (Bool.and_eq_true_iff.1 hall).2

theorem known_folded_only {c : Char} (hc : c.toNat < 128) : (folded (only c)).Known where
  listed := listed_folded_only hc
  only e h := by
    obtain ⟨he, hvariants⟩ := Option.filter_eq_some_iff.1 h
    obtain rfl : c = e := ((known_only c).only e he c).1 (contains_only_iff.2 rfl)
    intro d
    rw [contains_folded_only hc, beq_iff_eq.1 hvariants, List.mem_singleton]

theorem known_unionAll {a : CharSet} {sets : List CharSet} (h : ∀ b ∈ a :: sets, b.Known) :
    (unionAll (a :: sets)).Known := by
  induction sets generalizing a with
  | nil => exact h a List.mem_cons_self
  | cons b sets ih =>
    obtain ⟨ha, hsets⟩ := List.forall_mem_cons.1 h
    exact known_union ha.listed (ih hsets).listed

end CharSet

namespace Pattern

namespace Shape

/-! ### Sequences -/

/-- Takes the beginning of a text shape by shape. -/
def consumeAll : List Shape → List Char → (List Char → Option α) → Option α
  | [], text, k => k text
  | a :: as, text, k => a.toPattern.consume text fun rest => consumeAll as rest k

theorem consumeAll_append (as bs : List Shape) (text : List Char) (k : List Char → Option α) :
    consumeAll (as ++ bs) text k = consumeAll as text fun rest => consumeAll bs rest k := by
  induction as generalizing text with
  | nil => rfl
  | cons a as ih =>
    rw [List.cons_append, consumeAll, consumeAll]
    exact congrArg _ (funext fun rest => ih rest)

theorem consume_ofParts (as : List Shape) (text : List Char) (k : List Char → Option α) :
    (ofParts as).toPattern.consume text k = consumeAll as text k := by
  induction as generalizing text with
  | nil => rfl
  | cons a as ih =>
    rcases as with _ | ⟨b, as⟩
    · rfl
    · exact congrArg (a.toPattern.consume text) (funext fun rest => ih rest)

theorem consumeAll_parts (a : Shape) (text : List Char) (k : List Char → Option α) :
    consumeAll a.parts text k = a.toPattern.consume text k := by
  induction a generalizing text with
  | seq a b _ ihb => exact congrArg (a.toPattern.consume text) (funext fun rest => ihb rest)
  | empty | chars | one | anchor | alt | repeated | group => rfl

theorem sets?_chars (cs : List Char) :
    (chars cs).toPattern.sets? = some (cs.map CharSet.only) := by
  induction cs with
  | nil => rfl
  | cons c cs ih =>
    rcases cs with _ | ⟨d, cs⟩
    · rfl
    · have hcons : (chars (c :: d :: cs)).toPattern = .seq (.char c) (chars (d :: cs)).toPattern := rfl
      rw [hcons, sets?, ih]
      rfl

theorem consumeAll_prepend (a : Shape) (as : List Shape) (text : List Char)
    (k : List Char → Option α) : consumeAll (prepend a as) text k = consumeAll (a :: as) text k := by
  unfold prepend
  split
  · next cs ds as =>
    simp only [consumeAll, consume_of_sets? (sets?_chars _), List.map_append, behind_append_sets,
      Option.bind_assoc]
  · rfl

theorem consumeAll_foldr_prepend (as : List Shape) (text : List Char) (k : List Char → Option α) :
    consumeAll (as.foldr prepend []) text k = consumeAll as text k := by
  induction as generalizing text with
  | nil => rfl
  | cons a as ih =>
    rw [List.foldr_cons, consumeAll_prepend]
    exact congrArg (a.toPattern.consume text) (funext fun rest => ih rest)

/-- **A sequence matches its parts one after the other.** -/
theorem consume_sequence (shapes : List Shape) (text : List Char) (k : List Char → Option α) :
    (sequence shapes).toPattern.consume text k = consumeAll shapes text k := by
  rw [sequence, consume_ofParts, consumeAll_foldr_prepend]
  induction shapes generalizing text with
  | nil => rfl
  | cons a shapes ih =>
    rw [List.flatMap_cons, consumeAll_append, consumeAll_parts]
    exact congrArg (a.toPattern.consume text) (funext fun rest => ih rest)

/-! ### Choices -/

theorem consume_ofBranches {as : List Shape} (has : as ≠ []) (text : List Char)
    (k : List Char → Option α) :
    (ofBranches as).toPattern.consume text k = as.findSome? (·.toPattern.consume text k) := by
  induction as with
  | nil => exact absurd rfl has
  | cons a as ih =>
    rcases as with _ | ⟨b, as⟩
    · simp [ofBranches]
    · have halt : (ofBranches (a :: b :: as)).toPattern.consume text k =
          (a.toPattern.consume text k).or ((ofBranches (b :: as)).toPattern.consume text k) := rfl
      rw [halt, ih (by simp)]
      conv_rhs => rw [List.findSome?_cons]
      cases a.toPattern.consume text k <;> rfl

/-- One of the sets that a character may belong to. -/
theorem consume_one_unionAll (sets : List CharSet) (text : List Char) (k : List Char → Option α) :
    (Pattern.one (.unionAll sets)).consume text k =
      sets.findSome? fun set => (Pattern.one set).consume text k := by
  rcases text with _ | ⟨c, text⟩
  · exact (List.findSome?_eq_none_iff.2 fun _ _ => rfl).symm
  simp only [consume_one_cons, CharSet.contains_unionAll]
  induction sets with
  | nil => rfl
  | cons set sets ih =>
    rw [List.any_cons, List.findSome?_cons, ← ih]
    cases hset : set.contains c with
    | false => rfl
    | true => cases k text <;> simp

theorem consume_ofSet {set : CharSet} (h : set.Known) (text : List Char) (k : List Char → Option α) :
    (ofSet set).toPattern.consume text k = (Pattern.one set).consume text k := by
  unfold ofSet
  cases ho : set.only? with
  | none => rfl
  | some e =>
    have hchar : (chars [e]).toPattern = .one (.only e) := rfl
    rw [hchar]
    rcases text with _ | ⟨c, text⟩
    · rfl
    · have hset : (CharSet.only e).contains c = set.contains c := by
        rw [Bool.eq_iff_iff, CharSet.contains_only_iff, h.only e ho]
      rw [consume_one_cons, consume_one_cons, hset]

/-- A part of a text: characters, or one character of a set. -/
inductive Fixed : Shape → Prop where
  | chars (cs : List Char) : Fixed (chars cs)
  | one {set : CharSet} (h : set.Known) : Fixed (one set)

theorem Fixed.exists_sets {a : Shape} (h : a.Fixed) : ∃ sets, a.toPattern.sets? = some sets := by
  cases h with
  | chars cs => exact ⟨_, sets?_chars cs⟩
  | one => exact ⟨_, rfl⟩

theorem Fixed.branches_eq {a : Shape} (h : a.Fixed) : a.branches = [a] := by
  cases h <;> rfl

theorem Fixed.parts_eq {a : Shape} (h : a.Fixed) : a.parts = [a] := by
  cases h <;> rfl

/-- Parts that are the same match the same. -/
theorem Fixed.consume_eq {a b : Shape} (ha : a.Fixed) (hb : b.Fixed) (h : a.same b = true)
    (text : List Char) (k : List Char → Option α) :
    a.toPattern.consume text k = b.toPattern.consume text k := by
  cases ha with
  | chars cs =>
    cases hb with
    | chars ds => rw [beq_iff_eq.1 (show (cs == ds) = true from h)]
    | one => cases h
  | one ha =>
    cases hb with
    | chars => cases h
    | one hb =>
      rcases text with _ | ⟨c, text⟩
      · rfl
      · simp only [toPattern, consume_one_cons, ha.listed.contains_eq hb.listed h c]

/-- Whether parts make up a text. -/
def FixedParts (as : List Shape) : Prop := ∀ a ∈ as, a.Fixed

theorem FixedParts.branches_eq {as : List Shape} (h : FixedParts as) :
    (ofParts as).branches = [ofParts as] := by
  rcases as with _ | ⟨a, _ | ⟨b, as⟩⟩
  · rfl
  · exact (h a List.mem_cons_self).branches_eq
  · rfl

theorem FixedParts.parts_eq {as : List Shape} (h : FixedParts as) : (ofParts as).parts = as := by
  induction as with
  | nil => rfl
  | cons a as ih =>
    obtain ⟨ha, has⟩ := List.forall_mem_cons.1 h
    rcases as with _ | ⟨b, as⟩
    · exact ha.parts_eq
    · exact congrArg (a :: ·) (ih has)

/-- There is one way at most to match a text. -/
theorem FixedParts.exists_strip {as : List Shape} (h : FixedParts as) : ∃ sets : List CharSet,
    ∀ {α : Type} (text : List Char) (k : List Char → Option α),
      consumeAll as text k = (behind sets text).bind k := by
  induction as with
  | nil => exact ⟨[], fun _ _ => rfl⟩
  | cons a as ih =>
    obtain ⟨ha, has⟩ := List.forall_mem_cons.1 h
    obtain ⟨sets, hsets⟩ := ha.exists_sets
    obtain ⟨more, hmore⟩ := ih has
    refine ⟨sets ++ more, fun {_} text k => ?_⟩
    rw [behind_append_sets, Option.bind_assoc, consumeAll, consume_of_sets? hsets]
    exact congrArg _ (funext fun rest => hmore rest k)

theorem forall₂_of_mapM {β γ : Type} {f : β → Option γ} {as : List β} {bs : List γ}
    (h : as.mapM f = some bs) : List.Forall₂ (fun a b => f a = some b) as bs := by
  induction as generalizing bs with
  | nil =>
    cases h
    exact .nil
  | cons a as ih =>
    rw [List.mapM_cons] at h
    obtain ⟨b, hb, h⟩ := Option.bind_eq_some_iff.1 h
    obtain ⟨bs, hbs, h⟩ := Option.bind_eq_some_iff.1 h
    cases h
    exact .cons hb (ih hbs)

/-- A choice between single characters is one between sets. -/
theorem consume_ofSet_unionAll {as : List Shape} {sets : List CharSet} (hne : as ≠ [])
    (h : List.Forall₂ (fun a set => set.Known ∧ a.toPattern = .one set) as sets) (text : List Char)
    (k : List Char → Option α) : (ofSet (.unionAll sets)).toPattern.consume text k =
      as.findSome? (·.toPattern.consume text k) := by
  have hknown : (CharSet.unionAll sets).Known := by
    have hall : ∀ set ∈ sets, set.Known := by
      intro set hset
      obtain ⟨i, hi, rfl⟩ := List.getElem_of_mem hset
      exact (h.get (h.length_eq ▸ hi) hi).1
    rcases h with _ | ⟨ha, h⟩
    · exact absurd rfl hne
    · exact CharSet.known_unionAll hall
  rw [consume_ofSet hknown, consume_one_unionAll]
  clear hne hknown
  induction h with
  | nil => rfl
  | cons ha _ ih => rw [List.findSome?_cons, List.findSome?_cons, ih, ha.2]

theorem findSome?_congr {β γ : Type} {f g : β → Option γ} {as : List β} (h : ∀ a ∈ as, f a = g a) :
    as.findSome? f = as.findSome? g := by
  induction as with
  | nil => rfl
  | cons a as ih =>
    obtain ⟨ha, has⟩ := List.forall_mem_cons.1 h
    rw [List.findSome?_cons, List.findSome?_cons, ha, ih has]

theorem flatMap_branches {as : List Shape} (h : ∀ a ∈ as, a.branches = [a]) :
    as.flatMap branches = as := by
  rw [List.flatMap_congr h]
  simp

/-- Without a common start a choice is one between characters, between sets or between the branches. -/
theorem consume_alternatives {as : List Shape} (hne : as ≠ []) (hbranches : ∀ a ∈ as, a.branches = [a])
    (hsets : ∀ a ∈ as, ∀ set, a.set? = some set → set.Known) (text : List Char)
    (k : List Char → Option α) :
    (alternatives as).toPattern.consume text k = as.findSome? (·.toPattern.consume text k) := by
  unfold alternatives
  simp only [flatMap_branches hbranches]
  split
  · next cs _ hcs =>
    refine consume_ofSet_unionAll hne (List.forall₂_map_right_iff.2 ?_) text k
    refine (forall₂_of_mapM hcs).imp fun a c hc => ⟨CharSet.known_only c, ?_⟩
    unfold char? at hc
    split at hc
    · cases hc
      rfl
    · cases hc
  · next _ sets hmapM _ =>
    refine consume_ofSet_unionAll hne ?_ text k
    have hboth := (List.forall₂_and_left _ _).2 ⟨hsets, forall₂_of_mapM hmapM⟩
    refine hboth.imp fun a set ⟨hknown, hset⟩ => ?_
    unfold set? at hset
    split at hset
    · cases hset
      exact ⟨hknown set rfl, rfl⟩
    · cases hset
  · exact consume_ofBranches hne text k

/-- Whether parts match the same. -/
def Same (a b : Shape) : Prop :=
  ∀ {α : Type} (text : List Char) (k : List Char → Option α),
    a.toPattern.consume text k = b.toPattern.consume text k

theorem consumeAll_congr {as bs : List Shape} (h : List.Forall₂ Same as bs) (text : List Char)
    (k : List Char → Option α) : consumeAll as text k = consumeAll bs text k := by
  induction h generalizing text with
  | nil => rfl
  | cons hab _ ih =>
    rw [consumeAll, consumeAll, hab]
    exact congrArg _ (funext fun rest => ih rest)

/-- Whether parts begin with others, up to parts that match the same. -/
def Begins (start as : List Shape) : Prop :=
  ∃ front back, as = front ++ back ∧ List.Forall₂ Same start front

theorem Begins.consumeAll_eq {start as : List Shape} (h : Begins start as) (text : List Char)
    (k : List Char → Option α) :
    consumeAll as text k = consumeAll start text fun rest => consumeAll (as.drop start.length) rest k := by
  obtain ⟨front, back, rfl, hfront⟩ := h
  rw [consumeAll_append, consumeAll_congr hfront, hfront.length_eq, List.drop_left]

theorem Begins.of_initial {start front as : List Shape} (h : Begins start as) (hp : front <+: start) :
    Begins front as := by
  obtain ⟨more, rfl⟩ := hp
  obtain ⟨both, back, rfl, hboth⟩ := h
  refine ⟨both.take front.length, both.drop front.length ++ back, ?_, ?_⟩
  · rw [← List.append_assoc, List.take_append_drop]
  · exact (List.forall₂_take_append both front more hboth.flip).flip

theorem commonStart_initial (as bs : List Shape) : commonStart as bs <+: as := by
  fun_induction commonStart as bs with
  | case1 a as b bs h ih => exact List.prefix_cons_inj a |>.2 ih
  | case2 => exact List.nil_prefix
  | case3 => exact List.nil_prefix

theorem begins_commonStart {as bs : List Shape} (has : FixedParts as) (hbs : FixedParts bs) :
    Begins (commonStart as bs) bs := by
  fun_induction commonStart as bs with
  | case1 a as b bs h ih =>
    obtain ⟨ha, has⟩ := List.forall_mem_cons.1 has
    obtain ⟨hb, hbs⟩ := List.forall_mem_cons.1 hbs
    obtain ⟨front, back, rfl, hfront⟩ := ih has hbs
    exact ⟨b :: front, back, rfl, .cons (fun text k => ha.consume_eq hb h text k) hfront⟩
  | case2 | case3 => exact ⟨[], _, rfl, .nil⟩

/-- All branches begin with what they have in common at the start. -/
theorem begins_foldl_commonStart {start : List Shape} {L : List (List Shape)}
    (hstart : FixedParts start) (hL : ∀ as ∈ L, FixedParts as) :
    L.foldl commonStart start <+: start ∧ ∀ as ∈ L, Begins (L.foldl commonStart start) as := by
  induction L generalizing start with
  | nil => exact ⟨List.prefix_rfl, nofun⟩
  | cons bs L ih =>
    obtain ⟨hbs, hL⟩ := List.forall_mem_cons.1 hL
    have hp := commonStart_initial start bs
    obtain ⟨hinitial, hbegins⟩ := ih (fun a ha => hstart a (hp.subset ha)) hL
    exact ⟨hinitial.trans hp,
      List.forall_mem_cons.2 ⟨(begins_commonStart hstart hbs).of_initial hinitial, hbegins⟩⟩

theorem FixedParts.known_of_set? {as : List Shape} (h : FixedParts as) {set : CharSet}
    (hset : (ofParts as).set? = some set) : set.Known := by
  rcases as with _ | ⟨a, _ | ⟨b, as⟩⟩
  · cases hset
  · cases h a List.mem_cons_self with
    | chars => cases hset
    | one hknown =>
      cases hset
      exact hknown
  · cases hset

/-- A choice between texts without a common start. -/
theorem consume_alternatives_map {L : List (List Shape)} (hne : L ≠ [])
    (hL : ∀ as ∈ L, FixedParts as) (text : List Char) (k : List Char → Option α) :
    (alternatives (L.map ofParts)).toPattern.consume text k =
      L.findSome? fun as => consumeAll as text k := by
  rw [consume_alternatives (by simpa using hne)
    (List.forall_mem_map.2 fun as has => (hL as has).branches_eq)
    (List.forall_mem_map.2 fun as has _ => (hL as has).known_of_set?), List.findSome?_map]
  exact congrArg (L.findSome? ·) (funext fun as => consume_ofParts as text k)

theorem parts_of_branches {L : List (List Shape)} (hL : ∀ as ∈ L, FixedParts as) :
    ((L.map ofParts).flatMap branches).map parts = L := by
  rw [flatMap_branches (List.forall_mem_map.2 fun as has => (hL as has).branches_eq), List.map_map]
  exact (List.map_congr_left fun as has => (hL as has).parts_eq).trans (List.map_id L)

/-- **A choice between texts matches the first of its branches that does**, also with what they have in
common at the start put in front. -/
theorem consume_choice {L : List (List Shape)} (hne : L ≠ []) (hL : ∀ as ∈ L, FixedParts as)
    (text : List Char) (k : List Char → Option α) :
    (choice (L.map ofParts)).toPattern.consume text k = L.findSome? fun as => consumeAll as text k := by
  unfold choice
  rw [parts_of_branches hL]
  rcases L with _ | ⟨a, _ | ⟨b, rest⟩⟩
  · exact absurd rfl hne
  · simp [consume_ofParts]
  simp only
  split_ifs with hsingle
  · exact consume_alternatives_map hne hL text k
  · obtain ⟨ha, hrest⟩ := List.forall_mem_cons.1 hL
    obtain ⟨hinitial, hbegins⟩ := begins_foldl_commonStart ha hrest
    generalize hstart : (b :: rest).foldl commonStart a = start at hinitial hbegins
    have hfixed : FixedParts start := fun p hp => ha p (hinitial.subset hp)
    have hall : ∀ as ∈ a :: b :: rest, Begins start as := by
      obtain ⟨back, hback⟩ := hinitial
      refine List.forall_mem_cons.2 ⟨⟨start, back, hback.symm, ?_⟩, hbegins⟩
      exact List.forall₂_same.2 fun _ _ _ _ _ => rfl
    have hends : ((a :: b :: rest).map fun as => ofParts (as.drop start.length)) =
        ((a :: b :: rest).map (·.drop start.length)).map ofParts := by
      rw [List.map_map]
      rfl
    -- there is one way at most to match the start
    obtain ⟨sets, hsets⟩ := hfixed.exists_strip
    have hbranch : ∀ as ∈ a :: b :: rest, consumeAll as text k =
        (behind sets text).bind fun mid => consumeAll (as.drop start.length) mid k := fun as has => by
      rw [(hall as has).consumeAll_eq, hsets]
    rw [consume_sequence, consumeAll_append, hsets, hends, findSome?_congr hbranch]
    cases behind sets text with
    | none => exact (List.findSome?_eq_none_iff.2 fun _ _ => rfl).symm
    | some mid =>
      have hdrop : ∀ as ∈ (a :: b :: rest).map (·.drop start.length), FixedParts as :=
        List.forall_mem_map.2 fun as has p hp => hL as has p (List.mem_of_mem_drop hp)
      exact (consume_alternatives_map (by simp) hdrop mid k).trans List.findSome?_map

/-! ### Plain patterns -/

/-- Whether the pattern of a shape is plain. -/
def Plain (a : Shape) : Prop := a.toPattern.plain = true

theorem plain_chars (cs : List Char) : (chars cs).Plain := by
  induction cs with
  | nil => rfl
  | cons c cs ih =>
    rcases cs with _ | ⟨d, cs⟩
    · rfl
    · exact ih

theorem plain_ofParts {as : List Shape} (h : ∀ a ∈ as, a.Plain) : (ofParts as).Plain := by
  induction as with
  | nil => rfl
  | cons a as ih =>
    obtain ⟨ha, has⟩ := List.forall_mem_cons.1 h
    rcases as with _ | ⟨b, as⟩
    · exact ha
    · exact Bool.and_eq_true_iff.2 ⟨ha, ih has⟩

theorem plain_ofBranches {as : List Shape} (h : ∀ a ∈ as, a.Plain) : (ofBranches as).Plain := by
  induction as with
  | nil => rfl
  | cons a as ih =>
    obtain ⟨ha, has⟩ := List.forall_mem_cons.1 h
    rcases as with _ | ⟨b, as⟩
    · exact ha
    · exact Bool.and_eq_true_iff.2 ⟨ha, ih has⟩

theorem Plain.parts {a : Shape} (h : a.Plain) : ∀ b ∈ a.parts, b.Plain := by
  induction a with
  | seq a b _ ihb =>
    obtain ⟨ha, hb⟩ := Bool.and_eq_true_iff.1 h
    exact List.forall_mem_cons.2 ⟨ha, ihb hb⟩
  | empty => nofun
  | chars | one | anchor | alt | repeated | group => exact List.forall_mem_singleton.2 h

theorem Plain.branches {a : Shape} (h : a.Plain) : ∀ b ∈ a.branches, b.Plain := by
  induction a with
  | alt a b _ ihb =>
    obtain ⟨ha, hb⟩ := Bool.and_eq_true_iff.1 h
    exact List.forall_mem_cons.2 ⟨ha, ihb hb⟩
  | empty | chars | one | anchor | seq | repeated | group => exact List.forall_mem_singleton.2 h

theorem plain_prepend {a : Shape} {as : List Shape} (h : ∀ b ∈ a :: as, b.Plain) :
    ∀ b ∈ prepend a as, b.Plain := by
  unfold prepend
  split
  · obtain ⟨-, has⟩ := List.forall_mem_cons.1 h
    exact List.forall_mem_cons.2 ⟨plain_chars _, (List.forall_mem_cons.1 has).2⟩
  · exact h

theorem plain_foldr_prepend {as : List Shape} (h : ∀ a ∈ as, a.Plain) :
    ∀ a ∈ as.foldr prepend [], a.Plain := by
  induction as with
  | nil => nofun
  | cons a as ih =>
    obtain ⟨ha, has⟩ := List.forall_mem_cons.1 h
    exact plain_prepend (List.forall_mem_cons.2 ⟨ha, ih has⟩)

theorem plain_sequence {as : List Shape} (h : ∀ a ∈ as, a.Plain) : (sequence as).Plain := by
  refine plain_ofParts (plain_foldr_prepend fun b hb => ?_)
  obtain ⟨a, ha, hb⟩ := List.mem_flatMap.1 hb
  exact (h a ha).parts b hb

theorem plain_ofSet (set : CharSet) : (ofSet set).Plain := by
  unfold ofSet
  split <;> rfl

theorem plain_alternatives {as : List Shape} (h : ∀ a ∈ as, a.Plain) : (alternatives as).Plain := by
  unfold alternatives
  simp only
  split
  · exact plain_ofSet _
  · exact plain_ofSet _
  · refine plain_ofBranches fun b hb => ?_
    obtain ⟨a, ha, hb⟩ := List.mem_flatMap.1 hb
    exact (h a ha).branches b hb

theorem foldl_commonStart_initial (start : List Shape) (L : List (List Shape)) :
    L.foldl commonStart start <+: start := by
  induction L generalizing start with
  | nil => exact List.prefix_rfl
  | cons bs L ih => exact (ih _).trans (commonStart_initial start bs)

theorem plain_choice {as : List Shape} (h : ∀ a ∈ as, a.Plain) : (choice as).Plain := by
  have hparts : ∀ ps ∈ (as.flatMap branches).map parts, ∀ p ∈ ps, p.Plain := by
    refine List.forall_mem_map.2 fun b hb => ?_
    obtain ⟨a, ha, hb⟩ := List.mem_flatMap.1 hb
    exact ((h a ha).branches b hb).parts
  unfold choice
  split
  · rfl
  · next a heq => exact plain_ofParts (hparts a (heq ▸ List.mem_cons_self))
  · next a rest _ heq =>
    rw [heq] at hparts
    simp only
    split_ifs
    · exact plain_alternatives h
    · have hstart : ∀ p ∈ rest.foldl commonStart a, p.Plain := fun p hp =>
        hparts a List.mem_cons_self p ((foldl_commonStart_initial a rest).subset hp)
      refine plain_sequence (List.forall_mem_append.2 ⟨hstart, List.forall_mem_singleton.2 ?_⟩)
      refine plain_alternatives (List.forall_mem_map.2 fun ps hps => ?_)
      exact plain_ofParts fun p hp => hparts ps hps p (List.mem_of_mem_drop hp)

end Shape

end Pattern

end Criteria

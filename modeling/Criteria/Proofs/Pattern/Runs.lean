import Criteria.Literal
import Criteria.Proofs.Pattern.Race
import Mathlib.Data.List.Forall2

/-!
# Runs and fixed sequences of characters

What patterns take, worked out for the forms that tokens and literals are made of:

* a pattern that is a fixed sequence of sets takes as many characters (`Pattern.sets?`,
  `consume_of_sets?`);
* a repetition of one set takes runs of its members, and the whole run by preference
  (`consume_star_run`, `consume_plus_run`);
* a pattern that advances takes nothing from a text whose first character it cannot start with
  (`mayStart`).
-/

namespace Criteria

variable {α : Type}

namespace Pattern

/-- What is left of a text behind one member of each set, if it starts with such characters. -/
def behind : List CharSet → List Char → Option (List Char)
  | [], text => some text
  | _ :: _, [] => none
  | set :: sets, c :: text => if set.contains c then behind sets text else none

/-- Whether a text consists of one member of each set. -/
def Spells (sets : List CharSet) (text : List Char) : Prop :=
  List.Forall₂ (fun set c => set.contains c = true) sets text

theorem Spells.exists_of_mem {sets : List CharSet} {text : List Char} (h : Spells sets text)
    {c : Char} (hc : c ∈ text) : ∃ set ∈ sets, set.contains c = true := by
  induction h with
  | nil => cases hc
  | cons hd _ ih =>
    rcases List.mem_cons.1 hc with rfl | hc
    · exact ⟨_, List.mem_cons_self, hd⟩
    · obtain ⟨set, hset, hc⟩ := ih hc
      exact ⟨set, List.mem_cons_of_mem _ hset, hc⟩

/-- A text and the letters that it spells become the same, if each character and its letter do. -/
theorem Spells.map_eq_map {f : Char → CharSet} {g : Char → Char} {letters text : List Char}
    (h : Spells (letters.map f) text)
    (hf : ∀ l ∈ letters, ∀ c ∈ text, (f l).contains c = true → g c = g l) :
    text.map g = letters.map g := by
  induction letters generalizing text with
  | nil =>
    cases h
    rfl
  | cons l letters ih =>
    obtain ⟨c, text', hc, htext, rfl⟩ := List.forall₂_cons_left_iff.1 h
    rw [List.map_cons, List.map_cons, hf l List.mem_cons_self c List.mem_cons_self hc,
      ih htext fun d hd e he => hf d (List.mem_cons_of_mem _ hd) e (List.mem_cons_of_mem _ he)]

/-- A text spells letters if each of its characters is a variant of the letter in its place. -/
theorem Spells.of_map_eq {f : Char → CharSet} {g : Char → Char} {letters text : List Char}
    (h : text.map g = letters)
    (hf : ∀ l ∈ letters, ∀ c, g c = l → (f l).contains c = true) :
    Spells (letters.map f) text := by
  subst h
  induction text with
  | nil => exact .nil
  | cons c text ih =>
    obtain ⟨hc, htext⟩ := List.forall_mem_cons.1 hf
    exact .cons (hc c rfl) (ih htext)

/-- A text spells letters in wider sets too. -/
theorem Spells.imp {f g : Char → CharSet} {letters text : List Char} (h : Spells (letters.map f) text)
    (hfg : ∀ l ∈ letters, ∀ c, (f l).contains c = true → (g l).contains c = true) :
    Spells (letters.map g) text := by
  induction letters generalizing text with
  | nil => exact h
  | cons l letters ih =>
    obtain ⟨hl, hletters⟩ := List.forall_mem_cons.1 hfg
    obtain ⟨c, text', hc, htext, rfl⟩ := List.forall₂_cons_left_iff.1 h
    exact .cons (hl c hc) (ih htext hletters)

theorem behind_eq_some_iff {sets : List CharSet} {text rest : List Char} :
    behind sets text = some rest ↔ ∃ front, text = front ++ rest ∧ Spells sets front := by
  induction sets generalizing text with
  | nil =>
    constructor
    · intro h
      cases h
      exact ⟨[], rfl, .nil⟩
    · rintro ⟨front, rfl, ⟨⟩⟩
      rfl
  | cons set sets ih =>
    constructor
    · intro h
      rcases text with _ | ⟨c, text⟩
      · cases h
      · simp only [behind] at h
        split_ifs at h with hc
        obtain ⟨front, rfl, hf⟩ := ih.1 h
        exact ⟨c :: front, rfl, .cons hc hf⟩
    · rintro ⟨front, rfl, h⟩
      rcases h with _ | ⟨hc, hf⟩
      rw [List.cons_append, behind, if_pos hc]
      exact ih.2 ⟨_, rfl, hf⟩

theorem behind_append {sets : List CharSet} {front : List Char} (h : Spells sets front)
    (rest : List Char) : behind sets (front ++ rest) = some rest :=
  behind_eq_some_iff.2 ⟨front, rfl, h⟩

/-- The sets of a pattern that is a fixed sequence of them. -/
def sets? : Pattern → Option (List CharSet)
  | empty => some []
  | one set => some [set]
  | seq p q => do return (← p.sets?) ++ (← q.sets?)
  | _ => none

theorem behind_append_sets (a b : List CharSet) (text : List Char) :
    behind (a ++ b) text = (behind a text).bind (behind b) := by
  induction a generalizing text with
  | nil => rfl
  | cons set a ih =>
    rcases text with _ | ⟨c, text⟩
    · rfl
    · simp only [List.cons_append, behind]
      split_ifs
      · exact ih text
      · rfl

/-- A fixed sequence of sets takes one member of each. -/
theorem consume_of_sets? {p : Pattern} {sets : List CharSet} (h : p.sets? = some sets)
    (text : List Char) (k : List Char → Option α) :
    p.consume text k = (behind sets text).bind k := by
  induction p generalizing sets text k with
  | empty => cases h; rfl
  | one set =>
    cases h
    rcases text with _ | ⟨c, text⟩
    · rfl
    · simp only [consume, behind]
      split_ifs <;> rfl
  | seq p q ihp ihq =>
    obtain ⟨a, ha, h⟩ := Option.bind_eq_some_iff.1 h
    obtain ⟨b, hb, h⟩ := Option.bind_eq_some_iff.1 h
    cases h
    rw [consume, ihp ha, behind_append_sets, Option.bind_assoc]
    congr 1
    funext mid
    exact ihq hb mid k
  | anchor | alt | opt | star | plus => cases h

/-! ### What may be taken -/

theorem prefer_some {more : Option α} {a : α} (h : more = some a) (stop : Option α) :
    prefer true more stop = some a := by
  rw [h]
  rfl

@[simp] theorem consume_seq (p q : Pattern) (text : List Char) (k : List Char → Option α) :
    (seq p q).consume text k = p.consume text fun rest => q.consume rest k := rfl

@[simp] theorem consume_one_nil (set : CharSet) (k : List Char → Option α) :
    (one set).consume [] k = none := rfl

@[simp] theorem consume_one_cons (set : CharSet) (c : Char) (text : List Char)
    (k : List Char → Option α) :
    (one set).consume (c :: text) k = if set.contains c then k text else none := rfl

@[simp] theorem takes_empty {text rest : List Char} : empty.Takes text rest ↔ text = rest := by
  constructor
  · rintro ⟨⟩
    rfl
  · rintro rfl
    exact .empty text

@[simp] theorem takes_one {set : CharSet} {text rest : List Char} :
    (one set).Takes text rest ↔ ∃ c, set.contains c = true ∧ text = c :: rest := by
  constructor
  · rintro ⟨⟩
    exact ⟨_, ‹_›, rfl⟩
  · rintro ⟨c, hc, rfl⟩
    exact .one rest hc

@[simp] theorem takes_anchor {a : Anchor} {text rest : List Char} :
    (anchor a).Takes text rest ↔ a.holds (.start text) = true ∧ text = rest := by
  constructor
  · rintro ⟨⟩
    exact ⟨‹_›, rfl⟩
  · rintro ⟨h, rfl⟩
    exact .anchor h

@[simp] theorem takes_seq {p q : Pattern} {text rest : List Char} :
    (seq p q).Takes text rest ↔ ∃ mid, p.Takes text mid ∧ q.Takes mid rest := by
  constructor
  · rintro ⟨⟩
    exact ⟨_, ‹_›, ‹_›⟩
  · rintro ⟨mid, hp, hq⟩
    exact .seq hp hq

@[simp] theorem takes_alt {p q : Pattern} {text rest : List Char} :
    (alt p q).Takes text rest ↔ p.Takes text rest ∨ q.Takes text rest := by
  constructor
  · rintro (_ | _)
    · exact .inl ‹_›
    · exact .inr ‹_›
  · rintro (h | h)
    · exact .left h
    · exact .right h

@[simp] theorem takes_opt {greedy : Bool} {p : Pattern} {text rest : List Char} :
    (opt greedy p).Takes text rest ↔ p.Takes text rest ∨ text = rest := by
  constructor
  · rintro (_ | _)
    · exact .inl ‹_›
    · exact .inr rfl
  · rintro (h | rfl)
    · exact .once h
    · exact .absent text

@[simp] theorem takes_plus {greedy : Bool} {p : Pattern} {text rest : List Char} :
    (plus greedy p).Takes text rest ↔
      ∃ mid, p.Takes text mid ∧ (star greedy p).Takes mid rest := by
  constructor
  · rintro ⟨⟩
    exact ⟨_, ‹_›, ‹_›⟩
  · rintro ⟨mid, hp, hq⟩
    exact .plus hp hq

theorem takes_iff_of_sets? {p : Pattern} {sets : List CharSet} (h : p.sets? = some sets)
    {text rest : List Char} : p.Takes text rest ↔ behind sets text = some rest := by
  induction p generalizing sets text rest with
  | empty => cases h; simp [behind]
  | one set =>
    cases h
    rcases text with _ | ⟨c, text⟩
    · simp [behind]
    · simp only [takes_one, List.cons.injEq, behind]
      constructor
      · rintro ⟨d, hd, rfl, rfl⟩
        rw [if_pos hd]
      · intro h
        split_ifs at h with hc
        cases h
        exact ⟨c, hc, rfl, rfl⟩
  | seq p q ihp ihq =>
    obtain ⟨a, ha, h⟩ := Option.bind_eq_some_iff.1 h
    obtain ⟨b, hb, h⟩ := Option.bind_eq_some_iff.1 h
    cases h
    simp [ihp ha, ihq hb, behind_append_sets, Option.bind_eq_some_iff]
  | anchor | alt | opt | star | plus => cases h

/-- A fixed sequence takes the texts that spell it as a whole. -/
theorem takes_iff_spells {p : Pattern} {sets : List CharSet} (h : p.sets? = some sets)
    {text : List Char} : p.Takes text [] ↔ Spells sets text := by
  rw [takes_iff_of_sets? h, behind_eq_some_iff]
  simp

/-- What a fixed sequence takes as a whole it takes in front of any text. -/
theorem consume_append_of_sets? {p : Pattern} {sets : List CharSet} (h : p.sets? = some sets)
    {piece : List Char} (hp : p.Takes piece []) (tail : List Char) (k : List Char → Option α) :
    p.consume (piece ++ tail) k = k tail := by
  rw [consume_of_sets? h, behind_append ((takes_iff_spells h).1 hp)]
  rfl

theorem seqAll_cons {p : Pattern} {ps : List Pattern} (hps : ps ≠ []) :
    seqAll (p :: ps) = seq p (seqAll ps) := by
  rcases ps with _ | ⟨q, ps⟩
  · exact absurd rfl hps
  · rfl

/-- A fixed sequence in front of others takes one member of each set. -/
theorem consume_seqAll_append {ps qs : List Pattern} (hps : ps ≠ []) (hqs : qs ≠ [])
    {sets : List CharSet} (h : (seqAll ps).sets? = some sets) (text : List Char)
    (k : List Char → Option α) :
    (seqAll (ps ++ qs)).consume text k =
      (behind sets text).bind fun rest => (seqAll qs).consume rest k := by
  induction ps generalizing sets text with
  | nil => exact absurd rfl hps
  | cons p ps ih =>
    by_cases hne : ps = []
    · subst hne
      rw [List.cons_append, List.nil_append, seqAll_cons hqs, consume_seq,
        consume_of_sets? (show p.sets? = some sets from h)]
    · rw [seqAll_cons hne] at h
      obtain ⟨a, ha, h⟩ := Option.bind_eq_some_iff.1 h
      obtain ⟨b, hb, h⟩ := Option.bind_eq_some_iff.1 h
      cases h
      rw [List.cons_append, seqAll_cons (by simp [hne]), consume_seq, consume_of_sets? ha,
        behind_append_sets, Option.bind_assoc]
      congr 1
      funext rest
      exact ih hne hb rest

theorem takes_seqAll_append {ps qs : List Pattern} (hps : ps ≠ []) (hqs : qs ≠ [])
    {sets : List CharSet} (h : (seqAll ps).sets? = some sets) {text rest : List Char} :
    (seqAll (ps ++ qs)).Takes text rest ↔
      ∃ front mid, text = front ++ mid ∧ Spells sets front ∧ (seqAll qs).Takes mid rest := by
  have hfront : (seqAll (ps ++ qs)).Takes text rest ↔
      ∃ mid, (seqAll ps).Takes text mid ∧ (seqAll qs).Takes mid rest := by
    clear h
    induction ps generalizing text with
    | nil => exact absurd rfl hps
    | cons p ps ih =>
      by_cases hne : ps = []
      · subst hne
        rw [List.cons_append, List.nil_append, seqAll_cons hqs, takes_seq]
        rfl
      · rw [List.cons_append, seqAll_cons (by simp [hne]), takes_seq]
        simp only [ih hne, seqAll_cons hne, takes_seq]
        constructor
        · rintro ⟨a, ha, b, hb, hq⟩
          exact ⟨b, ⟨a, ha, hb⟩, hq⟩
        · rintro ⟨b, ⟨a, ha, hb⟩, hq⟩
          exact ⟨a, ha, b, hb, hq⟩
  rw [hfront]
  simp only [takes_iff_of_sets? h, behind_eq_some_iff]
  constructor
  · rintro ⟨mid, ⟨front, rfl, hf⟩, hq⟩
    exact ⟨front, mid, rfl, hf, hq⟩
  · rintro ⟨front, mid, rfl, hf, hq⟩
    exact ⟨mid, ⟨front, rfl, hf⟩, hq⟩

/-- A repetition of one set takes runs of its members. -/
theorem takes_star_one {greedy : Bool} {set : CharSet} {text rest : List Char} :
    (star greedy (one set)).Takes text rest ↔
      ∃ run, text = run ++ rest ∧ ∀ c ∈ run, set.contains c = true := by
  constructor
  · intro h
    generalize hp : star greedy (one set) = p at h
    induction h with
    | done text => exact ⟨[], rfl, by simp⟩
    | round h₁ h₂ ih₁ ih₂ =>
      cases hp
      obtain ⟨c, hc, rfl⟩ := takes_one.1 h₁
      obtain ⟨run, rfl, hrun⟩ := ih₂ rfl
      exact ⟨c :: run, rfl, by simpa [hc] using hrun⟩
    | _ => cases hp
  · rintro ⟨run, rfl, hrun⟩
    induction run with
    | nil => exact .done _
    | cons c run ih =>
      exact .round (.one _ (hrun c List.mem_cons_self))
        (ih fun d hd => hrun d (List.mem_cons_of_mem c hd))

theorem takes_plus_one {greedy : Bool} {set : CharSet} {text rest : List Char} :
    (plus greedy (one set)).Takes text rest ↔
      ∃ run, run ≠ [] ∧ text = run ++ rest ∧ ∀ c ∈ run, set.contains c = true := by
  simp only [takes_plus, takes_one, takes_star_one]
  constructor
  · rintro ⟨mid, ⟨c, hc, rfl⟩, run, rfl, hrun⟩
    exact ⟨c :: run, by simp, rfl, by simpa [hc] using hrun⟩
  · rintro ⟨run, hne, rfl, hrun⟩
    rcases run with _ | ⟨c, run⟩
    · exact absurd rfl hne
    · obtain ⟨hc, hrun⟩ := List.forall_mem_cons.1 hrun
      exact ⟨run ++ rest, ⟨c, hc, rfl⟩, run, rfl, hrun⟩

/-- Where a pattern may leave a rest from which the continuation succeeds, trying succeeds. -/
theorem isSome_consume {p : Pattern} (hp : p.plain = true) {text rest : List Char}
    {k : List Char → Option α} (h : p.Takes text rest) (hk : (k rest).isSome = true) :
    (p.consume text k).isSome = true := by
  have prefer_left {greedy : Bool} {more stop : Option α} (h : more.isSome = true) :
      (prefer greedy more stop).isSome = true := by
    cases greedy <;> simp [prefer, h]
  have prefer_right {greedy : Bool} {more stop : Option α} (h : stop.isSome = true) :
      (prefer greedy more stop).isSome = true := by
    cases greedy <;> simp [prefer, h]
  induction h generalizing k with
  | empty text => exact hk
  | one rest hc => simpa [consume, hc] using hk
  | anchor ha => simpa [consume, ha] using hk
  | seq h₁ h₂ ih₁ ih₂ =>
    obtain ⟨hp, hq⟩ := Bool.and_eq_true_iff.1 hp
    exact ih₁ hp (ih₂ hq hk)
  | left h ih =>
    obtain ⟨hp, -⟩ := Bool.and_eq_true_iff.1 hp
    simp [consume, ih hp hk]
  | right h ih =>
    obtain ⟨-, hq⟩ := Bool.and_eq_true_iff.1 hp
    simp [consume, ih hq hk]
  | once h ih => exact prefer_left (ih hp hk)
  | absent text => exact prefer_right hk
  | done text =>
    rw [consume_star (Bool.and_eq_true_iff.1 hp).1]
    exact prefer_right hk
  | round h₁ h₂ ih₁ ih₂ =>
    rw [consume_star (Bool.and_eq_true_iff.1 hp).1]
    exact prefer_left (ih₁ (Bool.and_eq_true_iff.1 hp).2 (ih₂ hp hk))
  | plus h₁ h₂ ih₁ ih₂ =>
    exact ih₁ (Bool.and_eq_true_iff.1 hp).2 (ih₂ hp hk)

/-- Trying fails if there is no way to match from which the continuation succeeds. -/
theorem consume_eq_none_iff {p : Pattern} (hp : p.plain = true) {text : List Char}
    {k : List Char → Option α} :
    p.consume text k = none ↔ ∀ rest, p.Takes text rest → k rest = none := by
  constructor
  · intro h rest ht
    by_contra hk
    have := isSome_consume hp ht (Option.isSome_iff_ne_none.2 hk)
    simp [h] at this
  · intro h
    cases hc : p.consume text k with
    | none => rfl
    | some a =>
      obtain ⟨rest, ht, hk⟩ := exists_takes_of_consume hc
      rw [h rest ht] at hk
      cases hk

/-! ### Characters at the start and inside -/

/-- Whether a match may start with a character. -/
def mayStart : Pattern → Char → Bool
  | empty, _ | anchor _, _ => false
  | one set, c => set.contains c
  | seq p q, c => p.mayStart c || (!p.advances && q.mayStart c)
  | alt p q, c => p.mayStart c || q.mayStart c
  | opt _ p, c | star _ p, c | plus _ p, c => p.mayStart c

/-- Whether a character may stand in a match. -/
def mayTake : Pattern → Char → Bool
  | empty, _ | anchor _, _ => false
  | one set, c => set.contains c
  | seq p q, c | alt p q, c => p.mayTake c || q.mayTake c
  | opt _ p, c | star _ p, c | plus _ p, c => p.mayTake c

theorem Takes.mayStart {p : Pattern} {text rest : List Char} (h : p.Takes text rest) :
    text = rest ∨ ∃ c more, text = c :: more ∧ p.mayStart c = true := by
  induction h with
  | empty text | anchor _ | absent text | done text => exact .inl rfl
  | one rest hc => exact .inr ⟨_, rest, rfl, hc⟩
  | left _ ih =>
    exact ih.imp_right fun ⟨c, more, h, hc⟩ => ⟨c, more, h, by simp [Pattern.mayStart, hc]⟩
  | right _ ih =>
    exact ih.imp_right fun ⟨c, more, h, hc⟩ => ⟨c, more, h, by simp [Pattern.mayStart, hc]⟩
  | once _ ih => exact ih
  | round _ _ ih₁ ih₂ | plus _ _ ih₁ ih₂ =>
    rcases ih₁ with rfl | ⟨c, more, h, hc⟩
    · exact ih₂
    · exact .inr ⟨c, more, h, hc⟩
  | seq h₁ _ ih₁ ih₂ =>
    rcases ih₁ with rfl | ⟨c, more, h, hc⟩
    · refine ih₂.imp_right fun ⟨c, more, h, hc⟩ => ⟨c, more, h, ?_⟩
      have ha := mt h₁.length_lt (Nat.lt_irrefl _)
      simp [Pattern.mayStart, hc, ha]
    · exact .inr ⟨c, more, h, by simp [Pattern.mayStart, hc]⟩

/-- What is taken consists of characters that may be. -/
theorem Takes.mayTake {p : Pattern} {text rest : List Char} (h : p.Takes text rest) :
    ∃ front, text = front ++ rest ∧ ∀ c ∈ front, p.mayTake c = true := by
  induction h with
  | empty text | anchor _ | absent text | done text => exact ⟨[], rfl, by simp⟩
  | one rest hc => exact ⟨[_], rfl, by simpa [Pattern.mayTake] using hc⟩
  | left _ ih =>
    obtain ⟨front, rfl, h⟩ := ih
    exact ⟨front, rfl, fun c hc => by simp [Pattern.mayTake, h c hc]⟩
  | right _ ih =>
    obtain ⟨front, rfl, h⟩ := ih
    exact ⟨front, rfl, fun c hc => by simp [Pattern.mayTake, h c hc]⟩
  | once _ ih => exact ih
  | seq _ _ ih₁ ih₂ =>
    obtain ⟨a, rfl, ha⟩ := ih₁
    obtain ⟨b, rfl, hb⟩ := ih₂
    refine ⟨a ++ b, by simp, fun c hc => ?_⟩
    rcases List.mem_append.1 hc with hc | hc
    · simp [Pattern.mayTake, ha c hc]
    · simp [Pattern.mayTake, hb c hc]
  | round _ _ ih₁ ih₂ | plus _ _ ih₁ ih₂ =>
    obtain ⟨a, rfl, ha⟩ := ih₁
    obtain ⟨b, rfl, hb⟩ := ih₂
    refine ⟨a ++ b, by simp, fun c hc => ?_⟩
    rcases List.mem_append.1 hc with hc | hc
    · exact ha c hc
    · exact hb c hc

/-- Whether there are no conditions in a pattern. -/
def unconditional : Pattern → Bool
  | empty | one _ => true
  | anchor _ => false
  | seq p q | alt p q => p.unconditional && q.unconditional
  | opt _ p | star _ p | plus _ p => p.unconditional

/-- Without conditions, what is taken does not depend on what is left. -/
theorem Takes.of_append {p : Pattern} (hp : p.unconditional = true) {text rest tail : List Char}
    (h : p.Takes (text ++ tail) (rest ++ tail)) : p.Takes text rest := by
  generalize hfull : text ++ tail = full at h
  generalize hleft : rest ++ tail = left at h
  -- what is left between two parts ends in the tail as well
  have between {mid rest : List Char} (hsuffix : rest ++ tail <:+ mid) :
      ∃ m, mid = m ++ tail := by
    obtain ⟨front, rfl⟩ := hsuffix
    exact ⟨front ++ rest, (List.append_assoc ..).symm⟩
  induction h generalizing text rest with
  | empty | done =>
    rw [← hleft] at hfull
    cases List.append_cancel_right hfull
    constructor
  | absent =>
    rw [← hleft] at hfull
    cases List.append_cancel_right hfull
    exact .absent _
  | one more hc =>
    rw [← hleft, ← List.cons_append] at hfull
    cases List.append_cancel_right hfull
    exact .one rest hc
  | anchor => cases hp
  | left _ ih => exact .left (ih (Bool.and_eq_true_iff.1 hp).1 hfull hleft)
  | right _ ih => exact .right (ih (Bool.and_eq_true_iff.1 hp).2 hfull hleft)
  | once _ ih => exact .once (ih hp hfull hleft)
  | seq _ h₂ ih₁ ih₂ =>
    obtain ⟨hp₁, hp₂⟩ := Bool.and_eq_true_iff.1 hp
    obtain ⟨m, rfl⟩ := between (hleft ▸ h₂.suffix)
    exact .seq (ih₁ hp₁ hfull rfl) (ih₂ hp₂ rfl hleft)
  | round _ h₂ ih₁ ih₂ =>
    obtain ⟨m, rfl⟩ := between (hleft ▸ h₂.suffix)
    exact .round (ih₁ hp hfull rfl) (ih₂ hp rfl hleft)
  | plus _ h₂ ih₁ ih₂ =>
    obtain ⟨m, rfl⟩ := between (hleft ▸ h₂.suffix)
    exact .plus (ih₁ hp hfull rfl) (ih₂ hp rfl hleft)

/-- A pattern that has to take something fails where it cannot start. -/
theorem consume_eq_none_of_mayStart {p : Pattern} (hp : p.advances = true) {c : Char}
    {text : List Char} {k : List Char → Option α} (h : p.mayStart c = false) :
    p.consume (c :: text) k = none := by
  cases hc : p.consume (c :: text) k with
  | none => rfl
  | some a =>
    obtain ⟨rest, ht, -⟩ := exists_takes_of_consume hc
    have hlt := ht.length_lt hp
    rcases ht.mayStart with rfl | ⟨d, more, heq, hd⟩
    · exact absurd hlt (Nat.lt_irrefl _)
    · cases heq
      rw [h] at hd
      cases hd

theorem consume_nil_of_advances {p : Pattern} (hp : p.advances = true) (k : List Char → Option α) :
    p.consume [] k = none := by
  cases hc : p.consume [] k with
  | none => rfl
  | some a =>
    obtain ⟨rest, ht, -⟩ := exists_takes_of_consume hc
    exact absurd (ht.length_lt hp) (Nat.not_lt_zero _)

/-! ### Fixed beginnings -/

/-- The sets of the characters that every match starts with. -/
def front : Pattern → List CharSet
  | one set => [set]
  | seq p q =>
    match p.sets? with
    | some sets => sets ++ q.front
    | none => p.front
  | _ => []

/-- What is taken starts with one member of each set. -/
theorem Takes.front {p : Pattern} {text rest : List Char} (h : p.Takes text rest) :
    (behind p.front text).isSome = true := by
  induction p generalizing text rest with
  | one set =>
    obtain ⟨c, hc, rfl⟩ := takes_one.1 h
    simp [Pattern.front, behind, hc]
  | seq p q ihp ihq =>
    obtain ⟨mid, hp, hq⟩ := takes_seq.1 h
    rw [Pattern.front]
    cases hsets : p.sets? with
    | none => exact ihp hp
    | some sets =>
      rw [behind_append_sets, (takes_iff_of_sets? hsets).1 hp]
      exact ihq hq
  | empty | anchor | alt | opt | star | plus => rfl

theorem consume_eq_none_of_front {p : Pattern} {text : List Char} (h : behind p.front text = none)
    (k : List Char → Option α) : p.consume text k = none := by
  cases hc : p.consume text k with
  | none => rfl
  | some a =>
    obtain ⟨rest, ht, -⟩ := exists_takes_of_consume hc
    have := ht.front
    rw [h] at this
    cases this

/-- A text whose next character is in none of the sets does not help a text before it. -/
theorem behind_append_of_head? {sets : List CharSet} {tail : List Char}
    (h : ∀ c ∈ tail.head?, ∀ set ∈ sets, set.contains c = false) (text : List Char) :
    behind sets (text ++ tail) = (behind sets text).map (· ++ tail) := by
  induction sets generalizing text with
  | nil => rfl
  | cons set sets ih =>
    have hsets : ∀ c ∈ tail.head?, ∀ set ∈ sets, set.contains c = false :=
      fun c hc set hset => h c hc set (List.mem_cons_of_mem _ hset)
    rcases text with _ | ⟨c, text⟩
    · rcases tail with _ | ⟨c, tail⟩
      · rfl
      · have hc := h c rfl set List.mem_cons_self
        simp [behind, hc]
    · simp only [List.cons_append, behind]
      split_ifs
      · exact ih hsets text
      · rfl

/-- What starts with one member of each set has, at each place, a member of the set. -/
theorem getElem?_of_behind {sets : List CharSet} {text : List Char}
    (h : (behind sets text).isSome = true) {i : Nat} {set : CharSet} (hi : sets[i]? = some set) :
    ∃ c, text[i]? = some c ∧ set.contains c = true := by
  induction sets generalizing text i with
  | nil => cases hi
  | cons s sets ih =>
    rcases text with _ | ⟨c, text⟩
    · cases h
    · simp only [behind] at h
      split_ifs at h with hc
      · cases i with
        | zero =>
          cases hi
          exact ⟨c, rfl, hc⟩
        | succ i => exact ih h hi
      · cases h

theorem Spells.getElem? {sets : List CharSet} {text : List Char} (h : Spells sets text) {i : Nat}
    {set : CharSet} (hi : sets[i]? = some set) : ∃ c, text[i]? = some c ∧ set.contains c = true := by
  have hbehind := behind_append h []
  rw [List.append_nil] at hbehind
  exact getElem?_of_behind (by rw [hbehind]; rfl) hi

/-- A text that has a wrong character, or none, at some place does not start like a match. -/
theorem behind_eq_none {sets : List CharSet} {text : List Char} {i : Nat} {set : CharSet}
    (hi : sets[i]? = some set) (h : ∀ c ∈ text[i]?, set.contains c = false) :
    behind sets text = none := by
  cases hb : behind sets text with
  | none => rfl
  | some rest =>
    obtain ⟨c, hc, hset⟩ := getElem?_of_behind (by rw [hb]; rfl) hi
    rw [h c hc] at hset
    cases hset

/-! ### Whole runs -/

/-- A greedy repetition takes a whole run if the continuation then succeeds. -/
theorem consume_star_run {set : CharSet} {run tail : List Char} {k : List Char → Option α} {a : α}
    (hrun : ∀ c ∈ run, set.contains c = true)
    (htail : ∀ c ∈ tail.head?, set.contains c = false) (hk : k tail = some a) :
    (star true (one set)).consume (run ++ tail) k = some a := by
  induction run with
  | nil =>
    rw [List.nil_append, consume_star rfl]
    rcases tail with _ | ⟨c, tail⟩
    · simp [prefer, hk]
    · simp [prefer, hk, htail c rfl]
  | cons c run ih =>
    obtain ⟨hc, hrun⟩ := List.forall_mem_cons.1 hrun
    rw [List.cons_append, consume_star rfl, consume_one_cons, if_pos hc, ih hrun]
    rfl

theorem consume_plus_run {set : CharSet} {run tail : List Char} {k : List Char → Option α} {a : α}
    (hne : run ≠ []) (hrun : ∀ c ∈ run, set.contains c = true)
    (htail : ∀ c ∈ tail.head?, set.contains c = false) (hk : k tail = some a) :
    (plus true (one set)).consume (run ++ tail) k = some a := by
  rcases run with _ | ⟨c, run⟩
  · exact absurd rfl hne
  · obtain ⟨hc, hrun⟩ := List.forall_mem_cons.1 hrun
    rw [consume_plus, List.cons_append, consume, if_pos hc]
    exact consume_star_run hrun htail hk

end Pattern

/-- A literal of a family is a text that the pattern of the family takes as a whole. -/
theorem Literal.matchesWhole_iff {p : Pattern} (hp : p.plain = true) {text : List Char} :
    matchesWhole p text = true ↔ p.Takes text [] := by
  have hplain : (Pattern.seq p (.anchor .textEnd)).plain = true := by simp [Pattern.plain, hp]
  change (Pattern.seq (.anchor .textStart) (.seq p (.anchor .textEnd))).isMatch text = true ↔ _
  rw [Pattern.isMatch_eq_consume hplain]
  constructor
  · intro h
    obtain ⟨a, ha⟩ := Option.isSome_iff_exists.1 h
    obtain ⟨rest, ht, -⟩ := Pattern.exists_takes_of_consume ha
    obtain ⟨mid, hmid, hend⟩ := Pattern.takes_seq.1 ht
    obtain ⟨hend, rfl⟩ := Pattern.takes_anchor.1 hend
    have : mid = [] := by simpa [Anchor.holds, Place.start] using hend
    rw [← this]
    exact hmid
  · intro h
    exact Pattern.isSome_consume hplain (.seq h (.anchor rfl)) rfl

end Criteria

import Criteria.Proofs.Dialect.Patterns
import Criteria.Proofs.Number.Digits
import Criteria.Proofs.Text.Variants

/-!
# The parts of numerals

A numeral is a sign, digits with or without a point, an exponent and a mark of its width, of which
all but the digits may be absent. The patterns of tokens and those of literals are made of the same
parts; here is what texts the parts take, and that trying takes them whole where no further
character can belong to them.
-/

namespace Criteria

variable {α : Type}

open Text Pattern

namespace Numeral

/-! ### Characters -/

/-- The decimal digits without regard to case. -/
def digitSet : CharSet := .folded (.range '0' '9')

/-- The signs without regard to case. -/
def signSet : CharSet := .folded (.unionAll [.only '-', .only '+'])

theorem contains_digitSet {c : Char} : digitSet.contains c = true ↔ isAsciiDigit c = true := by
  constructor
  · intro h
    exact CharSet.forall_folded (p := fun c => isAsciiDigit c = true) rfl (by decide) h
  · intro h
    have hc : c.toNat < 128 := by
      simp only [isAsciiDigit, Bool.and_eq_true, decide_eq_true_eq] at h
      have hle : c.toNat ≤ '9'.toNat := h.2
      exact Nat.lt_of_le_of_lt hle (by decide)
    have hall := forall_ascii (p := fun c => isAsciiDigit c = true → digitSet.contains c = true)
      (by decide) hc
    exact hall h

theorem contains_signSet {c : Char} : signSet.contains c = true ↔ c = '-' ∨ c = '+' := by
  constructor
  · intro h
    exact CharSet.forall_folded (p := fun c => c = '-' ∨ c = '+') rfl (by decide) h
  · rintro (rfl | rfl) <;> decide

theorem digits_eq : Literal.digits = .plus true (.one digitSet) := rfl

theorem sign_eq : Literal.sign = .opt true (.one signSet) := rfl

/-! ### Parts -/

/-- Whether a text is a sign or empty. -/
def Sign (text : List Char) : Prop := text = [] ∨ text = ['-'] ∨ text = ['+']

/-- Whether a text consists of digits, one at least, and perhaps a point. -/
inductive Magnitude : List Char → Prop where
  | pointed {whole fraction} (hne : whole ≠ []) (hw : Digits whole) (hf : Digits fraction) :
      Magnitude (whole ++ '.' :: fraction)
  | fraction {fraction} (hne : fraction ≠ []) (hf : Digits fraction) : Magnitude ('.' :: fraction)
  | whole {whole} (hne : whole ≠ []) (hw : Digits whole) : Magnitude whole

/-- Whether a text is an exponent behind one of the given characters, or empty. -/
inductive Exponent (marks : CharSet) : List Char → Prop where
  | absent : Exponent marks []
  | mk {c sign digits} (hc : marks.contains c = true) (hs : Sign sign) (hne : digits ≠ [])
      (hd : Digits digits) : Exponent marks (c :: (sign ++ digits))

/-- Whether a text is one of the given characters or empty. -/
inductive Mark (marks : CharSet) : List Char → Prop where
  | absent : Mark marks []
  | mk {c} (hc : marks.contains c = true) : Mark marks [c]

theorem takes_digits {text rest : List Char} :
    Literal.digits.Takes text rest ↔ ∃ run, run ≠ [] ∧ text = run ++ rest ∧ Digits run := by
  simp only [digits_eq, takes_plus_one, contains_digitSet, Digits]

theorem takes_sign {text rest : List Char} :
    Literal.sign.Takes text rest ↔ ∃ s, text = s ++ rest ∧ Sign s := by
  simp only [sign_eq, takes_opt, takes_one, contains_signSet, Sign]
  constructor
  · rintro (⟨c, rfl | rfl, rfl⟩ | rfl)
    · exact ⟨['-'], rfl, by simp⟩
    · exact ⟨['+'], rfl, by simp⟩
    · exact ⟨[], rfl, by simp⟩
  · rintro ⟨s, rfl, rfl | rfl | rfl⟩
    · exact .inr rfl
    · exact .inl ⟨'-', by simp⟩
    · exact .inl ⟨'+', by simp⟩

/-- Digits with a point in, before or behind them, or without a point. -/
def magnitude (point : CharSet) : Pattern :=
  .altAll [.seqAll [Literal.digits, .one point, .star true (.one digitSet)],
    .seqAll [.one point, Literal.digits], Literal.digits]

theorem takes_magnitude {point : CharSet} (hpoint : ∀ c, point.contains c = true ↔ c = '.')
    {text rest : List Char} :
    (magnitude point).Takes text rest ↔ ∃ m, text = m ++ rest ∧ Magnitude m := by
  simp only [magnitude, altAll, seqAll, takes_alt, takes_seq, takes_digits, takes_one, hpoint,
    takes_star_one, contains_digitSet]
  constructor
  · rintro (⟨_, ⟨whole, hne, rfl, hw⟩, _, ⟨c, rfl, rfl⟩, fraction, rfl, hf⟩ |
      ⟨_, ⟨c, rfl, rfl⟩, fraction, hne, rfl, hf⟩ | ⟨whole, hne, rfl, hw⟩)
    · exact ⟨whole ++ '.' :: fraction, by simp, .pointed hne hw hf⟩
    · exact ⟨'.' :: fraction, by simp, .fraction hne hf⟩
    · exact ⟨whole, rfl, .whole hne hw⟩
  · rintro ⟨m, rfl, hm⟩
    cases hm with
    | pointed hne hw hf =>
      exact .inl ⟨_, ⟨_, hne, List.append_assoc .., hw⟩, _, ⟨'.', rfl, rfl⟩, _, rfl, hf⟩
    | fraction hne hf => exact .inr (.inl ⟨_, ⟨'.', rfl, rfl⟩, _, hne, rfl, hf⟩)
    | whole hne hw => exact .inr (.inr ⟨m, hne, rfl, hw⟩)

/-- An exponent, or none. -/
def exponent (marks : CharSet) : Pattern :=
  .opt true (.seqAll [.one marks, Literal.sign, Literal.digits])

theorem takes_exponent {marks : CharSet} {text rest : List Char} :
    (exponent marks).Takes text rest ↔ ∃ e, text = e ++ rest ∧ Exponent marks e := by
  simp only [exponent, seqAll, takes_opt, takes_seq, takes_one, takes_sign, takes_digits]
  constructor
  · rintro (⟨_, ⟨c, hc, rfl⟩, _, ⟨s, rfl, hs⟩, d, hne, rfl, hd⟩ | rfl)
    · exact ⟨c :: (s ++ d), by simp, .mk hc hs hne hd⟩
    · exact ⟨[], rfl, .absent⟩
  · rintro ⟨e, rfl, he⟩
    cases he with
    | absent => exact .inr rfl
    | mk hc hs hne hd =>
      exact .inl ⟨_, ⟨_, hc, rfl⟩, _, ⟨_, List.append_assoc .., hs⟩, _, hne, rfl, hd⟩

theorem takes_mark {marks : CharSet} {text rest : List Char} :
    (Pattern.opt true (.one marks)).Takes text rest ↔ ∃ f, text = f ++ rest ∧ Mark marks f := by
  simp only [takes_opt, takes_one]
  constructor
  · rintro (⟨c, hc, rfl⟩ | rfl)
    · exact ⟨[c], rfl, .mk hc⟩
    · exact ⟨[], rfl, .absent⟩
  · rintro ⟨f, rfl, hf⟩
    cases hf with
    | absent => exact .inr rfl
    | mk hc => exact .inl ⟨_, hc, rfl⟩

/-! ### Whole parts -/

variable {k : List Char → Option α} {a : α}

theorem Sign.contains {s : List Char} (h : Sign s) : ∀ c ∈ s, signSet.contains c = true := by
  rcases h with rfl | rfl | rfl <;> simp [contains_signSet]

theorem Digits.contains {d : List Char} (h : Digits d) : ∀ c ∈ d, digitSet.contains c = true :=
  fun c hc => contains_digitSet.2 (h c hc)

theorem not_contains_digitSet {c : Char} (h : isAsciiDigit c = false) :
    digitSet.contains c = false := by
  rw [Bool.eq_false_iff, ne_eq, contains_digitSet, h]
  simp

/-- A digit is none of the other characters of numerals. -/
theorem digit_ne {c d : Char} (hc : isAsciiDigit c = true) (hd : isAsciiDigit d = false) : c ≠ d := by
  rintro rfl
  rw [hc] at hd
  cases hd

theorem Digits.head? {d rest : List Char} (hne : d ≠ []) (h : Digits d) {c : Char}
    (hc : c ∈ (d ++ rest).head?) : isAsciiDigit c = true := by
  rcases d with _ | ⟨x, d⟩
  · exact absurd rfl hne
  · cases hc
    exact h _ List.mem_cons_self

theorem consume_sign {s rest : List Char} (hs : Sign s)
    (hrest : ∀ c ∈ rest.head?, signSet.contains c = false) (hk : k rest = some a) :
    Literal.sign.consume (s ++ rest) k = some a := by
  rw [sign_eq, Pattern.consume]
  rcases s with _ | ⟨c, s⟩
  · rcases rest with _ | ⟨c, rest⟩
    · simp [prefer, hk]
    · simp [prefer, hk, hrest c rfl]
  · have hc := hs.contains c List.mem_cons_self
    have hnil : s = [] := by rcases hs with h | h | h <;> cases h <;> rfl
    simp [prefer, hk, hc, hnil]

theorem consume_digits {d rest : List Char} (hne : d ≠ []) (hd : Digits d)
    (hrest : ∀ c ∈ rest.head?, isAsciiDigit c = false) (hk : k rest = some a) :
    Literal.digits.consume (d ++ rest) k = some a :=
  consume_plus_run hne hd.contains (fun c hc => not_contains_digitSet (hrest c hc)) hk

/-- Digits in front of no point are no beginning of digits with a point in or behind them. -/
theorem consume_digits_point {point : CharSet} (hpoint : ∀ c, point.contains c = true ↔ c = '.')
    {d rest : List Char} (hd : Digits d)
    (hrest : ∀ c ∈ rest.head?, isAsciiDigit c = false ∧ c ≠ '.') {p : Pattern} :
    Literal.digits.consume (d ++ rest) (fun r => (Pattern.seq (.one point) p).consume r k) =
      none := by
  rw [consume_eq_none_iff rfl]
  intro r hr
  obtain ⟨run, -, heq, hrun⟩ := takes_digits.1 hr
  -- the run cannot go beyond the digits, so what follows it is a digit or the start of the rest
  have hhead : ∀ c ∈ r.head?, c ≠ '.' := by
    rcases List.append_eq_append_iff.1 heq with ⟨more, rfl, rfl⟩ | ⟨more, rfl, rfl⟩
    · rcases more with _ | ⟨c, more⟩
      · intro c hc
        exact (hrest c hc).2
      · have hdigit := hrun c (by simp)
        rw [(hrest c rfl).1] at hdigit
        cases hdigit
    · rcases more with _ | ⟨c, more⟩
      · intro c hc
        exact (hrest c hc).2
      · rintro _ ⟨⟩
        exact digit_ne (hd c (by simp)) (by decide)
  rcases r with _ | ⟨c, r⟩
  · rfl
  · have hc : point.contains c = false := by
      rw [Bool.eq_false_iff, ne_eq, hpoint]
      exact hhead c rfl
    simp [hc]

theorem consume_magnitude {point : CharSet} (hpoint : ∀ c, point.contains c = true ↔ c = '.')
    {m rest : List Char} (hm : Magnitude m)
    (hrest : ∀ c ∈ rest.head?, isAsciiDigit c = false ∧ c ≠ '.') (hk : k rest = some a) :
    (magnitude point).consume (m ++ rest) k = some a := by
  have hdot : point.contains '.' = true := (hpoint '.').2 rfl
  simp only [magnitude, altAll, seqAll, Pattern.consume, Option.or_eq_some_iff]
  cases hm with
  | @pointed whole fraction hne hw hf =>
    left
    rw [List.append_assoc]
    refine consume_digits hne hw ?_ ?_
    · rintro c ⟨⟩
      decide
    · simp only [List.cons_append, hdot, if_true]
      exact consume_star_run hf.contains
        (fun c hc => not_contains_digitSet (hrest c hc).1) hk
  | @fraction fraction hne hf =>
    have hnone : Literal.digits.consume ('.' :: fraction ++ rest) (fun r =>
        (Pattern.seq (.one point) (.star true (.one digitSet))).consume r k) = none :=
      consume_eq_none_of_mayStart rfl (by decide)
    refine .inr ⟨hnone, .inl ?_⟩
    simp only [List.cons_append, hdot, if_true]
    exact consume_digits hne hf (fun c hc => (hrest c hc).1) hk
  | whole hne hw =>
    have hnone := consume_digits_point (k := k) hpoint hw hrest (p := .star true (.one digitSet))
    refine .inr ⟨hnone, .inr ⟨?_, consume_digits hne hw (fun c hc => (hrest c hc).1) hk⟩⟩
    rcases m with _ | ⟨c, m⟩
    · exact absurd rfl hne
    · have hc : point.contains c = false := by
        rw [Bool.eq_false_iff, ne_eq, hpoint]
        exact digit_ne (hw c List.mem_cons_self) (by decide)
      simp [hc]

theorem consume_exponent {marks : CharSet} {e rest : List Char} (he : Exponent marks e)
    (hrest : ∀ c ∈ rest.head?, marks.contains c = false ∧ isAsciiDigit c = false)
    (hk : k rest = some a) : (exponent marks).consume (e ++ rest) k = some a := by
  rw [exponent, Pattern.consume]
  cases he with
  | absent =>
    have hnone : (seqAll [.one marks, Literal.sign, Literal.digits]).consume rest k = none := by
      rcases rest with _ | ⟨c, rest⟩
      · rfl
      · simp [seqAll, (hrest c rfl).1]
    rw [List.nil_append, hnone]
    simpa [prefer] using hk
  | @mk c s d hc hs hne hd =>
    refine prefer_some ?_ _
    simp only [seqAll, List.cons_append, consume_seq, consume_one_cons, hc, if_true,
      List.append_assoc]
    refine consume_sign hs ?_ (consume_digits hne hd (fun c hc => (hrest c hc).2) hk)
    intro c hc
    have hdigit := hd.head? hne hc
    rw [Bool.eq_false_iff, ne_eq, contains_signSet]
    rintro (rfl | rfl) <;> exact absurd hdigit (by decide)

theorem consume_mark {marks : CharSet} {f rest : List Char} (hf : Mark marks f)
    (hrest : ∀ c ∈ rest.head?, marks.contains c = false) (hk : k rest = some a) :
    (Pattern.opt true (.one marks)).consume (f ++ rest) k = some a := by
  rw [Pattern.consume]
  cases hf with
  | absent =>
    rcases rest with _ | ⟨c, rest⟩
    · simp [prefer, hk]
    · simp [prefer, hk, hrest c rfl]
  | mk hc => simp [prefer, hk, hc]

/-! ### Numerals -/

/-- Whether a text is a numeral with the given marks in front of the exponent and at the end. -/
def IsNumeral (exponents marks : CharSet) (text : List Char) : Prop :=
  ∃ s m e f, text = s ++ (m ++ (e ++ f)) ∧ Sign s ∧ Magnitude m ∧ Exponent exponents e ∧
    Mark marks f

/-- A sign, a magnitude, an exponent and a mark. -/
def numeral (point exponents marks : CharSet) : Pattern :=
  .seqAll [Literal.sign, magnitude point, exponent exponents, .opt true (.one marks)]

theorem takes_numeral {point exponents marks : CharSet}
    (hpoint : ∀ c, point.contains c = true ↔ c = '.') {text rest : List Char} :
    (numeral point exponents marks).Takes text rest ↔
      ∃ x, text = x ++ rest ∧ IsNumeral exponents marks x := by
  simp only [numeral, seqAll, takes_seq, takes_sign, takes_magnitude hpoint, takes_exponent,
    takes_mark]
  constructor
  · rintro ⟨_, ⟨s, rfl, hs⟩, _, ⟨m, rfl, hm⟩, _, ⟨e, rfl, he⟩, f, rfl, hf⟩
    exact ⟨s ++ (m ++ (e ++ f)), by simp, s, m, e, f, rfl, hs, hm, he, hf⟩
  · rintro ⟨_, rfl, s, m, e, f, rfl, hs, hm, he, hf⟩
    exact ⟨_, ⟨s, List.append_assoc .., hs⟩, _, ⟨m, List.append_assoc .., hm⟩, _,
      ⟨e, List.append_assoc .., he⟩, f, rfl, hf⟩

/-- A numeral is taken whole where none of its characters follows. -/
theorem consume_numeral {point exponents marks : CharSet}
    (hpoint : ∀ c, point.contains c = true ↔ c = '.')
    (hexponents : ∀ c, exponents.contains c = true → isAsciiDigit c = false ∧ c ≠ '.')
    (hmarks : ∀ c, marks.contains c = true →
      isAsciiDigit c = false ∧ c ≠ '.' ∧ exponents.contains c = false)
    {x rest : List Char} (hx : IsNumeral exponents marks x)
    (hrest : ∀ c ∈ rest.head?, isAsciiDigit c = false ∧ c ≠ '.' ∧ exponents.contains c = false ∧
      marks.contains c = false) (hk : k rest = some a) :
    (numeral point exponents marks).consume (x ++ rest) k = some a := by
  obtain ⟨s, m, e, f, rfl, hs, hm, he, hf⟩ := hx
  have hmark : ∀ c ∈ (f ++ rest).head?,
      isAsciiDigit c = false ∧ c ≠ '.' ∧ exponents.contains c = false := by
    cases hf with
    | absent => exact fun c hc => ⟨(hrest c hc).1, (hrest c hc).2.1, (hrest c hc).2.2.1⟩
    | mk hc =>
      rintro _ ⟨⟩
      exact hmarks _ hc
  have hexponent : ∀ c ∈ (e ++ (f ++ rest)).head?, isAsciiDigit c = false ∧ c ≠ '.' := by
    cases he with
    | absent => exact fun c hc => ⟨(hmark c hc).1, (hmark c hc).2.1⟩
    | mk hc =>
      rintro _ ⟨⟩
      exact hexponents _ hc
  have hmagnitude : ∀ c ∈ (m ++ (e ++ (f ++ rest))).head?, signSet.contains c = false := by
    have hstart : ∀ c ∈ (m ++ (e ++ (f ++ rest))).head?, isAsciiDigit c = true ∨ c = '.' := by
      cases hm with
      | pointed hne hw =>
        rw [List.append_assoc]
        exact fun c hc => .inl (hw.head? hne hc)
      | fraction =>
        rintro c ⟨⟩
        exact .inr rfl
      | whole hne hw => exact fun c hc => .inl (hw.head? hne hc)
    intro c hc
    rw [Bool.eq_false_iff, ne_eq, contains_signSet]
    rcases hstart c hc with hdigit | rfl
    · rintro (rfl | rfl) <;> exact absurd hdigit (by decide)
    · decide
  simp only [List.append_assoc]
  refine consume_sign hs hmagnitude (consume_magnitude hpoint hm hexponent ?_)
  refine consume_exponent he (fun c hc => ⟨(hmark c hc).2.2, (hmark c hc).1⟩) ?_
  exact consume_mark hf (fun c hc => (hrest c hc).2.2.2) hk

/-- The characters that a numeral may start with. -/
def startSet : CharSet := .unionAll [.range '0' '9', .only '.', .only '-', .only '+']

theorem IsNumeral.exists_cons {exponents marks : CharSet} {x : List Char}
    (hx : IsNumeral exponents marks x) :
    ∃ c run, x = c :: run ∧ startSet.contains c = true := by
  obtain ⟨s, m, e, f, rfl, hs, hm, -, -⟩ := hx
  have hmagnitude : ∃ c run, m = c :: run ∧ startSet.contains c = true := by
    have hdigit {d : List Char} (hne : d ≠ []) (hd : Digits d) :
        ∃ c run, d = c :: run ∧ startSet.contains c = true := by
      rcases d with _ | ⟨c, d⟩
      · exact absurd rfl hne
      · have hc : (CharSet.range '0' '9').contains c = true := hd c List.mem_cons_self
        exact ⟨c, d, rfl, by simp [startSet, CharSet.unionAll, hc]⟩
    cases hm with
    | pointed hne hw =>
      obtain ⟨c, run, rfl, hc⟩ := hdigit hne hw
      exact ⟨c, _, rfl, hc⟩
    | fraction => exact ⟨'.', _, rfl, by decide⟩
    | whole hne hw => exact hdigit hne hw
  rcases hs with rfl | rfl | rfl
  · obtain ⟨c, run, rfl, hc⟩ := hmagnitude
    exact ⟨c, _, rfl, hc⟩
  · exact ⟨'-', _, rfl, by decide⟩
  · exact ⟨'+', _, rfl, by decide⟩

/-- Behind its first character a numeral has one hyphen at most, that of the exponent. -/
theorem IsNumeral.count_hyphen_le {exponents marks : CharSet}
    (hexponents : exponents.contains '-' = false) (hmarks : marks.contains '-' = false)
    {x : List Char} (hx : IsNumeral exponents marks x) : (x.drop 1).count '-' ≤ 1 := by
  obtain ⟨s, m, e, f, rfl, hs, hm, he, hf⟩ := hx
  have hdigits {d : List Char} (hd : Digits d) : d.count '-' = 0 :=
    List.count_eq_zero.2 fun h => absurd (hd _ h) (by decide)
  have hsign {s : List Char} (hs : Sign s) : s.count '-' ≤ 1 := by
    rcases hs with rfl | rfl | rfl <;> decide
  have hm0 : m.count '-' = 0 := by
    cases hm with
    | pointed _ hw hf => simp [hdigits hw, hdigits hf]
    | fraction _ hf => simp [hdigits hf]
    | whole _ hw => exact hdigits hw
  have he1 : e.count '-' ≤ 1 := by
    cases he with
    | absent => simp
    | @mk c s d hc hs _ hd =>
      have hne : c ≠ '-' := by
        rintro rfl
        rw [hexponents] at hc
        cases hc
      have := hsign hs
      simpa [List.count_cons, hne, hdigits hd] using this
  have hf0 : f.count '-' = 0 := by
    cases hf with
    | absent => rfl
    | @mk c hc =>
      have hne : c ≠ '-' := by
        rintro rfl
        rw [hmarks] at hc
        cases hc
      simp [hne]
  -- the sign covers the first place
  rcases s with _ | ⟨c, s⟩
  · have hsub := (List.drop_sublist 1 (m ++ (e ++ f))).count_le '-'
    simp only [List.count_append, hm0, hf0] at hsub
    simp only [List.nil_append]
    omega
  · have hnil : s = [] := by rcases hs with h | h | h <;> cases h <;> rfl
    simp [hnil, hm0, hf0, he1]

theorem two_le_count {x : List Char} {c : Char} {i j : Nat} (hij : i < j) (hi : x[i]? = some c)
    (hj : x[j]? = some c) : 2 ≤ x.count c := by
  have htake : c ∈ x.take j := by
    refine List.mem_iff_getElem?.2 ⟨i, ?_⟩
    rw [List.getElem?_take_of_lt hij, hi]
  have hdrop : c ∈ x.drop j := by
    refine List.mem_iff_getElem?.2 ⟨0, ?_⟩
    rw [List.getElem?_drop, Nat.add_zero, hj]
  rw [← List.take_append_drop j x, List.count_append]
  have h₁ := List.count_pos_iff.2 htake
  have h₂ := List.count_pos_iff.2 hdrop
  omega

theorem IsNumeral.hyphen_unique {exponents marks : CharSet}
    (hexponents : exponents.contains '-' = false) (hmarks : marks.contains '-' = false)
    {x : List Char} (hx : IsNumeral exponents marks x) {i j : Nat} (hi : 0 < i) (hij : i < j)
    (hxi : x[i]? = some '-') (hxj : x[j]? = some '-') : False := by
  have hplace {k : Nat} (hk : 0 < k) : (x.drop 1)[k - 1]? = x[k]? := by
    rw [List.getElem?_drop, Nat.add_sub_cancel' hk]
  have htwo : 2 ≤ (x.drop 1).count '-' := two_le_count (show i - 1 < j - 1 by omega)
    ((hplace hi).trans hxi) ((hplace (by omega)).trans hxj)
  have hone := hx.count_hyphen_le hexponents hmarks
  omega

/-! ### Seconds -/

/-- Whether a text is a point and digits, or empty. -/
inductive Fraction : List Char → Prop where
  | absent : Fraction []
  | mk {digits} (hne : digits ≠ []) (hd : Digits digits) : Fraction ('.' :: digits)

/-- Whether a text is a colon, two digits and perhaps a fraction, or empty. -/
inductive Seconds : List Char → Prop where
  | absent : Seconds []
  | mk {digits fraction} (hd : Spells [digitSet, digitSet] digits) (hf : Fraction fraction) :
      Seconds (':' :: (digits ++ fraction))

/-- A fraction, or none. -/
def fraction (point : CharSet) : Pattern := .opt true (.seqAll [.one point, Literal.digits])

/-- Seconds with or without a fraction, or none. -/
def seconds (colon point : CharSet) : Pattern :=
  .opt true (.seqAll [.one colon, Literal.decimalDigit.times 2, fraction point])

theorem sets?_twoDigits : (Literal.decimalDigit.times 2).sets? = some [digitSet, digitSet] := rfl

theorem takes_fraction {point : CharSet} (hpoint : ∀ c, point.contains c = true ↔ c = '.')
    {text rest : List Char} :
    (fraction point).Takes text rest ↔ ∃ f, text = f ++ rest ∧ Fraction f := by
  simp only [fraction, seqAll, takes_opt, takes_seq, takes_one, hpoint, takes_digits]
  constructor
  · rintro (⟨_, ⟨c, rfl, rfl⟩, d, hne, rfl, hd⟩ | rfl)
    · exact ⟨'.' :: d, rfl, .mk hne hd⟩
    · exact ⟨[], rfl, .absent⟩
  · rintro ⟨f, rfl, hf⟩
    cases hf with
    | absent => exact .inr rfl
    | mk hne hd => exact .inl ⟨_, ⟨_, rfl, rfl⟩, _, hne, rfl, hd⟩

theorem takes_seconds {colon point : CharSet} (hcolon : ∀ c, colon.contains c = true ↔ c = ':')
    (hpoint : ∀ c, point.contains c = true ↔ c = '.') {text rest : List Char} :
    (seconds colon point).Takes text rest ↔ ∃ s, text = s ++ rest ∧ Seconds s := by
  simp only [seconds, seqAll, takes_opt, takes_seq, takes_one, hcolon,
    takes_iff_of_sets? sets?_twoDigits, behind_eq_some_iff, takes_fraction hpoint]
  constructor
  · rintro (⟨_, ⟨c, rfl, rfl⟩, _, ⟨d, rfl, hd⟩, f, rfl, hf⟩ | rfl)
    · exact ⟨':' :: (d ++ f), by simp, .mk hd hf⟩
    · exact ⟨[], rfl, .absent⟩
  · rintro ⟨s, rfl, hs⟩
    cases hs with
    | absent => exact .inr rfl
    | mk hd hf =>
      exact .inl ⟨_, ⟨_, rfl, rfl⟩, _, ⟨_, List.append_assoc .., hd⟩, _, rfl, hf⟩

theorem consume_fraction {point : CharSet} (hpoint : ∀ c, point.contains c = true ↔ c = '.')
    {f rest : List Char} (hf : Fraction f)
    (hrest : ∀ c ∈ rest.head?, isAsciiDigit c = false ∧ c ≠ '.') (hk : k rest = some a) :
    (fraction point).consume (f ++ rest) k = some a := by
  rw [fraction, Pattern.consume]
  cases hf with
  | absent =>
    have hnone : (seqAll [.one point, Literal.digits]).consume rest k = none := by
      rcases rest with _ | ⟨c, rest⟩
      · rfl
      · have hc : point.contains c = false := by
          rw [Bool.eq_false_iff, ne_eq, hpoint]
          exact (hrest c rfl).2
        simp [seqAll, hc]
    rw [List.nil_append, hnone]
    simpa [prefer] using hk
  | mk hne hd =>
    refine prefer_some ?_ _
    simp only [seqAll, List.cons_append, consume_seq, consume_one_cons, (hpoint '.').2 rfl, if_true]
    exact consume_digits hne hd (fun c hc => (hrest c hc).1) hk

theorem consume_seconds {colon point : CharSet} (hcolon : ∀ c, colon.contains c = true ↔ c = ':')
    (hpoint : ∀ c, point.contains c = true ↔ c = '.') {s rest : List Char} (hs : Seconds s)
    (hrest : ∀ c ∈ rest.head?, isAsciiDigit c = false ∧ c ≠ '.' ∧ c ≠ ':')
    (hk : k rest = some a) : (seconds colon point).consume (s ++ rest) k = some a := by
  rw [seconds, Pattern.consume]
  cases hs with
  | absent =>
    have hnone : (seqAll [.one colon, Literal.decimalDigit.times 2, fraction point]).consume rest k =
        none := by
      rcases rest with _ | ⟨c, rest⟩
      · rfl
      · have hc : colon.contains c = false := by
          rw [Bool.eq_false_iff, ne_eq, hcolon]
          exact (hrest c rfl).2.2
        simp [seqAll, hc]
    rw [List.nil_append, hnone]
    simpa [prefer] using hk
  | mk hd hf =>
    refine prefer_some ?_ _
    simp only [seqAll, List.cons_append, List.append_assoc, consume_seq, consume_one_cons,
      (hcolon ':').2 rfl, if_true]
    rw [consume_of_sets? sets?_twoDigits, behind_append hd]
    exact consume_fraction hpoint hf (fun c hc => ⟨(hrest c hc).1, (hrest c hc).2.1⟩) hk

end Numeral

end Criteria

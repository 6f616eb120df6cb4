import Criteria.Proofs.Literal.Numerals
import Criteria.Proofs.Number.Shortest

/-!
# Doubles as text

Doubles are written as numerals with a point or an exponent, which tells them from integers. The
text of a finite double is read as the double (`exists_doubleText`): zeros by their sign, and other
numbers because the shortest decimal is near them.
-/

namespace Criteria

open Text Numeral

/-- The parts of the text of a double: digits, and a point with further digits or an exponent behind
them. -/
structure DoubleText where
  negative : Bool
  whole : List Char
  /-- The digits behind the point; without digits there is no point. -/
  fraction : List Char
  exponent : Option Int
  whole_ne_nil : whole ≠ []
  whole_digits : Digits whole
  fraction_digits : Digits fraction
  marked : fraction ≠ [] ∨ exponent ≠ none

namespace DoubleText

/-- The point and the digits behind it. -/
def pointChars (t : DoubleText) : List Char :=
  if t.fraction = [] then [] else '.' :: t.fraction

/-- The exponent behind its mark. -/
def exponentChars (t : DoubleText) : List Char :=
  match t.exponent with
  | none => []
  | some e => 'e' :: (toString e).toList

/-- The text as a whole. -/
def chars (t : DoubleText) : List Char :=
  minus t.negative ++ (t.whole ++ (t.pointChars ++ t.exponentChars))

/-- The number that the text stands for. -/
def number (t : DoubleText) : Binary64 :=
  Binary64.ofDecimal t.negative (decimalNumber (t.whole ++ t.fraction))
    (t.exponent.getD 0 - t.fraction.length)

theorem sign_minus (negative : Bool) : Sign (minus negative) := by
  cases negative
  · exact .inl rfl
  · exact .inr (.inl rfl)

theorem exponent_chars {marks : CharSet} (hmarks : marks.contains 'e' = true) (t : DoubleText) :
    Exponent marks t.exponentChars := by
  unfold exponentChars
  split
  · exact .absent
  · rw [toList_toString]
    exact .mk hmarks (sign_minus _) Nat.toDigits_ne_nil (digits_toDigits _)

theorem magnitude_chars (t : DoubleText) : Magnitude (t.whole ++ t.pointChars) := by
  unfold pointChars
  split_ifs with h
  · rw [List.append_nil]
    exact .whole t.whole_ne_nil t.whole_digits
  · exact .pointed t.whole_ne_nil t.whole_digits t.fraction_digits

/-- The text of a double is a numeral. -/
theorem isNumeral_chars {exponents : CharSet} (hexponents : exponents.contains 'e' = true)
    (marks : CharSet) (t : DoubleText) : IsNumeral exponents marks t.chars :=
  ⟨minus t.negative, t.whole ++ t.pointChars, t.exponentChars, [], by simp [chars], sign_minus _,
    t.magnitude_chars, t.exponent_chars hexponents, .absent⟩

/-- The text of a double is told from that of an integer. -/
theorem mem_chars (t : DoubleText) : '.' ∈ t.chars ∨ 'e' ∈ t.chars := by
  rcases t.marked with h | h
  · left
    simp [chars, pointChars, h]
  · right
    obtain ⟨e, he⟩ := Option.ne_none_iff_exists'.1 h
    simp [chars, exponentChars, he]

/-- The text of a double ends in a digit. -/
theorem getLast?_chars (t : DoubleText) : ∀ c ∈ t.chars.getLast?, isAsciiDigit c = true := by
  have hlast {a d : List Char} (hne : d ≠ []) (hd : Digits d) :
      ∀ c ∈ (a ++ d).getLast?, isAsciiDigit c = true := by
    intro c hc
    rw [List.getLast?_append_of_ne_nil _ hne] at hc
    exact hd c (List.mem_of_mem_getLast? hc)
  unfold chars exponentChars
  cases t.exponent with
  | some e =>
    have hexponent := hlast (a := minus t.negative ++ (t.whole ++ (t.pointChars ++
      'e' :: minus (e < 0)))) Nat.toDigits_ne_nil (digits_toDigits e.natAbs)
    dsimp only
    rw [toList_toString]
    simpa using hexponent
  | none =>
    unfold pointChars
    split_ifs with h
    · simpa using hlast (a := minus t.negative) t.whole_ne_nil t.whole_digits
    · simpa using hlast (a := minus t.negative ++ (t.whole ++ ['.'])) h t.fraction_digits

theorem takeWhile_digits {d rest : List Char} (hd : Digits d)
    (hrest : ∀ c ∈ rest.head?, isAsciiDigit c = false) :
    (d ++ rest).takeWhile isAsciiDigit = d ∧ (d ++ rest).dropWhile isAsciiDigit = rest := by
  have hnil : rest.takeWhile isAsciiDigit = [] ∧ rest.dropWhile isAsciiDigit = rest := by
    rcases rest with _ | ⟨c, rest⟩
    · exact ⟨rfl, rfl⟩
    · simp [hrest c rfl]
  constructor
  · rw [List.takeWhile_append_of_pos hd, hnil.1, List.append_nil]
  · rw [List.dropWhile_append_of_pos hd, hnil.2]

theorem head?_exponentChars (t : DoubleText) : ∀ c ∈ t.exponentChars.head?, c = 'e' := by
  unfold exponentChars
  split
  · simp
  · rintro _ ⟨⟩
    rfl

/-- **The text of a double is read as its number.** -/
theorem readDouble_chars (t : DoubleText) : Literal.readDouble t.chars = t.number := by
  have hdigit : ∀ c ∈ (t.whole ++ (t.pointChars ++ t.exponentChars)).head?, isAsciiDigit c = true :=
    fun c hc => t.whole_digits.head? t.whole_ne_nil hc
  have hexponent : ∀ c ∈ t.exponentChars.head?, isAsciiDigit c = false ∧ c ≠ '.' := by
    intro c hc
    cases t.head?_exponentChars c hc
    exact ⟨rfl, by decide⟩
  have hbehind : ∀ c ∈ (t.pointChars ++ t.exponentChars).head?, isAsciiDigit c = false := by
    unfold pointChars
    split_ifs
    · exact fun c hc => (hexponent c hc).1
    · rintro _ ⟨⟩
      rfl
  have hwhole := takeWhile_digits t.whole_digits hbehind
  have hfraction := takeWhile_digits t.fraction_digits fun c hc => (hexponent c hc).1
  have hread : t.exponentChars = [] ∧ t.exponent.getD 0 = 0 ∨
      ∃ cs, t.exponentChars = 'e' :: cs ∧ t.exponent.getD 0 = Literal.readInt cs := by
    unfold exponentChars
    cases t.exponent with
    | none => exact .inl ⟨rfl, rfl⟩
    | some e => exact .inr ⟨_, rfl, (readInt_toString e).symm⟩
  unfold Literal.readDouble chars number
  rw [splitSign_minus t.negative hdigit]
  dsimp only
  rw [hwhole.1, List.drop_left]
  -- the text is split as it was put together: first with or without a point, then an exponent
  by_cases h : t.fraction = []
  · have hpoint : t.pointChars = [] := if_pos h
    rw [hpoint, List.nil_append, h]
    obtain ⟨hchars, he⟩ | ⟨cs, hchars, he⟩ := hread <;> rw [hchars] <;>
      exact congrArg (fun e : Int => Binary64.ofDecimal t.negative (decimalNumber (t.whole ++ []))
        (e - ([] : List Char).length)) he.symm
  · have hpoint : t.pointChars = '.' :: t.fraction := if_neg h
    rw [hpoint, List.cons_append]
    obtain ⟨hchars, he⟩ | ⟨cs, hchars, he⟩ := hread <;> rw [hchars] at hfraction ⊢ <;>
      simp only [hfraction, he]

end DoubleText

/-! ### Writing -/

namespace Number

theorem Decimal.value_go (n : Nat) (d : Decimal) : (Decimal.stripZeros.go n d).value = d.value := by
  induction n generalizing d with
  | zero => rfl
  | succ n ih =>
    rw [Decimal.stripZeros.go]
    split_ifs with h
    · rw [ih]
      have hten : (d.digits : ℚ) = (d.digits / 10 : Nat) * 10 := by
        exact_mod_cast (Nat.div_mul_cancel (Nat.dvd_of_mod_eq_zero h.1)).symm
      simp only [Decimal.value]
      rw [zpow_add_one₀ (by norm_num), hten]
      ring
    · rfl

/-- A decimal without the zeros at its end is the same number. -/
theorem Decimal.value_stripZeros (d : Decimal) : d.stripZeros.value = d.value := value_go _ d

end Number

namespace DoubleText

/-- The decimal number that a text stands for but for its sign. -/
def value (t : DoubleText) : ℚ :=
  decimalNumber (t.whole ++ t.fraction) * 10 ^ (t.exponent.getD 0 - t.fraction.length)

/-- Where digits are cut at a point, the text stands for the digits times a power of ten. -/
theorem value_of_cut (t : DoubleText) {ds : List Char} {n : Nat} (hwhole : t.whole = ds.take n)
    (hfraction : t.fraction = ds.drop n) :
    t.value = decimalNumber ds * 10 ^ (t.exponent.getD 0 - (ds.length - n : Nat)) := by
  rw [value, hwhole, hfraction, List.take_append_drop, List.length_drop]

theorem digits_cut {ds : List Char} (hd : Digits ds) (n : Nat) :
    Digits (ds.take n) ∧ Digits (ds.drop n) :=
  ⟨fun c hc => hd c (List.mem_of_mem_take hc), fun c hc => hd c (List.mem_of_mem_drop hc)⟩

section

variable (negative : Bool) {ds : List Char} (hne : ds ≠ []) (hd : Digits ds)

include hne hd

/-- Digits behind a point and zeros. -/
theorem exists_behind (n : Nat) : ∃ t : DoubleText, t.negative = negative ∧
    t.chars = minus negative ++ '0' :: '.' :: (List.replicate n '0' ++ ds) ∧
    t.value = decimalNumber ds * 10 ^ (-(n + ds.length : Int)) := by
  refine ⟨⟨negative, ['0'], List.replicate n '0' ++ ds, none, by simp, digits_replicate_zero 1,
    digits_append.2 ⟨digits_replicate_zero _, hd⟩, by simp [hne]⟩, rfl, ?_, ?_⟩
  · simp [chars, pointChars, exponentChars, hne]
  · have hzero : decimalNumber ['0'] = 0 := rfl
    rw [value, decimalNumber_append, decimalNumber_append, decimalNumber_replicate_zero, hzero,
      Nat.mul_zero, Nat.mul_zero, Nat.zero_add, Nat.zero_add, List.length_append,
      List.length_replicate, Option.getD_none, Int.zero_sub]
    push_cast
    rfl

/-- Digits and zeros in front of a point. -/
theorem exists_before (n : Nat) : ∃ t : DoubleText, t.negative = negative ∧
    t.chars = minus negative ++ (ds ++ (List.replicate n '0' ++ ['.', '0'])) ∧
    t.value = decimalNumber ds * 10 ^ (n : Int) := by
  refine ⟨⟨negative, ds ++ List.replicate n '0', ['0'], none, by simp [hne],
    digits_append.2 ⟨hd, digits_replicate_zero _⟩, digits_replicate_zero 1, by simp⟩, rfl, ?_, ?_⟩
  · simp [chars, pointChars, exponentChars]
  · have hzero : decimalNumber ['0'] = 0 := rfl
    rw [value, decimalNumber_append, decimalNumber_append, decimalNumber_replicate_zero, hzero,
      List.length_replicate, List.length_singleton, Option.getD_none, zpow_natCast]
    push_cast
    norm_num
    ring

/-- A point between digits. -/
theorem exists_between {n : Nat} (hn : 0 < n) (hlt : n < ds.length) : ∃ t : DoubleText,
    t.negative = negative ∧ t.chars = minus negative ++ (ds.take n ++ '.' :: ds.drop n) ∧
    t.value = decimalNumber ds * 10 ^ (0 - (ds.length - n : Nat) : Int) := by
  have htake : ds.take n ≠ [] := by simp [hne, hn.ne']
  have hdrop : ds.drop n ≠ [] := by simpa using hlt
  refine ⟨⟨negative, ds.take n, ds.drop n, none, htake, (digits_cut hd n).1, (digits_cut hd n).2,
    .inl hdrop⟩, rfl, ?_, value_of_cut _ rfl rfl⟩
  simp [chars, pointChars, exponentChars, hdrop]

/-- A digit, a point in front of the others if there are others, and an exponent. -/
theorem exists_scientific (e : Int) : ∃ t : DoubleText, t.negative = negative ∧
    t.chars = minus negative ++ (ds.take 1 ++ ((if ds.drop 1 = [] then [] else '.' :: ds.drop 1) ++
      'e' :: (toString e).toList)) ∧
    t.value = decimalNumber ds * 10 ^ (e - (ds.length - 1 : Nat)) := by
  have htake : ds.take 1 ≠ [] := by simp [hne]
  exact ⟨⟨negative, ds.take 1, ds.drop 1, some e, htake, (digits_cut hd 1).1, (digits_cut hd 1).2,
    by simp⟩, rfl, rfl, value_of_cut _ rfl rfl⟩

end

end DoubleText

namespace Number

theorem toList_fraction {ds : List Char} (hne : ds ≠ []) :
    (if ds.length = 1 then "" else "." ++ String.ofList (ds.drop 1)).toList =
      if ds.drop 1 = [] then [] else '.' :: ds.drop 1 := by
  have hlen := List.length_pos_iff.2 hne
  by_cases hone : ds.length = 1
  · rw [if_pos hone, if_pos (List.drop_eq_nil_of_le hone.le)]
    rfl
  · rw [if_neg hone, if_neg]
    · simp
    · rw [← ne_eq, ← List.length_pos_iff, List.length_drop]
      omega

theorem toList_exponent {f : NumberFormat} (hplus : f.exponentPlus = false) (e : Int) :
    (if e < 0 then "-" else if f.exponentPlus then "+" else "").toList ++
      (digitsOf e.natAbs).toList = (toString e).toList := by
  rw [toList_toString, hplus]
  congr 1
  · by_cases hneg : e < 0 <;> simp [hneg, minus]
  · exact Nat.toList_repr

/-- A decimal is written as the text of a double that stands for it. -/
theorem exists_doubleText_writeDecimal {f : NumberFormat} (hplus : f.exponentPlus = false)
    (negative : Bool) (d : Decimal) :
    ∃ t : DoubleText, t.negative = negative ∧
      minus negative ++ (f.writeDecimal d).toList = t.chars ∧ t.value = d.value := by
  have hdigits : (digitsOf d.digits).toList = Nat.toDigits 10 d.digits := Nat.toList_repr
  have hd := digits_toDigits d.digits
  have hne := Nat.toDigits_ne_nil (b := 10) (n := d.digits)
  have hnumber := decimalNumber_toDigits d.digits
  unfold NumberFormat.writeDecimal
  rw [hdigits]
  generalize Nat.toDigits 10 d.digits = ds at *
  dsimp only
  generalize he : d.exponent + (ds.length : Int) - 1 = e
  have hlen := List.length_pos_iff.2 hne
  -- every notation stands for the digits times a power of ten, and it is the one of the decimal
  have hvalue {t : DoubleText} {p : Int} (ht : t.value = decimalNumber ds * 10 ^ p)
      (hp : p = d.exponent) : t.value = d.value := by
    rw [ht, hp, hnumber]
    rfl
  by_cases hpos : f.positionalFrom ≤ e ∧ e < f.positionalTo
  · rw [if_pos hpos]
    by_cases hneg : e < 0
    · rw [if_pos hneg]
      obtain ⟨t, hnegative, hchars, ht⟩ :=
        DoubleText.exists_behind negative hne hd (-e - 1).toNat
      refine ⟨t, hnegative, ?_, hvalue ht (by omega)⟩
      rw [hchars]
      simp [zeros]
    rw [if_neg hneg]
    by_cases hwhole : ds.length ≤ e.toNat + 1
    · rw [if_pos hwhole]
      obtain ⟨t, hnegative, hchars, ht⟩ :=
        DoubleText.exists_before negative hne hd (e.toNat + 1 - ds.length)
      refine ⟨t, hnegative, ?_, hvalue ht (by omega)⟩
      rw [hchars]
      simp [zeros]
    · rw [if_neg hwhole]
      obtain ⟨t, hnegative, hchars, ht⟩ :=
        DoubleText.exists_between negative hne hd (n := e.toNat + 1) (by omega) (by omega)
      refine ⟨t, hnegative, ?_, hvalue ht (by omega)⟩
      rw [hchars]
      simp
  · rw [if_neg hpos]
    obtain ⟨t, hnegative, hchars, ht⟩ := DoubleText.exists_scientific negative hne hd e
    refine ⟨t, hnegative, ?_, hvalue ht (by omega)⟩
    rw [hchars, ← toList_fraction hne, ← toList_exponent hplus e]
    simp only [String.toList_append, String.toList_ofList, List.append_assoc]
    rfl

theorem significand_ne_zero {x : Binary64} (h : x.isZero = false) : x.significand ≠ 0 := by
  have hmag : x.magnitude ≠ 0 := by simpa [Binary64.isZero] using h
  have hpos : Binary64.hiddenBit ≠ 0 := by decide
  unfold Binary64.significand
  split_ifs
  · exact hmag
  · omega

/-- **The text of a finite double is read as the double.** -/
theorem exists_doubleText {f : NumberFormat} (hplus : f.exponentPlus = false) {x : Binary64}
    (hx : x.isFinite = true) : ∃ t : DoubleText, (f.write x).toList = t.chars ∧ t.number = x := by
  have hmag : x.magnitude < Binary64.infinityBits := by simpa [Binary64.isFinite] using hx
  have hnan : x.isNaN = false := by
    simp only [Binary64.isNaN, decide_eq_false_iff_not]
    omega
  have hinf : x.isInfinite = false := by
    simp only [Binary64.isInfinite, beq_eq_false_iff_ne]
    omega
  have hsign : (if x.negative then "-" else "").toList = minus x.negative := by
    cases x.negative <;> rfl
  unfold NumberFormat.write
  simp only [hnan, hinf, Bool.false_eq_true, if_false]
  cases hzero : x.isZero with
  | true =>
    have hmagnitude : x.magnitude = 0 := by simpa [Binary64.isZero] using hzero
    refine ⟨⟨x.negative, ['0'], ['0'], none, by simp, digits_replicate_zero 1,
      digits_replicate_zero 1, by simp⟩, ?_, ?_⟩
    · rw [if_pos rfl, String.toList_append, hsign]
      rfl
    · have hself := Binary64.ofMagnitude_magnitude x
      rw [hmagnitude] at hself
      exact hself
  | false =>
    have hne := significand_ne_zero hzero
    have hnear := near_shortest hne f.tieUp
    rw [← Decimal.value_stripZeros] at hnear
    obtain ⟨t, hnegative, htext, hvalue⟩ :=
      exists_doubleText_writeDecimal hplus x.negative (shortest x f.tieUp).stripZeros
    refine ⟨t, ?_, ?_⟩
    · rw [if_neg (by simp), String.toList_append, hsign, htext]
    · rw [← hvalue] at hnear
      rw [DoubleText.number, hnegative]
      exact Binary64.ofDecimal_of_near hx hne (digits_ne_zero hne (d := ⟨_, _⟩) hnear) hnear

end Number

end Criteria

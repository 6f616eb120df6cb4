import Criteria.Calendar
import Criteria.Literal
import Mathlib.Algebra.Group.Nat.Defs
import Mathlib.Data.List.Induction
import Mathlib.Data.Nat.Basic

/-!
# Decimal digits

A number written in decimal digits is read back, whether zeros stand in front of the digits or not.
-/

namespace Criteria

open Text

namespace Numeral

/-- Whether a text consists of decimal digits. -/
def Digits (text : List Char) : Prop := ∀ c ∈ text, isAsciiDigit c = true

theorem digits_append {a b : List Char} : Digits (a ++ b) ↔ Digits a ∧ Digits b :=
  List.forall_mem_append

theorem digits_replicate_zero (n : Nat) : Digits (List.replicate n '0') := by
  intro c hc
  rw [List.eq_of_mem_replicate hc]
  rfl

theorem digits_toDigits (n : Nat) : Digits (Nat.toDigits 10 n) := by
  intro c hc
  have hdigit := Nat.isDigit_of_mem_toDigits (by decide) (by decide) hc
  simp only [Char.isDigit, Bool.and_eq_true, decide_eq_true_eq] at hdigit
  simp only [isAsciiDigit, Bool.and_eq_true, decide_eq_true_eq]
  exact hdigit

end Numeral

open Numeral

theorem decimalNumber_append (a b : List Char) :
    decimalNumber (a ++ b) = 10 ^ b.length * decimalNumber a + decimalNumber b := by
  change Nat.ofDigitChars 10 (a ++ b) 0 = _
  rw [Nat.ofDigitChars_append, Nat.ofDigitChars_eq_ofDigitChars_zero]
  rfl

/-- **The digits of a number are read as the number.** -/
theorem decimalNumber_toDigits (n : Nat) : decimalNumber (Nat.toDigits 10 n) = n :=
  Nat.ofDigitChars_ten_toDigits

theorem decimalNumber_replicate_zero (n : Nat) : decimalNumber (List.replicate n '0') = 0 := by
  change Nat.ofDigitChars 10 _ 0 = 0
  rw [Nat.ofDigitChars_replicate_zero, Nat.mul_zero]

/-- Digits stand for less than the power of ten of their number. -/
theorem decimalNumber_lt {text : List Char} (h : Digits text) :
    decimalNumber text < 10 ^ text.length := by
  induction text using List.reverseRecOn with
  | nil => exact Nat.one_pos
  | append_singleton text c ih =>
    obtain ⟨htext, hc⟩ := digits_append.1 h
    have hdigit : decimalNumber [c] < 10 := by
      have hc := hc c List.mem_cons_self
      simp only [isAsciiDigit, Bool.and_eq_true, decide_eq_true_eq] at hc
      have hle : c.toNat ≤ '9'.toNat := hc.2
      have hvalue : decimalNumber [c] = c.toNat - 48 := by simp [decimalNumber]
      have h9 : '9'.toNat = 57 := rfl
      omega
    have ih := ih htext
    rw [decimalNumber_append, List.length_append, List.length_singleton, Nat.pow_succ]
    omega

/-- A number of digits with zeros in front. -/
theorem toList_zeroPadded (width n : Nat) :
    (zeroPadded width n).toList =
      List.replicate (width - (Nat.toDigits 10 n).length) '0' ++ Nat.toDigits 10 n := by
  have hrepr : (toString n).toList = Nat.toDigits 10 n := Nat.toList_repr
  have hlen : (toString n).length = (Nat.toDigits 10 n).length := by
    rw [← String.length_toList, hrepr]
  simp only [zeroPadded, String.toList_append, String.toList_ofList, hlen, hrepr]

theorem digits_zeroPadded (width n : Nat) : Digits (zeroPadded width n).toList := by
  rw [toList_zeroPadded]
  exact digits_append.2 ⟨digits_replicate_zero _, digits_toDigits n⟩

theorem length_zeroPadded {width n : Nat} (hwidth : 0 < width) (h : n < 10 ^ width) :
    (zeroPadded width n).toList.length = width := by
  have hle := (Nat.length_toDigits_le_iff (by decide) hwidth).2 h
  rw [toList_zeroPadded, List.length_append, List.length_replicate]
  omega

/-- Zeros in front do not matter. -/
theorem decimalNumber_zeroPadded (width n : Nat) :
    decimalNumber (zeroPadded width n).toList = n := by
  rw [toList_zeroPadded, decimalNumber_append, decimalNumber_replicate_zero, Nat.mul_zero,
    Nat.zero_add, decimalNumber_toDigits]

/-! ### Integers -/

/-- The sign in front of the digits of an integer. -/
def minus (negative : Bool) : List Char := if negative then ['-'] else []

theorem toList_toString (n : Int) :
    (toString n).toList = minus (n < 0) ++ Nat.toDigits 10 n.natAbs := by
  cases n with
  | ofNat m =>
    have hnonneg : ¬ Int.ofNat m < 0 := by simp
    simp only [hnonneg, decide_false, minus]
    exact Nat.toList_repr
  | negSucc m =>
    have hneg : Int.negSucc m < 0 := Int.negSucc_lt_zero m
    have hrepr : toString (Int.negSucc m) = "-" ++ (m + 1).repr := rfl
    rw [hrepr, String.toList_append, Nat.toList_repr]
    simp only [hneg, decide_true, minus]
    rfl

theorem splitSign_minus (negative : Bool) {text : List Char}
    (h : ∀ c ∈ text.head?, isAsciiDigit c = true) :
    Literal.splitSign (minus negative ++ text) = (negative, text) := by
  cases negative with
  | true => rfl
  | false =>
    rcases text with _ | ⟨c, text⟩
    · rfl
    · have hc := h c rfl
      have hminus : c ≠ '-' := by
        rintro rfl
        cases hc
      have hplus : c ≠ '+' := by
        rintro rfl
        cases hc
      simp [minus, Literal.splitSign, hminus, hplus]

/-- **An integer is read back.** -/
theorem readInt_minus (negative : Bool) {text : List Char} (h : Digits text) :
    Literal.readInt (minus negative ++ text) =
      if negative then -(decimalNumber text : Int) else decimalNumber text := by
  unfold Literal.readInt
  rw [splitSign_minus negative fun c hc => h c (List.mem_of_mem_head? hc)]

theorem readInt_toString (n : Int) : Literal.readInt (toString n).toList = n := by
  rw [toList_toString, readInt_minus _ (digits_toDigits _), decimalNumber_toDigits]
  by_cases h : n < 0
  · simp only [h, decide_true, if_true]
    omega
  · simp only [h, decide_false, Bool.false_eq_true, if_false]
    omega

end Criteria

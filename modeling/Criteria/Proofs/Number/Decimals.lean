import Criteria.Arithmetic
import Mathlib.Tactic.Ring

/-!
# Integers by way of decimals

The five operations on decimals of 96 bits, taken on integers of 64 bits. Sums, products and remainders
of such integers are exact where they fit. A quotient may be rounded in its last digit: a division
ends where it is exact, at the largest scale, or where no further digit fits (`Ends`), and its quotient
is rounded once, at this scale or, if the rounded quotient does not fit, at the one below
(`Ends.settle?`). Where it is not exact the scale exceeds the divisor a hundredfold
(`Ends.dvd_or_le`), so that rounding does not reach the next integer (`div?_ofInt`).
-/

namespace Criteria.Number

theorem roundHalfEven_one (n : Nat) : roundHalfEven n 1 = n := by
  simpa using roundHalfEven_of_dvd Nat.one_pos (one_dvd n)

/-- A quotient at a scale `t` that exceeds the divisor keeps a distance from the next multiple of
the scale. -/
theorem mul_div_bounds (a : Nat) {d t c : Nat} (hd : 0 < d) (h : c * d ≤ t) :
    a / d * t ≤ a * t / d ∧ a * t / d + c ≤ (a / d + 1) * t := by
  constructor
  · rw [Nat.le_div_iff_mul_le hd]
    calc a / d * t * d = a / d * d * t := by ring
      _ ≤ a * t := Nat.mul_le_mul_right t (Nat.div_mul_le_self a d)
  · have hquotient : a * t / d * d ≤ a * t := Nat.div_mul_le_self _ d
    have hnext : a + 1 ≤ (a / d + 1) * d := Nat.lt_mul_of_div_lt (Nat.lt_succ_self _) hd
    refine Nat.le_of_mul_le_mul_right ?_ hd
    calc (a * t / d + c) * d = a * t / d * d + c * d := by ring
      _ ≤ a * t + t := Nat.add_le_add hquotient h
      _ = (a + 1) * t := by ring
      _ ≤ (a / d + 1) * d * t := Nat.mul_le_mul_right t hnext
      _ = (a / d + 1) * t * d := by ring

theorem roundHalfEven_mul_bounds (a : Nat) {d t c : Nat} (hd : 0 < d) (h : c * d ≤ t) :
    a / d * t ≤ roundHalfEven (a * t) d ∧ roundHalfEven (a * t) d + c ≤ (a / d + 1) * t + 1 := by
  have hbounds := mul_div_bounds a hd h
  have hlow := div_le_roundHalfEven (a * t) d
  have hhigh := roundHalfEven_le (a * t) d
  omega

/-- A quotient gets its next digits from the remainder. -/
theorem div_mul_add_mod_mul_div (x k : Nat) {d : Nat} (hd : 0 < d) :
    x / d * k + x % d * k / d = x * k / d := by
  have hx : x * k = x % d * k + d * (x / d * k) := by
    conv_lhs => rw [← Nat.mod_add_div x d]
    ring
  rw [hx, Nat.add_mul_div_left _ _ hd, Nat.add_comm]

theorem tdiv_eq (a b : Int) :
    a.tdiv b = if (decide (a < 0) != decide (b < 0)) then -((a.natAbs / b.natAbs : Nat) : Int)
      else (a.natAbs / b.natAbs : Nat) := by
  cases a <;> cases b <;> simp [Int.tdiv]
  omega

theorem tmod_eq (a b : Int) :
    a.tmod b = if a < 0 then -((a.natAbs % b.natAbs : Nat) : Int)
      else (a.natAbs % b.natAbs : Nat) := by
  cases a <;> cases b <;> simp [Int.tmod]

/-- The sign of a product that is not zero. -/
theorem sign_mul {a b : Int} (ha : a ≠ 0) (hb : b ≠ 0) :
    (decide (a < 0) != decide (b < 0)) = decide (a * b < 0) := by
  rcases Int.lt_or_gt_of_ne ha with ha | ha <;> rcases Int.lt_or_gt_of_ne hb with hb | hb
  · have hpos := Int.mul_pos_of_neg_of_neg ha hb
    simp [ha, hb, Int.not_lt.2 hpos.le]
  · have hneg := Int.mul_neg_of_neg_of_pos ha hb
    simp [ha, hneg, Int.not_lt.2 hb.le]
  · have hneg := Int.mul_neg_of_pos_of_neg ha hb
    simp [hb, hneg, Int.not_lt.2 ha.le]
  · have hpos := Int.mul_pos ha hb
    simp [Int.not_lt.2 ha.le, Int.not_lt.2 hb.le, Int.not_lt.2 hpos.le]

namespace Scaled

theorem bound_eq : bound = 2 ^ 96 := rfl

/-! ### Long division -/

/-- Digits are only added where they fit. -/
theorem digitsToAdd_fits {q : Nat} {s : Int} (h : digitsToAdd q s ≠ 0) :
    (digitsToAdd q s : Int) ≤ 28 - s ∧ q * 10 ^ digitsToAdd q s < bound := by
  revert h
  simp only [digitsToAdd]
  cases hfind : (List.range 10).reverse.find? _ with
  | none => exact fun h => absurd rfl h
  | some p =>
    intro _
    have hp := List.find?_some hfind
    simpa using hp

/-- No digit is added below the largest scale only if there is no room for one. -/
theorem bound_le_of_digitsToAdd {q : Nat} {s : Int} (hs : s < 28) (h : digitsToAdd q s = 0) :
    bound ≤ q * 10 := by
  revert h
  simp only [digitsToAdd]
  rw [show (List.range 10).reverse = (List.range' 1 9).reverse ++ [0] from rfl, List.find?_append]
  cases hfind : (List.range' 1 9).reverse.find? _ with
  | some p =>
    have hp : p ∈ (List.range' 1 9).reverse := List.mem_of_find?_eq_some hfind
    intro h
    rw [Option.some_or, Option.getD_some] at h
    subst h
    exact absurd hp (by decide)
  | none =>
    intro _
    have hone := List.find?_eq_none.1 hfind 1 (by decide)
    simp at hone
    omega

/-- Where a long division of `a` by `d` ends: nothing is left, the scale is the largest, or no
further digit fits. -/
def Ends (a d s : Nat) : Prop :=
  d ∣ a * 10 ^ s ∨ s = maxScale ∨ bound ≤ a * 10 ^ s / d * 10

/-- A long division yields quotient and remainder of `a * 10 ^ s'` at a scale `s'` where it ends.
Every step has those at the scale reached, and every step but the last adds a digit, so the fuel
suffices. -/
theorem divideSteps_eq (a : Nat) {d : Nat} (hd : 0 < d) (n s : Nat) (hs : s ≤ maxScale)
    (hn : maxScale < n + s) :
    ∃ s' ≤ maxScale, Ends a d s' ∧
      divideSteps d n (a * 10 ^ s / d) (a * 10 ^ s % d) s =
        some (a * 10 ^ s' / d, a * 10 ^ s' % d, (s' : Int)) := by
  induction n generalizing s with
  | zero => omega
  | succ n ih =>
    rw [divideSteps]
    simp only [Nat.pow_eq]
    split
    case isTrue hzero =>
      refine ⟨s, hs, .inl (Nat.dvd_of_mod_eq_zero hzero), ?_⟩
      rw [if_pos (Int.natCast_nonneg s)]
    case isFalse hleft =>
      generalize hp : (if (s : Int) = 28 then 0 else digitsToAdd (a * 10 ^ s / d) s) = p
      rw [if_neg (by omega)]
      split
      case isTrue hnone =>
        refine ⟨s, hs, ?_, rfl⟩
        by_cases hlast : s = maxScale
        · exact .inr (.inl hlast)
        · have hlt : (s : Int) < 28 := by simp only [maxScale] at hs hlast; omega
          rw [if_neg (by omega), hnone] at hp
          exact .inr (.inr (bound_le_of_digitsToAdd hlt hp))
      case isFalse hmore =>
        have hnot : (s : Int) ≠ 28 := fun h => hmore (by rw [← hp, if_pos h])
        rw [if_neg hnot] at hp
        obtain ⟨hscale, hroom⟩ := digitsToAdd_fits (hp.symm ▸ hmore)
        rw [hp] at hscale hroom
        rw [if_pos hroom, div_mul_add_mod_mul_div _ _ hd, Nat.mod_mul_mod, Nat.mul_assoc,
          ← Nat.pow_add, ← Int.natCast_add]
        exact ih (s + p) (by simp only [maxScale]; omega) (by omega)

/-- A quotient of an integer of 64 bits that fills the mantissa has a scale far beyond the
divisor. -/
theorem hundred_mul_le_of_bound_le {a d s : Nat} (ha : a ≤ 2 ^ 63)
    (h : bound ≤ a * 10 ^ s / d * 10) : 100 * d ≤ 10 ^ s := by
  have hquotient : a * 10 ^ s / d * d ≤ a * 10 ^ s := Nat.div_mul_le_self _ d
  have hroom : 2 ^ 96 * d ≤ 10 * (2 ^ 63 * 10 ^ s) :=
    calc 2 ^ 96 * d ≤ a * 10 ^ s / d * 10 * d := Nat.mul_le_mul_right d h
      _ = 10 * (a * 10 ^ s / d * d) := by ring
      _ ≤ 10 * (a * 10 ^ s) := Nat.mul_le_mul_left 10 hquotient
      _ ≤ 10 * (2 ^ 63 * 10 ^ s) := Nat.mul_le_mul_left 10 (Nat.mul_le_mul_right _ ha)
  omega

theorem Ends.dvd_or_le {a d s : Nat} (ha : a ≤ 2 ^ 63) (hd : d ≤ 2 ^ 63) (h : Ends a d s) :
    d ∣ a * 10 ^ s ∨ 100 * d ≤ 10 ^ s := by
  rcases h with h | rfl | h
  · exact .inl h
  · refine .inr ?_
    simp only [maxScale]
    omega
  · exact .inr (hundred_mul_le_of_bound_le ha h)

/-- A quotient that is rounded where it is exact, or at a scale beyond the divisor, does not reach the
next integer. -/
theorem roundHalfEven_div_ten_pow {a d s : Nat} (hd : 0 < d)
    (h : d ∣ a * 10 ^ s ∨ 10 * d ≤ 10 ^ s) :
    roundHalfEven (a * 10 ^ s) d / 10 ^ s = a / d := by
  rcases h with hdvd | hle
  · rw [roundHalfEven_of_dvd hd hdvd, Nat.div_div_eq_div_mul,
      Nat.mul_div_mul_right _ _ (Nat.pow_pos (by decide))]
  · have hbounds := roundHalfEven_mul_bounds a hd hle
    exact Nat.div_eq_of_lt_le hbounds.1 (by omega)

/-- **Where a division of integers of 64 bits ends, its quotient is rounded once**: at the scale
reached, or at the one below if the rounded quotient does not fit there. -/
theorem Ends.settle? {a d s : Nat} (ha : a ≤ 2 ^ 63) (hpos : 0 < d) (hd : d ≤ 2 ^ 63)
    (h : Ends a d s) :
    ∃ t, Scaled.settle? d (a * 10 ^ s / d) (a * 10 ^ s % d) s =
        some (roundHalfEven (a * 10 ^ t) d, t) ∧ (d ∣ a * 10 ^ t ∨ 10 * d ≤ 10 ^ t) := by
  simp only [Scaled.settle?, Nat.div_add_mod']
  split
  case isTrue =>
    exact ⟨s, rfl, (h.dvd_or_le ha hd).imp_right fun hle => by omega⟩
  case isFalse hfull =>
    have hround := roundHalfEven_le (a * 10 ^ s) d
    cases s with
    | zero =>
      have hquotient : a * 10 ^ 0 / d ≤ a := by simpa using Nat.div_le_self a d
      rw [bound_eq] at hfull
      omega
    | succ t =>
      have hscale : 100 * d ≤ 10 ^ (t + 1) :=
        hundred_mul_le_of_bound_le ha (by rw [bound_eq] at hfull ⊢; omega)
      have hshift : a * 10 ^ (t + 1) = 10 * (a * 10 ^ t) := by ring
      refine ⟨t, ?_, .inr (by rw [Nat.pow_succ] at hscale; omega)⟩
      rw [if_neg (Nat.succ_ne_zero t), hshift, roundHalfEven_mul_mul (by decide),
        Nat.add_sub_cancel]

/-! ### Results -/

theorem trimEights_div (s m : Nat) :
    (trimEights s m).1 / 10 ^ (trimEights s m).2 = m / 10 ^ s := by
  fun_induction trimEights s m with
  | case1 s m h ih =>
    rw [ih, Nat.pow_eq, Nat.div_div_eq_div_mul, ← Nat.pow_add, Nat.add_sub_cancel' h.1]
  | case2 => rfl

theorem trimOnce_div (k : Nat) (p : Nat × Nat) :
    (trimOnce k p).1 / 10 ^ (trimOnce k p).2 = p.1 / 10 ^ p.2 := by
  unfold trimOnce
  split
  case isTrue h =>
    rw [Nat.pow_eq, Nat.div_div_eq_div_mul, ← Nat.pow_add, Nat.add_sub_cancel' h.1]
  case isFalse => rfl

theorem trimZeros_div (p : Nat × Nat) :
    (trimZeros p).1 / 10 ^ (trimZeros p).2 = p.1 / 10 ^ p.2 := by
  simp only [trimZeros, trimOnce_div, trimEights_div]

theorem mantissa_ofInt_ne_zero {n : Int} (h : n ≠ 0) : (ofInt n).mantissa ≠ 0 :=
  Int.natAbs_ne_zero.2 h

theorem truncate_ofInt (n : Int) : (ofInt n).truncate = n := by
  simp only [ofInt, truncate, Nat.pow_zero, Nat.pow_eq, Nat.div_one, decide_eq_true_eq]
  split <;> omega

theorem signedAt_ofInt (n : Int) : (ofInt n).signedAt 0 = n := by
  simp only [ofInt, signedAt, Nat.sub_self, Nat.pow_zero, Nat.pow_eq, decide_eq_true_eq]
  split <;> omega

theorem neg_ofInt (n : Int) : (ofInt n).neg = ofInt (-n) := by
  by_cases hzero : n = 0
  · simp [hzero, ofInt, neg]
  · have hsign : (!decide (n < 0)) = decide (-n < 0) := by
      rw [← decide_not, decide_eq_decide]
      omega
    simp [ofInt, neg, hzero, hsign]

/-- The quotient of integers of 64 bits, truncated. -/
theorem div?_ofInt {a b : Int} (ha : a.natAbs ≤ 2 ^ 63) (hb : b.natAbs ≤ 2 ^ 63) (h : b ≠ 0) :
    (div? (ofInt a) (ofInt b)).map truncate = some (a.tdiv b) := by
  have hpos : 0 < b.natAbs := Int.natAbs_pos.2 h
  by_cases hzero : a = 0
  · simp [div?, ofInt, hzero, h, truncate, zero]
  · obtain ⟨s, hs, hends, hsteps⟩ := divideSteps_eq a.natAbs hpos 64 0 (by decide) (by decide)
    rw [Nat.pow_zero, Nat.mul_one] at hsteps
    obtain ⟨t, hsettle, ht⟩ := hends.settle? ha hpos hb
    have hwhole := roundHalfEven_div_ten_pow hpos ht
    generalize roundHalfEven (a.natAbs * 10 ^ t) b.natAbs = m at hsettle hwhole
    have hdiv : ∃ q : Nat × Nat, q.1 / 10 ^ q.2 = a.natAbs / b.natAbs ∧
        div? (ofInt a) (ofInt b) = some ⟨decide (a < 0) != decide (b < 0), q.1, q.2⟩ := by
      refine ⟨if a.natAbs % b.natAbs = 0 then (m, t) else trimZeros (m, t), ?_, ?_⟩
      · split
        · exact hwhole
        · rw [trimZeros_div, hwhole]
      · rw [div?, if_neg (mantissa_ofInt_ne_zero h), if_neg (mantissa_ofInt_ne_zero hzero)]
        simp only [ofInt, Int.sub_self, Int.natCast_zero] at hsteps ⊢
        simp only [hsteps, Option.bind_eq_bind, Option.bind_some, Int.toNat_natCast, hsettle]
        rfl
    obtain ⟨q, hq, hdiv⟩ := hdiv
    rw [hdiv, Option.map_some, truncate, tdiv_eq, Nat.pow_eq, hq]

/-- The digits of a quotient may fill more than the mantissa; it then has one digit less. -/
example : div? (ofInt 8999286470667041200) (ofInt 113586964345497706) =
    some ⟨false, 7922816251426433759358581927, 26⟩ := by decide +kernel

theorem rem?_ofInt (a : Int) {b : Int} (h : b ≠ 0) :
    (rem? (ofInt a) (ofInt b)).map truncate = some (a.tmod b) := by
  rw [rem?, if_neg (mantissa_ofInt_ne_zero h), tmod_eq]
  simp only [show max (ofInt a).scale (ofInt b).scale = 0 from rfl, signedAt_ofInt]
  split
  case isTrue hlt =>
    rw [Option.map_some, truncate_ofInt, Nat.mod_eq_of_lt hlt]
    split <;> congr 1 <;> omega
  case isFalse =>
    split
    case isTrue hdvd => simp [hdvd, truncate, zero]
    case isFalse => simp [truncate, ofInt]

/-- A whole result is exact if it fits. -/
theorem fit?_ofInt (n : Int) :
    fit? (n < 0) n.natAbs 0 0 = if n.natAbs < bound then some (ofInt n) else none := by
  simp [fit?, roundHalfEven_one, ofInt]

theorem truncate_unsignedZero (a : Scaled) : a.unsignedZero.truncate = a.truncate := by
  unfold unsignedZero
  split
  case isTrue h => simp [truncate, h]
  case isFalse => rfl

theorem add?_ofInt {a b : Int} (ha : a.natAbs ≤ 2 ^ 63) (hb : b.natAbs ≤ 2 ^ 63) :
    (add? (ofInt a) (ofInt b)).map truncate = some (a + b) := by
  unfold add?
  split
  case isTrue h =>
    have hzero : a = 0 := Int.natAbs_eq_zero.1 h
    rw [Option.map_some, truncate_ofInt, hzero, Int.zero_add]
  case isFalse =>
    split
    case isTrue h =>
      have hzero : b = 0 := Int.natAbs_eq_zero.1 h
      rw [Option.map_some, truncate_ofInt, hzero, Int.add_zero]
    case isFalse =>
      simp only [show max (ofInt a).scale (ofInt b).scale = 0 from rfl, signedAt_ofInt]
      rw [fit?_ofInt, if_pos (by rw [bound_eq]; omega), Option.map_some, Option.map_some,
        truncate_unsignedZero, truncate_ofInt]

theorem sub?_ofInt {a b : Int} (ha : a.natAbs ≤ 2 ^ 63) (hb : b.natAbs ≤ 2 ^ 63) :
    (sub? (ofInt a) (ofInt b)).map truncate = some (a - b) := by
  rw [sub?, neg_ofInt, add?_ofInt ha (by rwa [Int.natAbs_neg]), Int.sub_eq_add_neg]

theorem mul?_ofInt (a b : Int) :
    (mul? (ofInt a) (ofInt b)).map truncate =
      if (a * b).natAbs < bound then some (a * b) else none := by
  unfold mul?
  split
  case isTrue h =>
    have hzero : a * b = 0 :=
      Int.mul_eq_zero.2 (h.imp Int.natAbs_eq_zero.1 Int.natAbs_eq_zero.1)
    simp [hzero, truncate, zero, bound_eq]
  case isFalse h =>
    obtain ⟨ha, hb⟩ : a ≠ 0 ∧ b ≠ 0 := by simpa [ofInt, not_or] using h
    have hproduct : fit? ((ofInt a).negative != (ofInt b).negative)
        ((ofInt a).mantissa * (ofInt b).mantissa) 0 0 = fit? (a * b < 0) (a * b).natAbs 0 0 := by
      congr 1
      · exact sign_mul ha hb
      · exact (Int.natAbs_mul a b).symm
    have htruncate : ∀ c : Option Scaled, (c.map unsignedZero).map truncate = c.map truncate := by
      intro c
      rw [Option.map_map, show truncate ∘ unsignedZero = truncate from funext truncate_unsignedZero]
    simp only [show (ofInt a).scale + (ofInt b).scale = 0 from rfl, Nat.min_zero, hproduct,
      fit?_ofInt]
    rw [apply_ite (Option.map truncate), htruncate, ite_self, apply_ite (Option.map truncate),
      Option.map_some, Option.map_none, truncate_ofInt]

end Scaled

end Criteria.Number

namespace Criteria.Arithmetic

open Number Scaled

/-- The exact result on integers; a quotient is truncated toward zero, and the remainder is what it
leaves. -/
def exact : Arithmetic → Int → Int → Int
  | add, a, b => a + b
  | subtract, a, b => a - b
  | multiply, a, b => a * b
  | divide, a, b => a.tdiv b
  | modulo, a, b => a - b * a.tdiv b

/-- By way of decimals integers of 64 bits have their exact result, if that fits a mantissa. -/
theorem onInts?_eq (f : Arithmetic) {a b : Int} (ha : a.natAbs ≤ 2 ^ 63) (hb : b.natAbs ≤ 2 ^ 63)
    (h : f.divides = true → b ≠ 0) :
    f.onInts? a b =
      if (f.exact a b).natAbs < Scaled.bound then some (f.exact a b) else none := by
  cases f with
  | add =>
    rw [if_pos (by simp only [exact, bound_eq]; omega)]
    exact add?_ofInt ha hb
  | subtract =>
    rw [if_pos (by simp only [exact, bound_eq]; omega)]
    exact sub?_ofInt ha hb
  | multiply => exact mul?_ofInt a b
  | divide =>
    have hle : (a.tdiv b).natAbs ≤ a.natAbs := by
      rw [Int.natAbs_tdiv]
      exact Nat.div_le_self _ _
    rw [if_pos (by simp only [exact, bound_eq]; omega)]
    exact div?_ofInt ha hb (h rfl)
  | modulo =>
    have hmod : exact modulo a b = a.tmod b := (Int.tmod_def a b).symm
    have hle : (a.tmod b).natAbs ≤ a.natAbs := by
      rw [Int.natAbs_tmod]
      exact Nat.mod_le _ _
    rw [hmod, if_pos (by rw [bound_eq]; omega)]
    exact rem?_ofInt a (h rfl)

end Criteria.Arithmetic

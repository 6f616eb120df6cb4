import Criteria.Number.Shortest
import Mathlib.Algebra.Order.Field.Power
import Mathlib.Data.Int.Log
import Mathlib.Data.Rat.Floor
import Mathlib.Tactic.FieldSimp
import Mathlib.Tactic.Linarith
import Mathlib.Tactic.NormNum
import Mathlib.Tactic.Positivity
import Mathlib.Tactic.Ring

/-!
# The nearest number

Around every finite number lie the quotients that are nearer to it than to any other number of 64
bits, its neighbourhood. A quotient from there is rounded to the number (`ofRatio_of_near`), and so
is a decimal (`ofDecimal_of_near`).
-/

namespace Criteria

namespace Number

/-- A quotient within half a unit of a number is rounded to it; at exactly half a unit the number
has to be even. -/
theorem roundHalfEven_eq {a b n : Nat} (hb : 0 < b) (hlow : 2 * n * b ≤ 2 * a + b)
    (hhigh : 2 * a ≤ 2 * n * b + b)
    (hodd : n % 2 = 1 → 2 * n * b < 2 * a + b ∧ 2 * a < 2 * n * b + b) :
    roundHalfEven a b = n := by
  have hdiv := Nat.div_add_mod a b
  have hmod := Nat.mod_lt a hb
  unfold roundHalfEven
  dsimp only
  generalize a / b = q at *
  generalize a % b = r at *
  subst hdiv
  have hle : q ≤ n := by
    by_contra hlt
    have := Nat.mul_le_mul_right b (show n + 1 ≤ q by omega)
    rw [Nat.mul_comm q b, Nat.add_mul] at this
    rw [Nat.mul_assoc] at hhigh
    omega
  have hge : n ≤ q + 1 := by
    by_contra hlt
    have := Nat.mul_le_mul_right b (show q + 2 ≤ n by omega)
    rw [Nat.add_mul, Nat.mul_comm q b] at this
    rw [Nat.mul_assoc] at hlow
    omega
  obtain rfl | rfl : n = q ∨ n = q + 1 := by omega
  · rw [if_pos]
    rw [Nat.mul_assoc, Nat.mul_comm n b] at *
    omega
  · rw [if_neg]
    rw [Nat.mul_assoc, Nat.add_mul, Nat.mul_comm q b] at *
    omega

theorem roundHalfEven_of_quotient {a b n : Nat} (hb : 0 < b) {q : ℚ} (hq : (a : ℚ) / b = q)
    (hlow : 2 * n - 1 ≤ 2 * q) (hhigh : 2 * q ≤ 2 * n + 1)
    (hodd : n % 2 = 1 → 2 * n - 1 < 2 * q ∧ 2 * q < 2 * n + 1) : roundHalfEven a b = n := by
  have hpos : (0 : ℚ) < b := by exact_mod_cast hb
  have ha : (a : ℚ) = q * b := by
    rw [← hq]
    field_simp
  have hlow' : (2 * n * b : ℚ) ≤ 2 * a + b := by
    have := mul_le_mul_of_nonneg_right hlow hpos.le
    rw [ha]
    linarith
  have hhigh' : (2 * a : ℚ) ≤ 2 * n * b + b := by
    have := mul_le_mul_of_nonneg_right hhigh hpos.le
    rw [ha]
    linarith
  have hodd' (h : n % 2 = 1) : (2 * n * b : ℚ) < 2 * a + b ∧ (2 * a : ℚ) < 2 * n * b + b := by
    obtain ⟨hlow, hhigh⟩ := hodd h
    have hlow := mul_lt_mul_of_pos_right hlow hpos
    have hhigh := mul_lt_mul_of_pos_right hhigh hpos
    rw [ha]
    constructor <;> linarith
  exact roundHalfEven_eq hb (by exact_mod_cast hlow') (by exact_mod_cast hhigh')
    (fun h => by exact_mod_cast hodd' h)

end Number

namespace Binary64

/-! ### Quotients -/

theorem scaleTwo_pos (num : Nat) {den : Nat} (h : 0 < den) (e : Int) : 0 < (scaleTwo num den e).2 := by
  unfold scaleTwo
  split_ifs
  · exact h
  · exact Nat.mul_pos h (Nat.pow_pos (by decide))

theorem scaleTwo_quotient (num den : Nat) (e : Int) :
    ((scaleTwo num den e).1 : ℚ) / (scaleTwo num den e).2 = num / den * 2 ^ e := by
  unfold scaleTwo
  split_ifs with h
  · obtain ⟨n, rfl⟩ := Int.eq_ofNat_of_zero_le h
    simp only [Nat.pow_eq, Nat.cast_mul, Nat.cast_pow, Nat.cast_ofNat, Int.toNat_natCast,
      zpow_natCast]
    ring
  · obtain ⟨n, hn⟩ := Int.eq_ofNat_of_zero_le (show 0 ≤ -e by omega)
    obtain rfl : e = -n := by omega
    simp only [Nat.pow_eq, Nat.cast_mul, Nat.cast_pow, Nat.cast_ofNat, neg_neg, Int.toNat_natCast,
      zpow_neg, zpow_natCast]
    rw [div_mul_eq_div_div]
    rfl

theorem log2_bounds {n : Nat} (h : n ≠ 0) :
    (2 : ℚ) ^ (n.log2 : Int) ≤ n ∧ (n : ℚ) < 2 ^ ((n.log2 : Int) + 1) := by
  have hlow := Nat.log2_self_le h
  have hhigh := Nat.lt_log2_self (n := n)
  constructor
  · rw [zpow_natCast]
    exact_mod_cast hlow
  · rw [← Nat.cast_succ, zpow_natCast]
    exact_mod_cast hhigh

/-- The quotient of two numbers lies between the powers of two around the difference of their
logarithms. -/
theorem quotient_bounds {num den : Nat} (hnum : num ≠ 0) (hden : den ≠ 0) :
    (2 : ℚ) ^ ((num.log2 : Int) - den.log2 - 1) < num / den ∧
      (num / den : ℚ) < 2 ^ ((num.log2 : Int) - den.log2 + 1) := by
  obtain ⟨hnlow, hnhigh⟩ := log2_bounds hnum
  obtain ⟨hdlow, hdhigh⟩ := log2_bounds hden
  have hpos : (0 : ℚ) < den := by positivity
  constructor
  · rw [lt_div_iff₀ hpos]
    calc (2 : ℚ) ^ ((num.log2 : Int) - den.log2 - 1) * den
        < 2 ^ ((num.log2 : Int) - den.log2 - 1) * 2 ^ ((den.log2 : Int) + 1) := by gcongr
      _ = 2 ^ (num.log2 : Int) := by
        rw [← zpow_add₀ (by norm_num)]
        congr 1
        omega
      _ ≤ num := hnlow
  · rw [div_lt_iff₀ hpos]
    calc (num : ℚ) < 2 ^ ((num.log2 : Int) + 1) := hnhigh
      _ = 2 ^ ((num.log2 : Int) - den.log2 + 1) * 2 ^ (den.log2 : Int) := by
        rw [← zpow_add₀ (by norm_num)]
        congr 1
        omega
      _ ≤ 2 ^ ((num.log2 : Int) - den.log2 + 1) * den := by gcongr

theorem floorLog2_eq {num den : Nat} (hnum : num ≠ 0) (hden : den ≠ 0) :
    floorLog2 num den = Int.log 2 (num / den : ℚ) := by
  obtain ⟨hlow, hhigh⟩ := quotient_bounds hnum hden
  have hq : (0 : ℚ) < num / den := by positivity
  generalize hguess : (num.log2 : Int) - den.log2 = guess at *
  have hb := scaleTwo_pos num (Nat.pos_of_ne_zero hden) (-guess)
  have hscale := scaleTwo_quotient num den (-guess)
  have hiff : (scaleTwo num den (-guess)).2 ≤ (scaleTwo num den (-guess)).1 ↔
      (2 : ℚ) ^ guess ≤ num / den := by
    have hcast : ((scaleTwo num den (-guess)).2 : ℚ) ≤ (scaleTwo num den (-guess)).1 ↔
        (1 : ℚ) ≤ num / den * 2 ^ (-guess) := by
      rw [← hscale, one_le_div (by exact_mod_cast hb)]
    rw [← Nat.cast_le (α := ℚ), hcast, zpow_neg, ← div_eq_mul_inv, one_le_div (by positivity)]
  have hupper : Int.log 2 (num / den : ℚ) < guess + 1 :=
    (Int.lt_zpow_iff_log_lt (by decide) hq).1 (by exact_mod_cast hhigh)
  have hlower : guess - 1 ≤ Int.log 2 (num / den : ℚ) :=
    (Int.zpow_le_iff_le_log (by decide) hq).1 (by exact_mod_cast hlow.le)
  have hlog : (2 : ℚ) ^ guess ≤ num / den ↔ guess ≤ Int.log 2 (num / den : ℚ) := by
    simpa using Int.zpow_le_iff_le_log (b := 2) (by decide) (x := guess) hq
  unfold floorLog2
  rw [hguess]
  dsimp only
  split_ifs with h
  · have := hlog.1 (hiff.1 h)
    omega
  · have := mt hlog.2 (mt hiff.2 h)
    omega

/-! ### Parts of numbers -/

/-- A number is made of its sign and the bits below. -/
theorem ofMagnitude_magnitude (x : Binary64) : ofMagnitude x.negative x.magnitude = x := by
  have hlt := x.bits.toNat_lt
  have hbits : x.magnitude + (if x.negative then signBit else 0) = x.bits.toNat := by
    unfold magnitude negative signBit
    by_cases h : 0x8000000000000000 ≤ x.bits.toNat
    · simp only [h, decide_true, if_true]
      omega
    · simp only [h, decide_false, Bool.false_eq_true, if_false]
      omega
  rw [ofMagnitude, hbits, UInt64.ofNat_toNat]

theorem significand_lt (x : Binary64) : x.significand < 2 * hiddenBit := by
  have := Nat.mod_lt x.magnitude (show hiddenBit > 0 by decide)
  unfold significand
  split_ifs <;> omega

theorem le_exponent (x : Binary64) : -1074 ≤ x.exponent := by
  unfold exponent
  split_ifs with h
  · omega
  · have := Nat.div_pos (Nat.le_of_not_lt h) (show 0 < hiddenBit by decide)
    omega

/-- Above the least exponent the leading bit is set. -/
theorem hiddenBit_le_significand {x : Binary64} (h : -1074 < x.exponent) :
    hiddenBit ≤ x.significand := by
  unfold exponent at h
  unfold significand
  split_ifs at h ⊢ with hlt
  · omega
  · omega

/-- The significand runs on into the exponent. -/
theorem magnitude_eq (x : Binary64) :
    x.magnitude = (x.exponent + 1074).toNat * hiddenBit + x.significand := by
  unfold exponent significand
  split_ifs with h
  · simp
  · have hpos := Nat.div_pos (Nat.le_of_not_lt h) (show 0 < hiddenBit by decide)
    have hdiv := Nat.div_add_mod x.magnitude hiddenBit
    have hnat : ((x.magnitude / hiddenBit : Nat) - 1075 + 1074 : Int).toNat =
        x.magnitude / hiddenBit - 1 := by omega
    rw [hnat, Nat.sub_mul, Nat.one_mul]
    have := Nat.mul_le_mul_right hiddenBit hpos
    rw [Nat.mul_comm] at hdiv
    omega

/-! ### Neighbourhoods -/

/-- Whether a quotient lies in the neighbourhood of a number. -/
def Near (x : Binary64) (q : ℚ) : Prop :=
  let n := Number.neighbourhood x
  let unit : ℚ := 2 ^ (x.exponent - 2)
  n.low * unit ≤ q ∧ q ≤ n.high * unit ∧ (n.closed = false → n.low * unit < q ∧ q < n.high * unit)

/-- The neighbourhood in units of the significand. -/
theorem near_iff {x : Binary64} {q : ℚ} :
    x.Near q ↔
      (Number.neighbourhood x).low ≤ 4 * (q * 2 ^ (-x.exponent)) ∧
      4 * (q * 2 ^ (-x.exponent)) ≤ 4 * x.significand + 2 ∧
      (x.significand % 2 = 1 → (Number.neighbourhood x).low < 4 * (q * 2 ^ (-x.exponent)) ∧
        4 * (q * 2 ^ (-x.exponent)) < 4 * x.significand + 2) := by
  have hunit : (2 : ℚ) ^ (x.exponent - 2) = 2 ^ x.exponent / 4 := by
    rw [zpow_sub₀ (by norm_num)]
    norm_num
  have hpos : (0 : ℚ) < 2 ^ x.exponent := by positivity
  have hq : q = q * 2 ^ (-x.exponent) * 2 ^ x.exponent := by
    rw [mul_assoc, ← zpow_add₀ (by norm_num), neg_add_cancel, zpow_zero, mul_one]
  have hclosed : (Number.neighbourhood x).closed = false ↔ x.significand % 2 = 1 := by
    simp [Number.neighbourhood]
  have hhigh : ((Number.neighbourhood x).high : ℚ) = 4 * x.significand + 2 := by
    simp [Number.neighbourhood]
  unfold Near
  dsimp only
  rw [hunit, hclosed, hhigh]
  generalize q * 2 ^ (-x.exponent) = r at *
  rw [hq]
  generalize ((Number.neighbourhood x).low : ℚ) = l
  generalize (x.significand : ℚ) = s
  generalize (2 : ℚ) ^ x.exponent = p at *
  have hle {a b : ℚ} : a * (p / 4) ≤ b * p ↔ a ≤ 4 * b := by
    rw [mul_div_assoc', div_le_iff₀ (by norm_num), show b * p * 4 = 4 * b * p by ring,
      mul_le_mul_iff_left₀ hpos]
  have hge {a b : ℚ} : b * p ≤ a * (p / 4) ↔ 4 * b ≤ a := by
    rw [mul_div_assoc', le_div_iff₀ (by norm_num), show b * p * 4 = 4 * b * p by ring,
      mul_le_mul_iff_left₀ hpos]
  rw [← not_le (a := r * p), ← not_le (b := r * p), hle, hge, hle, hge, not_le, not_le]

theorem le_low (x : Binary64) :
    (4 * x.significand - 2 : ℚ) ≤ (Number.neighbourhood x).low := by
  have h : 4 * x.significand - 2 ≤ (Number.neighbourhood x).low := by
    unfold Number.neighbourhood
    dsimp only
    split_ifs <;> omega
  have hcast : (4 * x.significand : ℚ) ≤ ((4 * x.significand - 2 : Nat) : ℚ) + 2 := by
    exact_mod_cast (show 4 * x.significand ≤ 4 * x.significand - 2 + 2 by omega)
  have : ((4 * x.significand - 2 : Nat) : ℚ) ≤ (Number.neighbourhood x).low := by exact_mod_cast h
  linarith

theorem hiddenBit_eq : (hiddenBit : ℚ) = 2 ^ (52 : Int) := by norm_num [hiddenBit]

/-- A scaled quotient is compared with a power of two by its logarithm. -/
theorem two_zpow_le_scaled {q : ℚ} (hq : 0 < q) (k e : Int) :
    (2 : ℚ) ^ k ≤ q * 2 ^ (-e) ↔ k + e ≤ Int.log 2 q := by
  rw [zpow_neg, ← div_eq_mul_inv, le_div_iff₀ (by positivity), ← zpow_add₀ (by norm_num)]
  simpa using Int.zpow_le_iff_le_log (b := 2) (by decide) (x := k + e) hq

/-- What is near a number has no bit above the leading bit of numbers. -/
theorem Near.log_lt {x : Binary64} {q : ℚ} (hq : 0 < q) (h : x.Near q) :
    Int.log 2 q < 53 + x.exponent := by
  have hhigh := (near_iff.1 h).2.1
  have hlt : (x.significand : ℚ) + 1 ≤ 2 * hiddenBit := by exact_mod_cast significand_lt x
  have h53 : (2 : ℚ) ^ (53 : Int) = 2 * 2 ^ (52 : Int) := by norm_num
  rw [← not_le, ← two_zpow_le_scaled hq, not_le, h53, ← hiddenBit_eq]
  linarith

/-- Where the leading bit of what is near a number is below that of the number, the number is a power
of two, and only that one bit is missing. -/
theorem Near.of_log_lt {x : Binary64} {q : ℚ} (hq : 0 < q) (h : x.Near q)
    (hlog : Int.log 2 q < 52 + x.exponent) (hmin : -1074 < x.exponent) :
    x.significand = hiddenBit ∧ (4 * hiddenBit - 1 : ℚ) ≤ 4 * (q * 2 ^ (-x.exponent)) ∧
      q * 2 ^ (-x.exponent) < hiddenBit ∧ 51 + x.exponent ≤ Int.log 2 q := by
  have hlow := (near_iff.1 h).1
  have hlow' := le_low x
  have hbelow : q * 2 ^ (-x.exponent) < hiddenBit := by
    rwa [hiddenBit_eq, ← not_le, two_zpow_le_scaled hq, not_le]
  have hge : hiddenBit ≤ x.significand := hiddenBit_le_significand hmin
  have hs : x.significand = hiddenBit := by
    by_contra hne
    have : (hiddenBit : ℚ) + 1 ≤ x.significand := by
      exact_mod_cast (show hiddenBit + 1 ≤ x.significand by omega)
    linarith
  have hquarter : (4 * hiddenBit - 1 : ℚ) ≤ 4 * (q * 2 ^ (-x.exponent)) := by
    have hlow'' : (Number.neighbourhood x).low = 4 * hiddenBit - 1 := by
      simp only [Number.neighbourhood, hs]
      rw [if_pos ⟨trivial, by omega⟩]
    rw [hlow''] at hlow
    exact_mod_cast hlow
  refine ⟨hs, hquarter, hbelow, ?_⟩
  have h51 : (2 : ℚ) ^ (51 : Int) = 2 ^ (52 : Int) / 2 := by norm_num
  have hone : (1 : ℚ) ≤ hiddenBit := by norm_num [hiddenBit]
  rw [← two_zpow_le_scaled hq, h51, ← hiddenBit_eq]
  linarith

/-- A quotient near a number is rounded to its significand at its exponent. Where the leading bit of
the quotient is below that of the number, the number is a power of two, and the quotient is rounded
up to it. -/
theorem round_of_near {x : Binary64} {num den : Nat} (hnum : num ≠ 0) (hden : den ≠ 0)
    (h : x.Near (num / den)) {e : Int} (he : e = max (floorLog2 num den - 52) (-1074)) :
    let r := Number.roundHalfEven (scaleTwo num den (-e)).1 (scaleTwo num den (-e)).2
    (e = x.exponent ∧ r = x.significand) ∨
      (e = x.exponent - 1 ∧ -1074 ≤ e ∧ x.significand = hiddenBit ∧ r = 2 * hiddenBit) := by
  have hq : (0 : ℚ) < num / den := by positivity
  have hb := scaleTwo_pos num (Nat.pos_of_ne_zero hden) (-e)
  have hscale := scaleTwo_quotient num den (-e)
  have hmin := le_exponent x
  have hupper := h.log_lt hq
  rw [floorLog2_eq hnum hden] at he
  generalize (num / den : ℚ) = q at *
  by_cases hcase : 52 + x.exponent ≤ Int.log 2 q ∨ x.exponent = -1074
  · obtain rfl : e = x.exponent := by omega
    obtain ⟨hlow, hhigh, hodd⟩ := near_iff.1 h
    have hlow' := le_low x
    refine .inl ⟨rfl, Number.roundHalfEven_of_quotient hb hscale (by linarith) (by linarith) ?_⟩
    intro hs
    obtain ⟨hlow, hhigh⟩ := hodd hs
    constructor <;> linarith
  · obtain ⟨hs, hquarter, hbelow, hlower⟩ := h.of_log_lt hq (by omega) (by omega)
    obtain rfl : e = x.exponent - 1 := by omega
    have hdouble : q * 2 ^ (-(x.exponent - 1)) = 2 * (q * 2 ^ (-x.exponent)) := by
      rw [neg_sub, sub_eq_add_neg, zpow_add₀ (by norm_num)]
      ring
    refine .inr ⟨rfl, by omega, hs, ?_⟩
    refine Number.roundHalfEven_of_quotient hb (hscale.trans hdouble) ?_ ?_ (by simp)
    · push_cast
      linarith
    · push_cast
      linarith

/-- **A quotient near a finite number is rounded to the number.** -/
theorem ofRatio_of_near {x : Binary64} (hx : x.isFinite = true) {num den : Nat} (hnum : num ≠ 0)
    (hden : den ≠ 0) (h : x.Near (num / den)) : ofRatio x.negative num den = x := by
  have hround := round_of_near hnum hden h rfl
  have hmag := magnitude_eq x
  have hmin := le_exponent x
  have hfinite : x.magnitude < infinityBits := by simpa [isFinite] using hx
  rw [ofRatio, if_neg hnum]
  dsimp only at hround ⊢
  generalize max (floorLog2 num den - 52) (-1074) = e at *
  generalize Number.roundHalfEven _ _ = r at *
  have hbits : (e + 1074).toNat * hiddenBit + r = x.magnitude := by
    rcases hround with ⟨rfl, rfl⟩ | ⟨rfl, hle, hs, rfl⟩
    · exact hmag.symm
    · have hcarry : (x.exponent + 1074).toNat = (x.exponent - 1 + 1074).toNat + 1 := by omega
      rw [hmag, hs, hcarry]
      ring
  rw [hbits, min_eq_left hfinite.le, ofMagnitude_magnitude]

/-! ### Decimals -/

theorem exponent_le {x : Binary64} (hx : x.isFinite = true) : x.exponent ≤ 971 := by
  have hlt : x.magnitude < infinityBits := by simpa [isFinite] using hx
  unfold infinityBits at hlt
  unfold exponent hiddenBit
  split_ifs <;> omega

/-- What is near a finite number is less than any infinite number. -/
theorem Near.lt {x : Binary64} (hx : x.isFinite = true) {q : ℚ} (h : x.Near q) :
    q < 2 ^ 1024 := by
  have hlt : (x.significand : ℚ) + 1 ≤ 2 * hiddenBit := by exact_mod_cast significand_lt x
  have hhigh := (near_iff.1 h).2.1
  have h53 : (2 * hiddenBit : ℚ) = 2 ^ (53 : Int) := by norm_num [hiddenBit]
  have hunits : q * 2 ^ (-x.exponent) < 2 ^ (53 : Int) := by
    rw [← h53]
    linarith
  rw [zpow_neg, ← div_eq_mul_inv, div_lt_iff₀ (by positivity), ← zpow_add₀ (by norm_num)] at hunits
  rw [← zpow_natCast]
  refine hunits.trans_le (zpow_le_zpow_right₀ (by norm_num) ?_)
  have := exponent_le hx
  omega

/-- What is near a number other than zero is not less than half the least number. -/
theorem Near.le {x : Binary64} (hx : x.significand ≠ 0) {q : ℚ} (h : x.Near q) :
    (2 ^ 1075)⁻¹ ≤ q := by
  have hone : (1 : ℚ) ≤ x.significand := by
    exact_mod_cast Nat.one_le_iff_ne_zero.2 hx
  have hlow := (near_iff.1 h).1
  have hlow' := le_low x
  have hunits : (2 : ℚ) ^ (-1 : Int) ≤ q * 2 ^ (-x.exponent) := by
    rw [zpow_neg_one]
    linarith
  rw [zpow_neg _ x.exponent, ← div_eq_mul_inv, le_div_iff₀ (by positivity),
    ← zpow_add₀ (by norm_num)] at hunits
  rw [← zpow_natCast, ← zpow_neg]
  refine le_trans (zpow_le_zpow_right₀ (by norm_num) ?_) hunits
  have := le_exponent x
  omega

/-- A decimal near a finite number is below the bound from which decimals are read as infinite. -/
theorem Near.exponent_le {x : Binary64} (hx : x.isFinite = true) {m : Nat} (hm : m ≠ 0) {e : Int}
    (h : x.Near (m * 10 ^ e)) : e ≤ 400 := by
  by_contra he
  have hone : (1 : ℚ) ≤ m := by exact_mod_cast Nat.one_le_iff_ne_zero.2 hm
  have hpow : (10 : ℚ) ^ 400 ≤ 10 ^ e := by
    rw [← zpow_natCast]
    exact zpow_le_zpow_right₀ (by norm_num) (not_le.1 he).le
  have hconst : (2 : ℚ) ^ 1024 ≤ 10 ^ 400 := by
    exact_mod_cast (show 2 ^ 1024 ≤ 10 ^ 400 by decide +kernel)
  have hle : (10 : ℚ) ^ e ≤ m * 10 ^ e := le_mul_of_one_le_left (by positivity) hone
  exact absurd (h.lt hx) (not_lt.2 ((hconst.trans hpow).trans hle))

theorem two_zpow_mul_ten_zpow_le (n : Nat) :
    (2 : ℚ) ^ ((n : Int) + 1) * 10 ^ (-401 - (n : Int)) ≤ 2 * (10 ^ 401)⁻¹ := by
  have hone : (2 / 10 : ℚ) ^ n ≤ 1 := pow_le_one₀ (by norm_num) (by norm_num)
  have hneg : (-401 - (n : Int)) = -((401 + n : Nat) : Int) := by omega
  rw [zpow_add_one₀ (by norm_num), hneg, zpow_neg, zpow_natCast, zpow_natCast, pow_add, mul_inv]
  rw [div_pow] at hone
  calc (2 : ℚ) ^ n * 2 * ((10 ^ 401)⁻¹ * (10 ^ n)⁻¹)
      = 2 ^ n / 10 ^ n * (2 * (10 ^ 401)⁻¹) := by
        generalize ((10 : ℚ) ^ 401)⁻¹ = c
        field_simp
    _ ≤ 1 * (2 * (10 ^ 401)⁻¹) := by gcongr
    _ = 2 * (10 ^ 401)⁻¹ := one_mul _

/-- A decimal near a number other than zero is above the bound up to which decimals are read as
zero. -/
theorem Near.le_exponent {x : Binary64} (hzero : x.significand ≠ 0) {m : Nat} (hm : m ≠ 0) {e : Int}
    (h : x.Near (m * 10 ^ e)) : -400 ≤ e + m.log2 := by
  by_contra he
  have hpow : (10 : ℚ) ^ e ≤ 10 ^ (-401 - (m.log2 : Int)) :=
    zpow_le_zpow_right₀ (by norm_num) (by omega)
  have hlog := (log2_bounds hm).2
  have hconst : (2 : ℚ) * (10 ^ 401)⁻¹ ≤ (2 ^ 1075)⁻¹ := by
    have hnat : 2 * 2 ^ 1075 ≤ 10 ^ 401 := by decide +kernel
    have hcast : (2 : ℚ) * 2 ^ 1075 ≤ 10 ^ 401 := by exact_mod_cast hnat
    rwa [← div_eq_mul_inv, div_le_iff₀ (by positivity), ← div_eq_inv_mul,
      le_div_iff₀ (by positivity)]
  have hlt : (m : ℚ) * 10 ^ e < 2 ^ ((m.log2 : Int) + 1) * 10 ^ (-401 - (m.log2 : Int)) := by
    calc (m : ℚ) * 10 ^ e < 2 ^ ((m.log2 : Int) + 1) * 10 ^ e := by gcongr
      _ ≤ 2 ^ ((m.log2 : Int) + 1) * 10 ^ (-401 - (m.log2 : Int)) := by gcongr
  exact absurd (h.le hzero)
    (not_le.2 (hlt.trans_le ((two_zpow_mul_ten_zpow_le m.log2).trans hconst)))

/-- **A decimal near a finite number other than zero is read as the number.** -/
theorem ofDecimal_of_near {x : Binary64} (hx : x.isFinite = true) (hzero : x.significand ≠ 0)
    {m : Nat} (hm : m ≠ 0) {e : Int} (h : x.Near (m * 10 ^ e)) :
    ofDecimal x.negative m e = x := by
  rw [ofDecimal, if_neg hm, if_neg (not_lt.2 (h.exponent_le hx hm)),
    if_neg (not_lt.2 (h.le_exponent hzero hm))]
  split_ifs with he
  · obtain ⟨n, rfl⟩ := Int.eq_ofNat_of_zero_le he
    refine ofRatio_of_near hx ?_ one_ne_zero ?_
    · exact Nat.mul_ne_zero hm (Nat.pow_pos (by decide)).ne'
    · rw [zpow_natCast] at h
      simpa using h
  · obtain ⟨n, hn⟩ := Int.eq_ofNat_of_zero_le (show 0 ≤ -e by omega)
    obtain rfl : e = -n := by omega
    refine ofRatio_of_near hx hm (Nat.pow_pos (by decide)).ne' ?_
    rw [zpow_neg, zpow_natCast, ← div_eq_mul_inv] at h
    simpa using h

end Binary64

end Criteria

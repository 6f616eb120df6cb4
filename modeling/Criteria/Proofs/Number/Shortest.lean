import Criteria.Proofs.Number.Nearest
import Mathlib.Data.Nat.Cast.Order.Field

/-!
# The shortest decimal is near

The decimal that `Number.shortest` finds for a number lies in the neighbourhood of the number
(`near_shortest`), so it is read as the number. The grid is fine enough after seventeen steps at the
latest: then it has a multiple between any two halves of gaps.
-/

namespace Criteria

namespace Number

open Binary64

/-- The number that a decimal stands for. -/
def Decimal.value (d : Decimal) : ℚ := d.digits * 10 ^ d.exponent

/-! ### Powers of ten -/

theorem overTen_pos (num : Nat) {den : Nat} (h : 0 < den) (k : Int) :
    0 < (overTen num den k).2 := by
  unfold overTen
  split_ifs
  · exact Nat.mul_pos h (Nat.pow_pos (by decide))
  · exact h

theorem overTen_quotient (num den : Nat) (k : Int) :
    ((overTen num den k).1 : ℚ) / (overTen num den k).2 = num / den / 10 ^ k := by
  unfold overTen
  split_ifs with h
  · obtain ⟨n, rfl⟩ := Int.eq_ofNat_of_zero_le h
    simp only [Nat.pow_eq, Nat.cast_mul, Nat.cast_pow, Nat.cast_ofNat, Int.toNat_natCast,
      zpow_natCast, div_mul_eq_div_div]
  · obtain ⟨n, hn⟩ := Int.eq_ofNat_of_zero_le (show 0 ≤ -k by omega)
    obtain rfl : k = -n := by omega
    simp only [Nat.pow_eq, Nat.cast_mul, Nat.cast_pow, Nat.cast_ofNat, neg_neg, Int.toNat_natCast,
      zpow_neg, zpow_natCast, div_inv_eq_mul]
    ring

/-- Comparing a quotient with a power of ten. -/
theorem overTen_le_iff (num : Nat) {den : Nat} (h : 0 < den) (k : Int) :
    (overTen num den k).2 ≤ (overTen num den k).1 ↔ (10 : ℚ) ^ k ≤ num / den := by
  have hpos : (0 : ℚ) < (overTen num den k).2 := by exact_mod_cast overTen_pos num h k
  rw [← Nat.cast_le (α := ℚ), ← one_le_div hpos, overTen_quotient, one_le_div (by positivity)]

theorem ten_zpow_le_two_pow {p q : Nat} (hq : q ≠ 0) (hpq : 10 ^ p ≤ 2 ^ q) {k : Int} {n : Nat}
    (h : k * q ≤ p * n) : (10 : ℚ) ^ k ≤ 2 ^ n := by
  have hcast : (10 : ℚ) ^ p ≤ 2 ^ q := by exact_mod_cast hpq
  refine (pow_le_pow_iff_left₀ (by positivity) (by positivity) hq).1 ?_
  calc ((10 : ℚ) ^ k) ^ q = 10 ^ (k * q) := by rw [zpow_mul, zpow_natCast]
    _ ≤ 10 ^ ((p * n : Nat) : Int) := zpow_le_zpow_right₀ (by norm_num) (by exact_mod_cast h)
    _ = (10 ^ p) ^ n := by rw [zpow_natCast, pow_mul]
    _ ≤ (2 ^ q) ^ n := by gcongr
    _ = (2 ^ n) ^ q := by rw [← pow_mul, ← pow_mul, Nat.mul_comm]

theorem ten_zpow_le_two_pow_inv {p q : Nat} (hq : q ≠ 0) (hpq : 2 ^ q ≤ 10 ^ p) {k : Int} {n : Nat}
    (h : k * q ≤ -(p * n)) : (10 : ℚ) ^ k ≤ (2 ^ n)⁻¹ := by
  have hcast : (2 : ℚ) ^ q ≤ 10 ^ p := by exact_mod_cast hpq
  refine (pow_le_pow_iff_left₀ (by positivity) (by positivity) hq).1 ?_
  calc ((10 : ℚ) ^ k) ^ q = 10 ^ (k * q) := by rw [zpow_mul, zpow_natCast]
    _ ≤ 10 ^ (-((p * n : Nat) : Int)) := zpow_le_zpow_right₀ (by norm_num) (by exact_mod_cast h)
    _ = ((10 ^ p) ^ n)⁻¹ := by rw [zpow_neg, zpow_natCast, pow_mul]
    _ ≤ ((2 ^ q) ^ n)⁻¹ := by gcongr
    _ = (2 ^ n)⁻¹ ^ q := by rw [inv_pow, ← pow_mul, ← pow_mul, Nat.mul_comm]

/-- The guess of a power of ten from a power of two is not too high by more than one. -/
theorem ten_zpow_le_two_zpow {l guess : Int} (hl : -4096 ≤ l) (h : guess * 4096 ≤ l * 1233) :
    (10 : ℚ) ^ (guess - 1) ≤ 2 ^ l := by
  rcases Int.le_total 0 l with hpos | hneg
  · obtain ⟨n, rfl⟩ := Int.eq_ofNat_of_zero_le hpos
    have hconst : 10 ^ 1233 ≤ 2 ^ 4096 := by decide +kernel
    rw [zpow_natCast]
    refine ten_zpow_le_two_pow (by decide) hconst ?_
    push_cast
    omega
  · obtain ⟨n, hn⟩ := Int.eq_ofNat_of_zero_le (show 0 ≤ -l by omega)
    obtain rfl : l = -n := by omega
    have hconst : 2 ^ 4096 ≤ 10 ^ 1234 := by decide +kernel
    rw [zpow_neg, zpow_natCast]
    refine ten_zpow_le_two_pow_inv (by decide) hconst ?_
    push_cast
    omega

/-- The grid on which the search starts is not too coarse. -/
theorem ten_zpow_floorLog10_le {num den : Nat} (hnum : num ≠ 0) (hden : den ≠ 0)
    (hlog : den.log2 ≤ 4096) : (10 : ℚ) ^ floorLog10 num den ≤ 2 * (num / den) := by
  have hpos := Nat.pos_of_ne_zero hden
  have hself : (num / den : ℚ) ≤ 2 * (num / den) := by
    have : (0 : ℚ) ≤ num / den := by positivity
    linarith
  unfold floorLog10
  dsimp only
  simp only [overTen_le_iff num hpos, decide_eq_true_eq]
  split_ifs with hfirst hsecond
  · exact hfirst.trans hself
  · exact hsecond.trans hself
  · refine (ten_zpow_le_two_zpow (l := (num.log2 : Int) - den.log2) (by omega) (by omega)).trans ?_
    have hlow := (quotient_bounds hnum hden).1
    rw [zpow_sub_one₀ (by norm_num)] at hlow
    linarith

/-! ### Grids -/

section Grid

variable {x : Binary64} {tieUp : Bool} {unit : Nat × Nat}

/-- The test of `onGrid?`: whether `g` steps of `v / u` units lie in a neighbourhood. -/
def inside (n : Neighbourhood) (u v g : Nat) : Bool :=
  if n.closed then n.low * u ≤ g * v && g * v ≤ n.high * u
  else n.low * u < g * v && g * v < n.high * u

/-- What a grid gives: one of the two neighbours of the number on it that lies inside, if any. -/
theorem onGrid?_cases (x : Binary64) (tieUp : Bool) (unit : Nat × Nat) (k : Int) :
    let u := (overTen unit.1 unit.2 k).1
    let v := (overTen unit.1 unit.2 k).2
    let below := 4 * x.significand * u / v
    (onGrid? x tieUp unit k = none ∧ inside (neighbourhood x) u v below = false ∧
      inside (neighbourhood x) u v (below + 1) = false) ∨
    ∃ g, onGrid? x tieUp unit k = some g ∧ inside (neighbourhood x) u v g = true := by
  have hfold (n : Neighbourhood) (u v g : Nat) :
      (if n.closed then n.low * u ≤ g * v && g * v ≤ n.high * u
        else n.low * u < g * v && g * v < n.high * u : Bool) = inside n u v g := rfl
  unfold onGrid?
  dsimp only
  simp only [hfold]
  generalize overTen unit.1 unit.2 k = uv
  generalize 4 * x.significand * uv.1 / uv.2 = below
  cases hbelow : inside (neighbourhood x) uv.1 uv.2 below <;>
    cases habove : inside (neighbourhood x) uv.1 uv.2 (below + 1)
  · exact .inl ⟨rfl, rfl, rfl⟩
  · exact .inr ⟨_, rfl, habove⟩
  · exact .inr ⟨_, rfl, hbelow⟩
  · right
    dsimp only
    split_ifs
    · exact ⟨_, rfl, hbelow⟩
    · exact ⟨_, rfl, habove⟩
    · exact ⟨_, rfl, habove⟩
    · exact ⟨_, rfl, hbelow⟩

/-- The unit of the search as a power of two. -/
theorem unit_quotient (x : Binary64) :
    ((scaleTwo 1 1 (x.exponent - 2)).1 : ℚ) / (scaleTwo 1 1 (x.exponent - 2)).2 =
      2 ^ (x.exponent - 2) := by
  rw [scaleTwo_quotient]
  norm_num

/-- The test of a grid is whether the multiple lies in the neighbourhood. -/
theorem inside_iff {u v g : Nat} (hv : 0 < v) {step : ℚ} (hstep : 0 < step)
    (huv : (u : ℚ) / v = 2 ^ (x.exponent - 2) / step) :
    inside (neighbourhood x) u v g = true ↔ x.Near (g * step) := by
  have hpos : (0 : ℚ) < v := by exact_mod_cast hv
  have hle (a b : ℚ) : a * u ≤ b * v ↔ a * 2 ^ (x.exponent - 2) ≤ b * step := by
    rw [← div_le_iff₀ hpos, mul_div_assoc, huv, ← mul_div_assoc, div_le_iff₀ hstep]
  have hge (a b : ℚ) : b * v ≤ a * u ↔ b * step ≤ a * 2 ^ (x.exponent - 2) := by
    rw [← le_div_iff₀ hpos, mul_div_assoc, huv, ← mul_div_assoc, le_div_iff₀ hstep]
  have hle' (a b : Nat) : a * u ≤ b * v ↔ (a : ℚ) * 2 ^ (x.exponent - 2) ≤ b * step := by
    rw [← hle]
    exact_mod_cast Iff.rfl
  have hge' (a b : Nat) : b * v ≤ a * u ↔ (b : ℚ) * step ≤ a * 2 ^ (x.exponent - 2) := by
    rw [← hge]
    exact_mod_cast Iff.rfl
  unfold inside Near
  dsimp only
  cases hclosed : (neighbourhood x).closed
  · simp only [Bool.false_eq_true, if_false, Bool.and_eq_true, decide_eq_true_eq, forall_const]
    rw [← not_le, ← not_le, hge', hle', not_le, not_le]
    exact ⟨fun ⟨hlow, hhigh⟩ => ⟨hlow.le, hhigh.le, hlow, hhigh⟩, fun h => h.2.2⟩
  · simp only [if_true, Bool.and_eq_true, decide_eq_true_eq, Bool.true_eq_false, false_implies,
      and_true]
    rw [hle', hge']

/-- What a grid gives is near. -/
theorem near_of_onGrid? {k : Int} {g : Nat}
    (h : onGrid? x tieUp (scaleTwo 1 1 (x.exponent - 2)) k = some g) : x.Near (g * 10 ^ k) := by
  have hden := scaleTwo_pos 1 Nat.one_pos (x.exponent - 2)
  have hquotient := overTen_quotient (scaleTwo 1 1 (x.exponent - 2)).1
    (scaleTwo 1 1 (x.exponent - 2)).2 k
  rw [unit_quotient] at hquotient
  rcases onGrid?_cases x tieUp (scaleTwo 1 1 (x.exponent - 2)) k with ⟨hnone, -⟩ | ⟨g', hg, hinside⟩
  · rw [hnone] at h
    cases h
  · obtain rfl : g' = g := Option.some.inj (hg.symm.trans h)
    exact (inside_iff (overTen_pos _ hden k) (by positivity) hquotient).1 hinside

theorem near_of_lt {q : ℚ} (hlow : (neighbourhood x).low * 2 ^ (x.exponent - 2) < q)
    (hhigh : q < (neighbourhood x).high * 2 ^ (x.exponent - 2)) : x.Near q :=
  ⟨hlow.le, hhigh.le, fun _ => ⟨hlow, hhigh⟩⟩

theorem low_lt (hx : x.significand ≠ 0) : (neighbourhood x).low + 1 ≤ 4 * x.significand := by
  unfold neighbourhood
  dsimp only
  split_ifs <;> omega

/-- Of two neighbours of a number on a grid that is finer than its neighbourhood one is near. -/
theorem near_or_near (hx : x.significand ≠ 0) {step : ℚ} (hstep : 0 < step)
    (hfine : step < 3 * 2 ^ (x.exponent - 2)) {below : ℚ}
    (hbelow : below ≤ 4 * x.significand * 2 ^ (x.exponent - 2) / step)
    (habove : 4 * x.significand * 2 ^ (x.exponent - 2) / step < below + 1) :
    x.Near (below * step) ∨ x.Near ((below + 1) * step) := by
  rw [le_div_iff₀ hstep] at hbelow
  rw [div_lt_iff₀ hstep] at habove
  have hlow : ((neighbourhood x).low + 1 : ℚ) ≤ 4 * x.significand := by exact_mod_cast low_lt hx
  have hhigh : ((neighbourhood x).high : ℚ) = 4 * x.significand + 2 := by
    simp [neighbourhood]
  have hunit : (0 : ℚ) < 2 ^ (x.exponent - 2) := by positivity
  have hlow' := mul_le_mul_of_nonneg_right hlow hunit.le
  by_cases h : (neighbourhood x).low * 2 ^ (x.exponent - 2) < below * step
  · left
    refine near_of_lt h ?_
    rw [hhigh]
    linarith
  · right
    refine near_of_lt ?_ ?_
    · linarith
    · rw [hhigh]
      linarith

/-- A grid that is finer than the narrowest neighbourhood gives a decimal. -/
theorem isSome_onGrid? (hx : x.significand ≠ 0) {k : Int}
    (hk : (10 : ℚ) ^ k < 3 * 2 ^ (x.exponent - 2)) :
    (onGrid? x tieUp (scaleTwo 1 1 (x.exponent - 2)) k).isSome = true := by
  have hden := scaleTwo_pos 1 Nat.one_pos (x.exponent - 2)
  have hquotient := overTen_quotient (scaleTwo 1 1 (x.exponent - 2)).1
    (scaleTwo 1 1 (x.exponent - 2)).2 k
  rw [unit_quotient] at hquotient
  have hv := overTen_pos (scaleTwo 1 1 (x.exponent - 2)).1 hden k
  rcases onGrid?_cases x tieUp (scaleTwo 1 1 (x.exponent - 2)) k with
    ⟨-, hbelow, habove⟩ | ⟨g, hg, -⟩
  · have hten : (0 : ℚ) < 10 ^ k := by positivity
    rw [Bool.eq_false_iff, ne_eq, inside_iff hv hten hquotient] at hbelow habove
    generalize (overTen (scaleTwo 1 1 (x.exponent - 2)).1 _ k).1 = u at *
    generalize (overTen (scaleTwo 1 1 (x.exponent - 2)).1 _ k).2 = v at *
    have hvalue : ((4 * x.significand * u : Nat) : ℚ) / v =
        4 * x.significand * 2 ^ (x.exponent - 2) / 10 ^ k := by
      push_cast
      rw [mul_div_assoc, hquotient, mul_div_assoc]
    have hpos : (0 : ℚ) < v := by exact_mod_cast hv
    have hfloor : ((4 * x.significand * u / v : Nat) : ℚ) ≤ _ := Nat.cast_div_le
    have hceil : ((4 * x.significand * u : Nat) : ℚ) / v < (4 * x.significand * u / v : Nat) + 1 := by
      rw [div_lt_iff₀ hpos]
      exact_mod_cast (Nat.div_lt_iff_lt_mul hv).1 (Nat.lt_succ_self _)
    rw [hvalue] at hfloor hceil
    push_cast at habove
    rcases near_or_near hx hten hk hfloor hceil with h | h
    · exact absurd h hbelow
    · exact absurd h habove
  · rw [hg]
    rfl

/-- If the last of several grids gives a decimal, the first decimal that one of them gives is near
the number. -/
theorem near_firstGrid {n : Nat} {k : Int}
    (h : (onGrid? x tieUp (scaleTwo 1 1 (x.exponent - 2)) (k - n)).isSome = true) :
    x.Near (firstGrid x tieUp (scaleTwo 1 1 (x.exponent - 2)) (n + 1) k).value := by
  induction n generalizing k with
  | zero =>
    obtain ⟨g, hg⟩ := Option.isSome_iff_exists.1 h
    rw [Nat.cast_zero, sub_zero] at hg
    rw [firstGrid, hg]
    exact near_of_onGrid? hg
  | succ n ih =>
    rw [firstGrid]
    cases hg : onGrid? x tieUp (scaleTwo 1 1 (x.exponent - 2)) k with
    | some g => exact near_of_onGrid? hg
    | none =>
      refine ih ?_
      have hk : k - 1 - n = k - (n + 1 : Nat) := by
        push_cast
        omega
      rwa [hk]

end Grid

theorem log2_scaleTwo_le (e : Int) : (scaleTwo 1 1 e).2.log2 ≤ (-e).toNat := by
  unfold scaleTwo
  split_ifs
  · simp [Nat.log2_def]
  · rw [Nat.pow_eq, Nat.one_mul, Nat.log2_two_pow]

/-- **The shortest decimal of a finite number other than zero is near the number.** -/
theorem near_shortest {x : Binary64} (hzero : x.significand ≠ 0) (tieUp : Bool) :
    x.Near (shortest x tieUp).value := by
  refine near_firstGrid (isSome_onGrid? hzero ?_)
  have hden := scaleTwo_pos 1 Nat.one_pos (x.exponent - 2)
  have hunit := unit_quotient x
  have hlog : (scaleTwo 1 1 (x.exponent - 2)).2.log2 ≤ 4096 := by
    have := log2_scaleTwo_le (x.exponent - 2)
    have := le_exponent x
    omega
  generalize scaleTwo 1 1 (x.exponent - 2) = unit at *
  have hpos : (0 : ℚ) < 2 ^ (x.exponent - 2) := by positivity
  have hnum : 4 * x.significand * unit.1 ≠ 0 := by
    refine Nat.mul_ne_zero (Nat.mul_ne_zero (by decide) hzero) ?_
    intro h
    rw [h, Nat.cast_zero, zero_div] at hunit
    exact hpos.ne hunit
  have hstart := ten_zpow_floorLog10_le hnum hden.ne' hlog
  have hvalue : ((4 * x.significand * unit.1 : Nat) : ℚ) / unit.2 =
      4 * x.significand * 2 ^ (x.exponent - 2) := by
    rw [← hunit]
    push_cast
    ring
  have hlt : (x.significand : ℚ) < 2 ^ 53 := by
    exact_mod_cast significand_lt x
  rw [hvalue] at hstart
  have hseventeen : (10 : ℚ) ^ ((17 : Nat) : Int) = 10 ^ 17 := zpow_natCast _ _
  have hscaled := mul_lt_mul_of_pos_right hlt hpos
  rw [zpow_sub₀ (by norm_num), hseventeen, div_lt_iff₀ (by positivity)]
  linarith

/-- Near a number other than zero no decimal is zero. -/
theorem digits_ne_zero {x : Binary64} (hzero : x.significand ≠ 0) {d : Decimal}
    (h : x.Near d.value) : d.digits ≠ 0 := by
  intro hd
  have hle := h.le hzero
  rw [Decimal.value, hd, Nat.cast_zero, zero_mul] at hle
  exact absurd hle (not_le.2 (by positivity))

end Number

end Criteria

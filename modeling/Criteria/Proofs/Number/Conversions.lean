import Criteria.Proofs.Number.Nearest

/-!
# Integers as binary numbers

Rounding keeps the order of quotients (`roundedBits_mono`): the exponent grows with the quotient, and
where it stays the same the significand grows. So the conversion of integers keeps their order
(`key_ofInt_le`). Up to 2^53 it also keeps them apart (`key_ofInt_lt`), since these integers are
binary numbers themselves; beyond, it takes neighbours to one number.
-/

namespace Criteria

namespace Number

/-- A quotient lies within half a unit of what it is rounded to, and closer if that is odd. -/
theorem roundHalfEven_spec (a : Nat) {b : Nat} (hb : 0 < b) :
    2 * (roundHalfEven a b * b) ≤ 2 * a + b ∧ 2 * a ≤ 2 * (roundHalfEven a b * b) + b ∧
      (roundHalfEven a b % 2 = 1 →
        2 * (roundHalfEven a b * b) < 2 * a + b ∧ 2 * a < 2 * (roundHalfEven a b * b) + b) := by
  have hdiv := Nat.div_add_mod' a b
  have hmod := Nat.mod_lt a hb
  unfold roundHalfEven
  dsimp only
  generalize a / b = q at *
  generalize a % b = r at *
  split_ifs
  · generalize q * b = p at *
    omega
  · rw [Nat.add_mul, Nat.one_mul]
    generalize q * b = p at *
    omega

theorem roundHalfEven_bounds {a b : Nat} (hb : 0 < b) {q : ℚ} (hq : (a : ℚ) / b = q) :
    2 * (roundHalfEven a b : ℚ) - 1 ≤ 2 * q ∧ 2 * q ≤ 2 * (roundHalfEven a b : ℚ) + 1 ∧
      (roundHalfEven a b % 2 = 1 →
        2 * (roundHalfEven a b : ℚ) - 1 < 2 * q ∧ 2 * q < 2 * (roundHalfEven a b : ℚ) + 1) := by
  have hpos : (0 : ℚ) < b := by exact_mod_cast hb
  have ha : (a : ℚ) = q * b := by
    rw [← hq]
    field_simp
  obtain ⟨hlow, hhigh, hodd⟩ := roundHalfEven_spec a hb
  generalize roundHalfEven a b = n at *
  have hscale (s t : ℚ) : s * b ≤ t * b ↔ s ≤ t := mul_le_mul_iff_left₀ hpos
  have hscale' (s t : ℚ) : s * b < t * b ↔ s < t := mul_lt_mul_iff_left₀ hpos
  have hlow' : (2 * (n * b) : ℚ) ≤ 2 * a + b := by exact_mod_cast hlow
  have hhigh' : (2 * a : ℚ) ≤ 2 * (n * b) + b := by exact_mod_cast hhigh
  refine ⟨(hscale _ _).1 (by linarith), (hscale _ _).1 (by linarith), fun h => ?_⟩
  obtain ⟨hlow, hhigh⟩ := hodd h
  have hlow' : (2 * (n * b) : ℚ) < 2 * a + b := by exact_mod_cast hlow
  have hhigh' : (2 * a : ℚ) < 2 * (n * b) + b := by exact_mod_cast hhigh
  exact ⟨(hscale' _ _).1 (by linarith), (hscale' _ _).1 (by linarith)⟩

/-- Rounding keeps the order: two quotients between neighbours are both halves if they are rounded
the wrong way round, and then both to the even neighbour. -/
theorem roundHalfEven_mono {a b a' b' : Nat} (hb : 0 < b) (hb' : 0 < b')
    (h : (a : ℚ) / b ≤ a' / b') : roundHalfEven a b ≤ roundHalfEven a' b' := by
  obtain ⟨hlow, -, hodd⟩ := roundHalfEven_bounds hb (q := a / b) rfl
  obtain ⟨-, hhigh, hodd'⟩ := roundHalfEven_bounds hb' (q := a' / b') rfl
  generalize roundHalfEven a b = n at *
  generalize roundHalfEven a' b' = n' at *
  by_contra hlt
  have hnext : (n' : ℚ) + 1 ≤ n := by exact_mod_cast Nat.lt_of_not_le hlt
  have hle : (n : ℚ) ≤ n' + 1 := by linarith
  have heq : n = n' + 1 := by
    have : n ≤ n' + 1 := by exact_mod_cast hle
    omega
  rcases Nat.mod_two_eq_zero_or_one n with heven | hodd₁
  · have hhalf := (hodd' (by omega)).2
    linarith
  · have hhalf := (hodd hodd₁).1
    linarith

end Number

namespace Binary64

/-! ### The bits of a rounded quotient -/

/-- The exponent of the number to which a quotient is rounded. -/
def roundedExponent (num den : Nat) : Int := max (floorLog2 num den - 52) (-1074)

/-- The significand of the number to which a quotient is rounded, up to twice the leading bit. -/
def roundedSignificand (num den : Nat) : Nat :=
  let s := scaleTwo num den (-roundedExponent num den)
  Number.roundHalfEven s.1 s.2

/-- The bits of the number to which a quotient is rounded, if it is not too large. -/
def roundedBits (num den : Nat) : Nat :=
  (roundedExponent num den + 1074).toNat * hiddenBit + roundedSignificand num den

theorem ofRatio_eq (negative : Bool) {num : Nat} (hnum : num ≠ 0) (den : Nat) :
    ofRatio negative num den = ofMagnitude negative (min (roundedBits num den) infinityBits) := by
  rw [ofRatio, if_neg hnum]
  rfl

section

variable {num den : Nat} (hnum : num ≠ 0) (hden : den ≠ 0)

include hnum hden

/-- A quotient has at most 53 bits before the point at the exponent at which it is rounded, and just
as many above the least exponent. -/
theorem scaled_bounds :
    (num / den : ℚ) * 2 ^ (-roundedExponent num den) < 2 * hiddenBit ∧
      (-1074 < roundedExponent num den →
        (hiddenBit : ℚ) ≤ (num / den : ℚ) * 2 ^ (-roundedExponent num den)) := by
  have hq : (0 : ℚ) < num / den := by positivity
  have htwice : (2 * hiddenBit : ℚ) = 2 ^ (53 : Int) := by norm_num [hiddenBit]
  have he : roundedExponent num den = max (Int.log 2 (num / den : ℚ) - 52) (-1074) := by
    rw [roundedExponent, floorLog2_eq hnum hden]
  generalize roundedExponent num den = e at *
  generalize (num / den : ℚ) = q at *
  refine ⟨?_, fun hlt => ?_⟩
  · rw [htwice, ← not_le, two_zpow_le_scaled hq]
    omega
  · rw [hiddenBit_eq, two_zpow_le_scaled hq]
    omega

theorem roundedSignificand_bounds :
    roundedSignificand num den ≤ 2 * hiddenBit ∧
      (-1074 < roundedExponent num den → hiddenBit ≤ roundedSignificand num den) := by
  obtain ⟨hlt, hle⟩ := scaled_bounds hnum hden
  have hb := scaleTwo_pos num (Nat.pos_of_ne_zero hden) (-roundedExponent num den)
  obtain ⟨hlow, hhigh, -⟩ := Number.roundHalfEven_bounds hb (scaleTwo_quotient num den _)
  change 2 * (roundedSignificand num den : ℚ) - 1 ≤ _ at hlow
  change _ ≤ 2 * (roundedSignificand num den : ℚ) + 1 at hhigh
  generalize roundedSignificand num den = r at *
  refine ⟨?_, fun h => ?_⟩
  · have hcast : (2 * r : ℚ) < 4 * hiddenBit + 1 := by linarith
    have : 2 * r < 4 * hiddenBit + 1 := by exact_mod_cast hcast
    omega
  · have hcast : (2 * hiddenBit : ℚ) ≤ 2 * r + 1 := by linarith [hle h]
    have : 2 * hiddenBit ≤ 2 * r + 1 := by exact_mod_cast hcast
    omega

end

section

variable {num den num' den' : Nat} (hnum : num ≠ 0) (hden : den ≠ 0) (hnum' : num' ≠ 0)
  (hden' : den' ≠ 0)

include hnum hden hnum' hden'

theorem roundedExponent_mono (h : (num / den : ℚ) ≤ num' / den') :
    roundedExponent num den ≤ roundedExponent num' den' := by
  have hq : (0 : ℚ) < num / den := by positivity
  have hlog : Int.log 2 (num / den : ℚ) ≤ Int.log 2 (num' / den' : ℚ) := Int.log_mono_right hq h
  rw [roundedExponent, roundedExponent, floorLog2_eq hnum hden, floorLog2_eq hnum' hden']
  omega

omit hnum hden in
/-- The significand of a lower exponent stays below the leading bit of a higher one. -/
theorem roundedBits_le_of_lt (h : roundedExponent num den < roundedExponent num' den') :
    (roundedExponent num den + 1074).toNat * hiddenBit + 2 * hiddenBit ≤ roundedBits num' den' := by
  have hmin : -1074 ≤ roundedExponent num den := le_max_right _ _
  have hbit := (roundedSignificand_bounds hnum' hden').2 (by omega)
  have hmul : ((roundedExponent num den + 1074).toNat + 1) * hiddenBit ≤
      (roundedExponent num' den' + 1074).toNat * hiddenBit :=
    Nat.mul_le_mul_right _ (by omega)
  rw [Nat.add_mul, Nat.one_mul] at hmul
  rw [roundedBits]
  omega

/-- **Rounding keeps the order of quotients.** -/
theorem roundedBits_mono (h : (num / den : ℚ) ≤ num' / den') :
    roundedBits num den ≤ roundedBits num' den' := by
  rcases (roundedExponent_mono hnum hden hnum' hden' h).eq_or_lt with heq | hlt
  · have hsignificand : roundedSignificand num den ≤ roundedSignificand num' den' := by
      refine Number.roundHalfEven_mono (scaleTwo_pos num (Nat.pos_of_ne_zero hden) _)
        (scaleTwo_pos num' (Nat.pos_of_ne_zero hden') _) ?_
      rw [scaleTwo_quotient, scaleTwo_quotient, heq]
      gcongr
    rw [roundedBits, roundedBits, heq]
    omega
  · have hle := (roundedSignificand_bounds hnum hden).1
    have hnext := roundedBits_le_of_lt hnum' hden' hlt
    rw [roundedBits]
    omega

end

/-! ### Integers -/

theorem roundedBits_le_of_le {m n : Nat} (hm : m ≠ 0) (h : m ≤ n) :
    roundedBits m 1 ≤ roundedBits n 1 := by
  refine roundedBits_mono hm one_ne_zero (by omega) one_ne_zero ?_
  rw [Nat.cast_one, div_one, div_one]
  exact_mod_cast h

/-- An integer of at most 53 bits is its own significand, moved to the leading bit. -/
theorem roundedSignificand_of_lt {n : Nat} (hn : n ≠ 0) (h : n < 2 * hiddenBit) :
    roundedExponent n 1 ≤ 0 ∧ roundedSignificand n 1 = n * 2 ^ (-roundedExponent n 1).toNat ∧
      roundedSignificand n 1 < 2 * hiddenBit := by
  have hlog : floorLog2 n 1 < 53 := by
    rw [floorLog2_eq hn one_ne_zero, Nat.cast_one, div_one]
    refine (Int.lt_zpow_iff_log_lt (by decide) (by positivity)).1 ?_
    have hbit : 2 * hiddenBit = 2 ^ 53 := rfl
    rw [hbit] at h
    exact_mod_cast h
  have he : roundedExponent n 1 ≤ 0 := by
    unfold roundedExponent
    omega
  have hscale : scaleTwo n 1 (-roundedExponent n 1) =
      (n * 2 ^ (-roundedExponent n 1).toNat, 1) := by
    rw [scaleTwo, if_pos (by omega), Nat.pow_eq]
  have hexact : roundedSignificand n 1 = n * 2 ^ (-roundedExponent n 1).toNat := by
    rw [roundedSignificand, hscale]
    exact (Number.roundHalfEven_of_dvd Nat.one_pos (one_dvd _)).trans (Nat.div_one _)
  refine ⟨he, hexact, ?_⟩
  have hscaled := (scaled_bounds hn one_ne_zero).1
  rw [← scaleTwo_quotient, hscale, ← hexact, Nat.cast_one, div_one] at hscaled
  exact_mod_cast hscaled

/-- Integers up to 2^53 are rounded to different numbers. -/
theorem roundedBits_lt {m n : Nat} (hm : m ≠ 0) (h : m < n) (hn : n ≤ 2 * hiddenBit) :
    roundedBits m 1 < roundedBits n 1 := by
  have hn' : n ≠ 0 := by omega
  have hle : (m / (1 : Nat) : ℚ) ≤ n / (1 : Nat) := by
    rw [Nat.cast_one, div_one, div_one]
    exact_mod_cast h.le
  obtain ⟨hexp, hsignificand, hlt⟩ := roundedSignificand_of_lt hm (by omega)
  rcases (roundedExponent_mono hm one_ne_zero hn' one_ne_zero hle).eq_or_lt with heq | hexp'
  · rcases hn.eq_or_lt with rfl | hn
    · -- the exponent of 2^53 is above that of all that comes before
      have hone : roundedExponent (2 * hiddenBit) 1 = 1 := by decide
      omega
    · obtain ⟨-, hsignificand', -⟩ := roundedSignificand_of_lt hn' hn
      have hmul := Nat.mul_lt_mul_of_pos_right h (Nat.two_pow_pos (-roundedExponent n 1).toNat)
      rw [roundedBits, roundedBits, hsignificand, hsignificand', heq]
      omega
  · have hnext := roundedBits_le_of_lt hn' one_ne_zero hexp'
    rw [roundedBits]
    omega

/-- The key of a natural number among the keys of all numbers. -/
def naturalKey (n : Nat) : Nat := if n = 0 then 0 else min (roundedBits n 1) infinityBits

theorem key_ofMagnitude (negative : Bool) {magnitude : Nat} (h : magnitude ≤ infinityBits) :
    (ofMagnitude negative magnitude).isNaN = false ∧
      (ofMagnitude negative magnitude).key = if negative then -(magnitude : Int) else magnitude := by
  have hsmall : magnitude < signBit := Nat.lt_of_le_of_lt h (by decide)
  have hbits : (ofMagnitude negative magnitude).bits.toNat =
      magnitude + if negative then signBit else 0 := by
    rw [ofMagnitude, UInt64.toNat_ofNat']
    refine Nat.mod_eq_of_lt ?_
    unfold signBit at hsmall ⊢
    split_ifs <;> omega
  have hmagnitude : (ofMagnitude negative magnitude).magnitude = magnitude := by
    rw [Binary64.magnitude, hbits]
    split_ifs
    · rw [Nat.add_mod_right, Nat.mod_eq_of_lt hsmall]
    · exact Nat.mod_eq_of_lt hsmall
  have hnegative : (ofMagnitude negative magnitude).negative = negative := by
    rw [Binary64.negative, hbits]
    cases negative
    · simpa using hsmall
    · simp
  refine ⟨?_, ?_⟩
  · rw [isNaN, hmagnitude, decide_eq_false_iff_not]
    omega
  · rw [key, hmagnitude, hnegative]

/-- An integer is converted to a number with the key of its absolute value and its own sign. -/
theorem key_ofInt (n : Int) :
    (ofInt n).isNaN = false ∧
      (ofInt n).key = if n < 0 then -(naturalKey n.natAbs : Int) else naturalKey n.natAbs := by
  unfold ofInt naturalKey
  by_cases hzero : n = 0
  · subst hzero
    decide
  · have habs : n.natAbs ≠ 0 := by omega
    rw [ofRatio_eq _ habs, if_neg habs]
    obtain ⟨hnan, hkey⟩ := key_ofMagnitude (decide (n < 0))
      (min_le_right (roundedBits n.natAbs 1) infinityBits)
    exact ⟨hnan, hkey.trans (by simp only [decide_eq_true_eq])⟩

theorem naturalKey_mono {m n : Nat} (h : m ≤ n) : naturalKey m ≤ naturalKey n := by
  unfold naturalKey
  split_ifs with hm hn hn
  · exact le_rfl
  · exact Nat.zero_le _
  · omega
  · exact min_le_min_right _ (roundedBits_le_of_le hm h)

/-- Integers of at most 64 bits are far from infinity. -/
theorem isFinite_ofInt {n : Int} (h : n.natAbs ≤ 2 ^ 64) : (ofInt n).isFinite = true := by
  have hkey : (ofInt n).magnitude = (ofInt n).key.natAbs := by
    unfold key
    split_ifs <;> simp
  have hnatural : (ofInt n).key.natAbs = naturalKey n.natAbs := by
    rw [(key_ofInt n).2]
    split_ifs <;> simp
  rw [isFinite, hkey, hnatural, decide_eq_true_eq]
  exact lt_of_le_of_lt (naturalKey_mono h) (by decide)

theorem naturalKey_lt {m n : Nat} (h : m < n) (hn : n ≤ 2 ^ 53) : naturalKey m < naturalKey n := by
  have hn' : n ≠ 0 := by omega
  have hfinite : roundedBits n 1 < infinityBits :=
    lt_of_le_of_lt (roundedBits_le_of_le hn' hn) (by decide)
  rw [naturalKey, naturalKey, if_neg hn', min_eq_left hfinite.le]
  split_ifs with hm
  · exact lt_of_lt_of_le (show 0 < roundedBits 1 1 by decide)
      (roundedBits_le_of_le one_ne_zero (Nat.one_le_iff_ne_zero.2 hn'))
  · exact lt_of_le_of_lt (min_le_left _ _) (roundedBits_lt hm h hn)

/-- **The conversion of integers keeps their order.** -/
theorem key_ofInt_le {m n : Int} (h : m ≤ n) : (ofInt m).key ≤ (ofInt n).key := by
  rw [(key_ofInt m).2, (key_ofInt n).2]
  split_ifs with hm hn
  · have := naturalKey_mono (show n.natAbs ≤ m.natAbs by omega)
    omega
  · omega
  · omega
  · have := naturalKey_mono (show m.natAbs ≤ n.natAbs by omega)
    omega

/-- **Up to 2^53 the conversion of integers keeps them apart.** -/
theorem key_ofInt_lt {m n : Int} (h : m < n) (hm : m.natAbs ≤ 2 ^ 53) (hn : n.natAbs ≤ 2 ^ 53) :
    (ofInt m).key < (ofInt n).key := by
  rw [(key_ofInt m).2, (key_ofInt n).2]
  split_ifs with hneg hneg'
  · have := naturalKey_lt (show n.natAbs < m.natAbs by omega) hm
    omega
  · have := naturalKey_lt (show 0 < m.natAbs by omega) hm
    omega
  · omega
  · have := naturalKey_lt (show m.natAbs < n.natAbs by omega) hn
    omega

end Binary64

end Criteria

import Criteria.Proofs.Evaluation.Ordering
import Criteria.Proofs.Number.Conversions

/-!
# The order of numbers across widths

Integers and longs are compared exactly, and with a double by way of the double they are converted to
(`Value.order?_of_isNumber`). The conversion keeps the order but takes different integers beyond 2^53
to one double, and such a double stands between them as an equal of both: it `Merges` them. So the
order of numbers is total, but it is transitive just where nothing is merged (`Value.order?_preorder`).
-/

namespace Criteria

namespace Value

open Evaluation

/-- Whether a value is a number: an integer, a long, or a double unless it is not-a-number. -/
def IsNumber : Value → Prop
  | integer _ | long _ => True
  | double x => x.isNaN = false
  | _ => False

/-- Whether a value is an integer or a long, which are compared with each other exactly. -/
def IsWhole (v : Value) : Prop := v.type = .integer ∨ v.type = .long

instance (v : Value) : Decidable v.IsWhole := inferInstanceAs (Decidable (_ ∨ _))

/-- Whether the order puts a value before another one or takes the two for equal. -/
def AtMost (a b : Value) : Prop := a.order? b = some .lt ∨ a.order? b = some .eq

/-- Whether a double is equal to two integers of which the first is less than the second. -/
structure Merges (x a b : Value) : Prop where
  double : x.type = .double
  whole : a.IsWhole ∧ b.IsWhole
  less : a.order? b = some .lt
  left : a.order? x = some .eq
  right : b.order? x = some .eq

theorem asDouble_of_isWhole {v : Value} (h : v.IsWhole) : asDouble v = .ofInt (asInt v) := by
  cases v <;> first | rfl | simp [IsWhole, type] at h

theorem type_of_isNumber {v : Value} (h : v.IsNumber) : v.type = .double ↔ ¬ v.IsWhole := by
  cases v <;> simp_all [IsNumber, IsWhole, type]

/-- Two integers are compared as such, and other numbers as doubles. -/
theorem order?_of_isNumber {a b : Value} (ha : a.IsNumber) (hb : b.IsNumber) :
    a.order? b = some (if a.IsWhole ∧ b.IsWhole then compare (asInt a) (asInt b)
      else compare (asDouble a).key (asDouble b).key) := by
  have hdouble {x y : Binary64} (hx : x.isNaN = false) (hy : y.isNaN = false) :
      x.order? y = some (compare x.key y.key) := by
    rw [Binary64.order?, hx, hy]
    rfl
  have hint (n : Int) : (Binary64.ofInt n).isNaN = false := (Binary64.key_ofInt n).1
  cases a <;> cases b <;> first
    | exact ha.elim
    | exact hb.elim
    | rfl
    | exact hdouble (by first | exact ha | exact hint _) (by first | exact hb | exact hint _)

section

variable {a b c : Value} (ha : a.IsNumber) (hb : b.IsNumber) (hc : c.IsNumber)

include ha hb

theorem order?_eq_lt_iff : a.order? b = some .lt ↔
    if a.IsWhole ∧ b.IsWhole then asInt a < asInt b else (asDouble a).key < (asDouble b).key := by
  rw [order?_of_isNumber ha hb, Option.some_inj]
  split_ifs <;> exact compare_lt_iff_lt

theorem order?_eq_eq_iff : a.order? b = some .eq ↔
    if a.IsWhole ∧ b.IsWhole then asInt a = asInt b else (asDouble a).key = (asDouble b).key := by
  rw [order?_of_isNumber ha hb, Option.some_inj]
  split_ifs <;> exact compare_eq_iff_eq

theorem atMost_iff : a.AtMost b ↔
    if a.IsWhole ∧ b.IsWhole then asInt a ≤ asInt b else (asDouble a).key ≤ (asDouble b).key := by
  rw [AtMost, order?_eq_lt_iff ha hb, order?_eq_eq_iff ha hb]
  split_ifs <;> exact le_iff_lt_or_eq.symm

/-- The conversion to doubles keeps the order. -/
theorem AtMost.key_le (h : a.AtMost b) : (asDouble a).key ≤ (asDouble b).key := by
  rw [atMost_iff ha hb] at h
  split_ifs at h with hwhole
  · rw [asDouble_of_isWhole hwhole.1, asDouble_of_isWhole hwhole.2]
    exact Binary64.key_ofInt_le h
  · exact h

/-- Every two numbers have an order, which is turned round with them. -/
theorem order?_total : a.order? a = some .eq ∧ ∃ o, a.order? b = some o ∧ b.order? a = some o.swap := by
  refine ⟨?_, _, order?_of_isNumber ha hb, ?_⟩
  · rw [order?_eq_eq_iff ha ha]
    split_ifs <;> rfl
  · rw [order?_swap, order?_of_isNumber ha hb, Option.map_some]

theorem not_atMost_iff : ¬ a.AtMost b ↔ b.order? a = some .lt := by
  rw [atMost_iff ha hb, order?_eq_lt_iff hb ha]
  by_cases hwhole : a.IsWhole ∧ b.IsWhole
  · rw [if_pos hwhole, if_pos hwhole.symm, not_le]
  · rw [if_neg hwhole, if_neg (mt And.symm hwhole), not_le]

include hc

theorem merges_iff : c.Merges a b ↔
    ¬ c.IsWhole ∧ (a.IsWhole ∧ b.IsWhole) ∧ asInt a < asInt b ∧
      (asDouble a).key = (asDouble c).key ∧ (asDouble b).key = (asDouble c).key := by
  constructor
  · rintro ⟨hdouble, hwhole, hless, hleft, hright⟩
    have hc' := (type_of_isNumber hc).1 hdouble
    rw [order?_eq_lt_iff ha hb, if_pos hwhole] at hless
    rw [order?_eq_eq_iff ha hc, if_neg (by tauto)] at hleft
    rw [order?_eq_eq_iff hb hc, if_neg (by tauto)] at hright
    exact ⟨hc', hwhole, hless, hleft, hright⟩
  · rintro ⟨hc', hwhole, hless, hleft, hright⟩
    refine ⟨(type_of_isNumber hc).2 hc', hwhole, ?_, ?_, ?_⟩
    · rwa [order?_eq_lt_iff ha hb, if_pos hwhole]
    · rwa [order?_eq_eq_iff ha hc, if_neg (by tauto)]
    · rwa [order?_eq_eq_iff hb hc, if_neg (by tauto)]

/-- Of two integers that are merged at least one is beyond 2^53. -/
theorem Merges.magnitude (h : c.Merges a b) :
    2 ^ 53 < (asInt a).natAbs ∨ 2 ^ 53 < (asInt b).natAbs := by
  obtain ⟨-, ⟨ha', hb'⟩, hless, hleft, hright⟩ := (merges_iff ha hb hc).1 h
  by_contra hnot
  rw [not_or, Nat.not_lt, Nat.not_lt] at hnot
  have hkey := Binary64.key_ofInt_lt hless hnot.1 hnot.2
  rw [← asDouble_of_isWhole ha', ← asDouble_of_isWhole hb'] at hkey
  omega

/-- The order is transitive except by way of a double which merges the ends. -/
theorem atMost_trans_iff (hab : a.AtMost b) (hbc : b.AtMost c) : a.AtMost c ↔ ¬ b.Merges c a := by
  refine ⟨fun hac hmerges => (not_atMost_iff ha hc).2 hmerges.less hac, fun hmerges => ?_⟩
  by_contra hac
  have hless := (not_atMost_iff ha hc).1 hac
  have hab_key := hab.key_le ha hb
  have hbc_key := hbc.key_le hb hc
  have hca_key := AtMost.key_le hc ha (.inl hless)
  rw [atMost_iff ha hc] at hac
  split_ifs at hac with hwhole
  · -- both ends are integers, and the one in the middle cannot be one
    have hb' : ¬ b.IsWhole := by
      intro hb'
      rw [atMost_iff ha hb, if_pos ⟨hwhole.1, hb'⟩] at hab
      rw [atMost_iff hb hc, if_pos ⟨hb', hwhole.2⟩] at hbc
      omega
    rw [order?_eq_lt_iff hc ha, if_pos hwhole.symm] at hless
    exact hmerges ((merges_iff hc ha hb).2 ⟨hb', hwhole.symm, hless, by omega, by omega⟩)
  · omega

omit hc in
/-- Two numbers in order that are converted to the same double are equal, unless they are integers. -/
theorem AtMost.eq_or_less (h : a.AtMost b) (hkey : (asDouble a).key = (asDouble b).key) :
    a.order? b = some .eq ∨ (a.IsWhole ∧ b.IsWhole) ∧ asInt a < asInt b := by
  rw [order?_eq_eq_iff ha hb]
  rw [atMost_iff ha hb] at h
  split_ifs at h ⊢ with hwhole
  · exact h.eq_or_lt.imp id fun hlt => ⟨hwhole, hlt⟩
  · exact .inl hkey

/-- Ends that are equal have an equal in the middle, except where one end merges the two others. -/
theorem order?_eq_iff_not_merges (hab : a.AtMost b) (hbc : b.AtMost c) :
    (a.order? c = some .eq → a.order? b = some .eq ∧ b.order? c = some .eq) ↔
      ¬ c.Merges a b ∧ ¬ a.Merges b c := by
  constructor
  · intro h
    refine ⟨fun hmerges => ?_, fun hmerges => ?_⟩
    · have heq := (h hmerges.left).1
      rw [hmerges.less] at heq
      cases heq
    · have hac : a.order? c = some .eq := by
        rw [order?_swap, hmerges.right]
        rfl
      have heq := (h hac).2
      rw [hmerges.less] at heq
      cases heq
  · rintro ⟨hc_merges, ha_merges⟩ hac
    have hab_key := hab.key_le ha hb
    have hbc_key := hbc.key_le hb hc
    have hca_key : (asDouble c).key ≤ (asDouble a).key := by
      refine AtMost.key_le hc ha (.inr ?_)
      rw [order?_swap, hac]
      rfl
    rw [order?_eq_eq_iff ha hc] at hac
    refine ⟨(hab.eq_or_less ha hb (by omega)).resolve_right fun ⟨hwhole, hless⟩ => ?_,
      (hbc.eq_or_less hb hc (by omega)).resolve_right fun ⟨hwhole, hless⟩ => ?_⟩
    · by_cases hc' : c.IsWhole
      · rw [if_pos ⟨hwhole.1, hc'⟩] at hac
        rw [atMost_iff hb hc, if_pos ⟨hwhole.2, hc'⟩] at hbc
        omega
      · exact hc_merges ((merges_iff ha hb hc).2 ⟨hc', hwhole, hless, by omega, by omega⟩)
    · by_cases ha' : a.IsWhole
      · rw [if_pos ⟨ha', hwhole.2⟩] at hac
        rw [atMost_iff ha hb, if_pos ⟨ha', hwhole.1⟩] at hab
        omega
      · exact ha_merges ((merges_iff hb hc ha).2 ⟨ha', hwhole, hless, by omega, by omega⟩)

/-- **The order of numbers is total, and transitive unless a double merges integers.** Any two numbers
are less, equal or greater, and the opposite in turn. If `a` is at most `b` and `b` at most `c`, then
`a` is at most `c`, except just in the case that `a` and `c` are integers that the double `b` merges,
with `c` the lesser one; and if `a` and `c` are equal, then both are equal to `b`, except just in the
cases that one end merges the two others. What is merged is beyond 2^53. -/
theorem order?_preorder :
    (a.order? a = some .eq ∧ ∃ o, a.order? b = some o ∧ b.order? a = some o.swap) ∧
    (a.AtMost b → b.AtMost c →
      (a.AtMost c ↔ ¬ b.Merges c a) ∧
      ((a.order? c = some .eq → a.order? b = some .eq ∧ b.order? c = some .eq) ↔
        ¬ c.Merges a b ∧ ¬ a.Merges b c)) ∧
    (c.Merges a b → 2 ^ 53 < (asInt a).natAbs ∨ 2 ^ 53 < (asInt b).natAbs) :=
  ⟨order?_total ha hb,
    fun hab hbc => ⟨atMost_trans_iff ha hb hc hab hbc, order?_eq_iff_not_merges ha hb hc hab hbc⟩,
    fun h => h.magnitude ha hb hc⟩

end

/-- The longs 2^53 + 1 and 2^53 + 3, which are converted to 2^53 and 2^53 + 4, and the double 2^53 + 2
between them. -/
theorem order?_preorder_between :
    let low := long 9007199254740993
    let x := double ⟨0x4340000000000001⟩
    let high := long 9007199254740995
    x.IsNumber ∧ low.AtMost x ∧ x.AtMost high ∧ low.AtMost high := by
  intro low x high
  have hx : x.IsNumber := show Binary64.isNaN _ = false by decide
  have hlow : low.AtMost x := .inl (by decide)
  have hhigh : x.AtMost high := .inl (by decide)
  obtain ⟨-, htrans, -⟩ := order?_preorder (a := low) (b := x) (c := high) trivial hx trivial
  exact ⟨hx, hlow, hhigh, (htrans hlow hhigh).1.2 fun h => absurd h.less (by decide)⟩

/-- The double 2^53 merges the longs 2^53 and 2^53 + 1. The greater one is equal to it and it to the
lesser one; and the lesser one is equal to it by way of the greater one, to which it is not equal. -/
theorem order?_merged :
    let low := long 9007199254740992
    let high := long 9007199254740993
    let x := double ⟨0x4340000000000000⟩
    (high.order? x = some .eq ∧ x.order? low = some .eq ∧ high.order? low = some .gt) ∧
      (low.order? high = some .lt ∧ high.order? x = some .eq ∧ low.order? x = some .eq) := by
  decide

end Value

end Criteria

import Criteria.Pattern.CharSet
import Mathlib.Tactic.SplitIfs

/-!
# Case variants of ASCII characters

A set that ignores case holds a character if it holds a variant of it. For ASCII characters the
relation can be turned around (`mem_caseVariants_comm`), and so the members of such a set can be
listed: only `k` and `s` have variants beyond ASCII.
-/

namespace Criteria.Text

/-- Beyond ASCII only the long s and the Kelvin sign fold to ASCII characters. -/
theorem foldCode_lt {n : Nat} (hn : 128 ≤ n) (h : foldCode n < 128) :
    n = 0x17F ∧ foldCode n = 0x73 ∨ n = 0x212A ∧ foldCode n = 0x6B := by
  have table : ∀ r ∈ foldRuns, r.last < 128 ∨ 128 ≤ (r.first : Int) + r.shift ∨
      r.first = 0x17F ∧ r.last = 0x17F ∧ r.shift = -268 ∨
      r.first = 0x212A ∧ r.last = 0x212A ∧ r.shift = -8383 := by decide +kernel
  unfold foldCode at h ⊢
  split at h
  · next r hr =>
    have hmem := List.mem_of_find?_eq_some hr
    have hcovers := List.find?_some hr
    simp only [FoldRun.covers, Bool.and_eq_true, decide_eq_true_eq] at hcovers
    simp only [FoldRun.image, Int.ofNat_eq_natCast] at h ⊢
    rcases table r hmem with hlast | hbig | ⟨h1, h2, h3⟩ | ⟨h1, h2, h3⟩
    · omega
    · omega
    · left
      rw [h3]
      omega
    · right
      rw [h3]
      omega
  · omega

/-- Beyond ASCII only the long s and the Kelvin sign have ASCII characters as variants. -/
theorem mem_foldOrbit_lt {m n : Nat} (hm : m < 128) (hn : 128 ≤ n) (h : m ∈ foldOrbit n) :
    n = 0x17F ∧ (m = 0x73 ∨ m = 0x53) ∨ n = 0x212A ∧ (m = 0x6B ∨ m = 0x4B) := by
  have table : ∀ r ∈ foldRuns, r.first < 128 → r.last = 0x5A ∧ r.shift = 32 := by decide +kernel
  rcases List.mem_cons.1 h with h | h
  · have := foldCode_lt hn (h ▸ hm)
    omega
  · obtain ⟨r, hr, hpre⟩ := List.mem_filterMap.1 h
    simp only [FoldRun.preimage?, Int.ofNat_eq_natCast] at hpre
    split_ifs at hpre with hcovers
    cases hpre
    simp only [FoldRun.covers, Bool.and_eq_true, decide_eq_true_eq] at hcovers
    obtain ⟨hlast, hshift⟩ := table r hr (by omega)
    rw [hlast, hshift] at hcovers
    rw [hshift] at hm ⊢
    have := foldCode_lt hn (by omega)
    omega

/-- No case variant is a surrogate. -/
theorem isValidChar_of_mem_foldOrbit {m n : Nat} (hn : n.isValidChar) (h : m ∈ foldOrbit n) :
    m.isValidChar := by
  have table : ∀ r ∈ foldRuns, (r.last < 0xD800 ∨ 0xE000 ≤ r.first ∧ r.last < 0x110000) ∧
      (0 ≤ r.first + r.shift ∧ r.last + r.shift < 0xD800 ∨
        0xE000 ≤ r.first + r.shift ∧ r.last + r.shift < 0x110000) := by decide +kernel
  rcases List.mem_cons.1 h with rfl | h
  · unfold foldCode
    split
    · next r hr =>
      have ht := (table r (List.mem_of_find?_eq_some hr)).2
      have hcovers := List.find?_some hr
      simp only [FoldRun.covers, Bool.and_eq_true, decide_eq_true_eq] at hcovers
      simp only [FoldRun.image, Int.ofNat_eq_natCast, Nat.isValidChar]
      omega
    · exact hn
  · obtain ⟨r, hr, hpre⟩ := List.mem_filterMap.1 h
    have ht := (table r hr).1
    simp only [FoldRun.preimage?] at hpre
    split_ifs at hpre with hcovers
    cases hpre
    simp only [FoldRun.covers, Bool.and_eq_true, decide_eq_true_eq] at hcovers
    simp only [Nat.isValidChar]
    omega

/-- Every code point has the same folding as itself. -/
theorem self_mem_foldOrbit (n : Nat) : n ∈ foldOrbit n := by
  have table : ∀ r ∈ foldRuns, 0 ≤ r.first + r.shift := by decide +kernel
  rw [foldOrbit]
  cases hr : foldRuns.find? (·.covers n) with
  | none =>
    have hbase : foldCode n = n := by rw [foldCode, hr]
    rw [hbase]
    exact List.mem_cons_self
  | some r =>
    have hbase : foldCode n = r.image n := by rw [foldCode, hr]
    have hmem := List.mem_of_find?_eq_some hr
    have hcovers := List.find?_some hr
    have hfirst : r.first ≤ n := by
      simp only [FoldRun.covers, Bool.and_eq_true, decide_eq_true_eq] at hcovers
      exact hcovers.1.1
    have hback : (Int.ofNat (r.image n) - r.shift).toNat = n := by
      have := table r hmem
      simp only [FoldRun.image, Int.ofNat_eq_natCast]
      omega
    refine List.mem_cons_of_mem _ (List.mem_filterMap.2 ⟨r, hmem, ?_⟩)
    rw [hbase, FoldRun.preimage?, hback, if_pos hcovers]

theorem toNat_ofNat {n : Nat} (h : n.isValidChar) : (Char.ofNat n).toNat = n := by
  rw [Char.ofNat, dif_pos h]
  rfl

/-- What holds of the characters of a list is decided along the list. The priority is above that of
the instance for all characters, which would try every one of them. -/
instance (priority := 2000) decidableForallMemChar {l : List Char} {p : Char → Prop}
    [DecidablePred p] : Decidable (∀ c ∈ l, p c) :=
  List.decidableBAll p l

theorem forall_ascii {p : Char → Prop} (h : ∀ n < 128, p (Char.ofNat n)) {c : Char}
    (hc : c.toNat < 128) : p c := by
  have := h c.toNat hc
  rwa [Char.ofNat_toNat] at this

theorem self_mem_caseVariants (c : Char) : c ∈ caseVariants c := by
  unfold caseVariants
  split_ifs
  · unfold asciiVariants
    split_ifs <;> simp
  · exact List.mem_map.2 ⟨c.toNat, self_mem_foldOrbit c.toNat, Char.ofNat_toNat c⟩

/-- **For ASCII characters, being a case variant goes both ways.** -/
theorem mem_caseVariants_comm {l c : Char} (hl : l.toNat < 128) :
    l ∈ caseVariants c ↔ c ∈ caseVariants l := by
  have small {c : Char} (hc : c.toNat < 128) :
      ∀ d ∈ asciiVariants c, d.toNat < 128 → c ∈ asciiVariants d := by
    refine forall_ascii (p := fun c => ∀ d ∈ asciiVariants c, d.toNat < 128 → c ∈ asciiVariants d)
      ?_ hc
    decide
  have large {c : Char} (hc : c.toNat < 128) :
      ∀ d ∈ asciiVariants c, 128 ≤ d.toNat → c ∈ caseVariants d := by
    refine forall_ascii (p := fun c => ∀ d ∈ asciiVariants c, 128 ≤ d.toNat → c ∈ caseVariants d)
      ?_ hc
    decide
  rw [caseVariants_ascii hl]
  constructor
  · intro h
    by_cases hc : c.toNat < 128
    · rw [caseVariants_ascii hc] at h
      exact small hc l h hl
    · rw [caseVariants, if_neg hc] at h
      obtain ⟨m, hm, rfl⟩ := List.mem_map.1 h
      have hvalid := isValidChar_of_mem_foldOrbit c.valid hm
      rw [toNat_ofNat hvalid] at hl
      rcases mem_foldOrbit_lt hl (Nat.not_lt.1 hc) hm with ⟨hn, rfl | rfl⟩ | ⟨hn, rfl | rfl⟩ <;>
        rw [← Char.ofNat_toNat c, hn] <;> decide
  · intro h
    by_cases hc : c.toNat < 128
    · rw [caseVariants_ascii hc]
      exact small hl c h hc
    · exact large hl c h (Nat.not_lt.1 hc)

end Criteria.Text

namespace Criteria.CharSet

open Text

theorem contains_folded_iff {a : CharSet} {c : Char} :
    (folded a).contains c = true ↔ ∃ d ∈ caseVariants c, a.contains d = true := by
  simp [contains]

/-- Without regard to case a set has its own members at least. -/
theorem contains_folded_of_contains {a : CharSet} {c : Char} (h : a.contains c = true) :
    (folded a).contains c = true := contains_folded_iff.2 ⟨c, self_mem_caseVariants c, h⟩

/-- A set of ASCII characters without regard to case. -/
theorem contains_folded_ascii {a : CharSet} (ha : ∀ d, a.contains d = true → d.toNat < 128)
    {c : Char} : (folded a).contains c = true ↔ ∃ d, a.contains d = true ∧ c ∈ caseVariants d := by
  rw [contains_folded_iff]
  constructor
  · rintro ⟨d, hd, had⟩
    exact ⟨d, had, (mem_caseVariants_comm (ha d had)).1 hd⟩
  · rintro ⟨d, had, hd⟩
    exact ⟨d, (mem_caseVariants_comm (ha d had)).2 hd, had⟩

theorem contains_only_iff {c d : Char} : (only c).contains d = true ↔ d = c := by
  rw [contains_only, beq_iff_eq, eq_comm]

/-- Whether a set is seen to have ASCII characters only. -/
def isAscii : CharSet → Bool
  | none => true
  | range _ high => high.toNat < 128
  | union a b => a.isAscii && b.isAscii
  | inter a b => a.isAscii || b.isAscii
  | word | digit | blank | compl _ | folded _ => false

theorem toNat_lt_of_isAscii {a : CharSet} (ha : a.isAscii = true) {c : Char}
    (hc : a.contains c = true) : c.toNat < 128 := by
  induction a with
  | range low high =>
    simp only [isAscii, decide_eq_true_eq] at ha
    simp only [contains, Bool.and_eq_true, decide_eq_true_eq] at hc
    have hle : c.toNat ≤ high.toNat := hc.2
    omega
  | union a b iha ihb =>
    simp only [isAscii, Bool.and_eq_true] at ha
    simp only [contains, Bool.or_eq_true] at hc
    exact hc.elim (iha ha.1) (ihb ha.2)
  | inter a b iha ihb =>
    simp only [isAscii, Bool.or_eq_true] at ha
    simp only [contains, Bool.and_eq_true] at hc
    exact ha.elim (fun ha => iha ha hc.1) fun hb => ihb hb hc.2
  | none => cases hc
  | word | digit | blank | compl | folded => cases ha

/-- What holds of all variants of the ASCII characters of a set holds of its members without regard
to case. -/
theorem forall_folded {a : CharSet} (ha : a.isAscii = true) {p : Char → Prop}
    (h : ∀ n < 128, a.contains (Char.ofNat n) = true → ∀ v ∈ caseVariants (Char.ofNat n), p v)
    {c : Char} (hc : (folded a).contains c = true) : p c := by
  obtain ⟨d, hd, hcd⟩ := (contains_folded_ascii fun d => toNat_lt_of_isAscii ha).1 hc
  have hall := forall_ascii (p := fun d => a.contains d = true → ∀ v ∈ caseVariants d, p v) h
    (toNat_lt_of_isAscii ha hd)
  exact hall hd c hcd

theorem contains_folded_only {l : Char} (hl : l.toNat < 128) {c : Char} :
    (folded (only l)).contains c = true ↔ c ∈ caseVariants l := by
  rw [contains_folded_iff, ← mem_caseVariants_comm hl]
  simp

end Criteria.CharSet

import Criteria.Proofs.Number.Digits
import Mathlib.Tactic.Ring

/-!
# Reading what was written

The readers of literals undo the writers of values: strings in quotes, globally unique identifiers,
dates, and dates with a time of day.
-/

namespace Criteria

open Text Numeral

namespace Literal

/-! ### Strings -/

theorem toList_quote (s : String) :
    (Value.quote s).toList = '\x27' :: (Value.doubleQuotes s.toList ++ ['\x27']) := by
  simp [Value.quote]

theorem undoubleQuotes_doubleQuotes (s : List Char) :
    undoubleQuotes (Value.doubleQuotes s) = s := by
  induction s with
  | nil => rfl
  | cons c s ih =>
    by_cases hc : c = '\x27'
    · rw [Value.doubleQuotes, if_pos hc, undoubleQuotes, ih, hc]
    · rw [Value.doubleQuotes, if_neg hc]
      simp [undoubleQuotes, hc, ih]

theorem inner_append (a b : Char) (s : List Char) : inner (a :: (s ++ [b])) = s := by
  simp [inner]

/-- **A quoted string is read back.** -/
theorem undoubleQuotes_quote (s : List Char) :
    undoubleQuotes (inner ('\x27' :: (Value.doubleQuotes s ++ ['\x27']))) = s := by
  rw [inner_append, undoubleQuotes_doubleQuotes]

end Literal

/-! ### Identifiers -/

namespace Guid

theorem digits_add (a b n : Nat) :
    digits (a + b) n = digits a (n / 16 ^ b) ++ digits b n := by
  induction a with
  | zero => rw [Nat.zero_add]; rfl
  | succ a ih =>
    have hsucc : a + 1 + b = a + b + 1 := by omega
    rw [hsucc, digits, digits, ih, List.cons_append]
    congr 2
    rw [Nat.pow_eq, Nat.pow_eq, Nat.div_div_eq_div_mul, ← Nat.pow_add, Nat.add_comm b a]

theorem length_digits (count n : Nat) : (digits count n).length = count := by
  induction count with
  | zero => rfl
  | succ count ih => rw [digits, List.length_cons, ih]

theorem hexDigit?_digit {n : Nat} (h : n < 16) : hexDigit? (digit n) = some n := by
  have table : ∀ n < 16, hexDigit? (digit n) = some n := by decide
  exact table n h

/-- The hexadecimal digits of a number continue a number that is being read. -/
theorem foldl_digits (count n m : Nat) :
    (digits count n).foldl (fun m c => do return 16 * (← m) + (← hexDigit? c)) (some m) =
      some (16 ^ count * m + n % 16 ^ count) := by
  induction count generalizing m with
  | zero => simp [digits, Nat.mod_one]
  | succ count ih =>
    have hlt : n / 16 ^ count % 16 < 16 := Nat.mod_lt _ (by decide)
    rw [digits, List.foldl_cons, Nat.pow_eq, hexDigit?_digit hlt]
    change List.foldl _ (some (16 * m + n / 16 ^ count % 16)) _ = _
    rw [ih, Nat.pow_succ, Nat.mod_mul]
    congr 1
    ring

theorem hexNumber?_digits {count n : Nat} (hcount : 0 < count) (h : n < 16 ^ count) :
    hexNumber? (digits count n) = some n := by
  obtain ⟨count, rfl⟩ : ∃ k, count = k + 1 := ⟨count - 1, by omega⟩
  have hfold := foldl_digits (count + 1) n 0
  rw [Nat.mod_eq_of_lt h, Nat.mul_zero, Nat.zero_add] at hfold
  exact hfold

/-- A number that is being read goes on with any hexadecimal digits. -/
theorem exists_foldl_hexDigit? {cs : List Char} (h : ∀ c ∈ cs, (hexDigit? c).isSome = true) (m : Nat) :
    ∃ n, cs.foldl (fun m c => do return 16 * (← m) + (← hexDigit? c)) (some m) = some n := by
  induction cs generalizing m with
  | nil => exact ⟨m, rfl⟩
  | cons c cs ih =>
    obtain ⟨hc, hcs⟩ := List.forall_mem_cons.1 h
    obtain ⟨k, hk⟩ := Option.isSome_iff_exists.1 hc
    rw [List.foldl_cons, hk]
    exact ih hcs (16 * m + k)

/-- Hexadecimal digits with any hyphens between them are those of an identifier. -/
theorem exists_ofDigits? {cs : List Char} (hne : ∃ c ∈ cs, c ≠ '-')
    (h : ∀ c ∈ cs, c = '-' ∨ (hexDigit? c).isSome = true) : ∃ g, ofDigits? cs = some g := by
  have hdigits : ∀ c ∈ cs.filter (· != '-'), (hexDigit? c).isSome = true := by
    intro c hc
    obtain ⟨hmem, hhyphen⟩ := List.mem_filter.1 hc
    exact (h c hmem).resolve_left (by simpa using hhyphen)
  obtain ⟨n, hn⟩ := exists_foldl_hexDigit? hdigits 0
  obtain ⟨c, hc, hhyphen⟩ := hne
  have hfilter : c ∈ cs.filter (· != '-') := List.mem_filter.2 ⟨hc, by simpa using hhyphen⟩
  obtain ⟨d, ds, hcons⟩ := List.exists_cons_of_ne_nil (List.ne_nil_of_mem hfilter)
  rw [hcons] at hn
  rw [ofDigits?, hcons, hexNumber?, hn]
  · exact ⟨_, rfl⟩
  · simp

theorem mem_digits {count n : Nat} {c : Char} (h : c ∈ digits count n) : ∃ k < 16, c = digit k := by
  induction count with
  | zero => cases h
  | succ count ih =>
    rcases List.mem_cons.1 h with rfl | h
    · exact ⟨_, Nat.mod_lt _ (by decide), rfl⟩
    · exact ih h

theorem filter_digits (count n : Nat) : (digits count n).filter (· != '-') = digits count n := by
  have table : ∀ k < 16, digit k ≠ '-' := by decide
  refine List.filter_eq_self.2 fun c hc => ?_
  obtain ⟨k, hk, rfl⟩ := mem_digits hc
  simpa using table k hk

/-- **An identifier is read back.** -/
theorem ofDigits?_render (g : Guid) : ofDigits? g.render.toList = some g := by
  have hlt := g.bits.isLt
  have hgroups : (g.render.toList).filter (· != '-') = digits 32 g.bits.toNat := by
    have hsplit : digits 32 g.bits.toNat =
        digits 8 (g.bits.toNat / 16 ^ 24) ++ (digits 4 (g.bits.toNat / 16 ^ 20) ++
          (digits 4 (g.bits.toNat / 16 ^ 16) ++ (digits 4 (g.bits.toNat / 16 ^ 12) ++
            digits 12 g.bits.toNat))) := by
      rw [digits_add 8 24, digits_add 4 20, digits_add 4 16, digits_add 4 12]
    rw [hsplit, render, String.toList_ofList]
    simp only [List.append_assoc, List.cons_append, List.filter_append, filter_digits,
      List.filter_cons, bne_self_eq_false, Bool.false_eq_true, if_false, Nat.pow_eq]
  rw [ofDigits?, hgroups, hexNumber?_digits (by decide) (by omega)]
  simp

end Guid

/-! ### Dates -/

namespace Date

/-- Whether a date is one of the calendar and has a year of four digits. -/
structure Writable (d : Date) : Prop where
  year_nonneg : 0 ≤ d.year
  year_le : d.year ≤ 9999
  day_pos : 1 ≤ d.day
  day_le : d.day ≤ daysInMonth d.year d.month

theorem daysInMonth_le (year : Int) (month : Nat) : daysInMonth year month ≤ 31 := by
  unfold daysInMonth
  split
  · split_ifs <;> decide
  all_goals decide

theorem month_le {year : Int} {month : Nat} (h : 0 < daysInMonth year month) : month ≤ 12 := by
  unfold daysInMonth at h
  split at h <;> omega

namespace Writable

variable {d : Date}

theorem ofParts? (h : d.Writable) : Date.ofParts? d.year d.month d.day = some d := by
  rw [Date.ofParts?, if_pos ⟨h.day_pos, h.day_le⟩]

theorem month_le (h : d.Writable) : d.month ≤ 12 :=
  Date.month_le (Nat.lt_of_lt_of_le h.day_pos h.day_le)

theorem day_le_31 (h : d.Writable) : d.day ≤ 31 := h.day_le.trans (daysInMonth_le _ _)

end Writable

/-- The characters of a date. -/
def chars (d : Date) : List Char :=
  (zeroPadded 4 d.year.natAbs).toList ++ '-' :: ((zeroPadded 2 d.month).toList ++
    '-' :: (zeroPadded 2 d.day).toList)

theorem Writable.toList_render {d : Date} (h : d.Writable) : d.render.toList = d.chars := by
  have hneg : ¬ d.year < 0 := by
    have := h.year_nonneg
    omega
  have hlarge : ¬ 9999 < d.year := by
    have := h.year_le
    omega
  simp [render, chars, hneg, hlarge]

end Date

namespace Literal

/-- A date is read from the digits at their places. -/
theorem readDate?_append {year month day rest : List Char} (hy : year.length = 4)
    (hm : month.length = 2) (hd : day.length = 2) :
    readDate? (year ++ '-' :: (month ++ '-' :: (day ++ rest))) =
      Date.ofParts? (decimalNumber year) (decimalNumber month) (decimalNumber day) := by
  have h8 : (year ++ '-' :: (month ++ '-' :: (day ++ rest))).drop 8 = day ++ rest := by
    simp [List.drop_append, List.drop_eq_nil_of_le, hy, hm]
  have h5 : (year ++ '-' :: (month ++ '-' :: (day ++ rest))).drop 5 =
      month ++ '-' :: (day ++ rest) := by
    simp [List.drop_append, hy, List.drop_eq_nil_of_le]
  rw [readDate?, h8, h5, List.take_left' hy, List.take_left' hm, List.take_left' hd]

end Literal

namespace Date

theorem Writable.lengths {d : Date} (h : d.Writable) :
    (zeroPadded 4 d.year.natAbs).toList.length = 4 ∧ (zeroPadded 2 d.month).toList.length = 2 ∧
      (zeroPadded 2 d.day).toList.length = 2 := by
  have h₁ := h.year_nonneg
  have h₂ := h.year_le
  have h₃ := h.month_le
  have h₄ := h.day_le_31
  exact ⟨length_zeroPadded (by decide) (by omega), length_zeroPadded (by decide) (by omega),
    length_zeroPadded (by decide) (by omega)⟩

/-- **A date is read back**, whatever follows it. -/
theorem Writable.readDate? {d : Date} (h : d.Writable) (rest : List Char) :
    Literal.readDate? (d.chars ++ rest) = some d := by
  obtain ⟨hy, hm, hd⟩ := h.lengths
  have hyear : ((d.year.natAbs : Nat) : Int) = d.year := by
    have := h.year_nonneg
    omega
  have hchars : d.chars ++ rest = (zeroPadded 4 d.year.natAbs).toList ++
      '-' :: ((zeroPadded 2 d.month).toList ++ '-' :: ((zeroPadded 2 d.day).toList ++ rest)) := by
    simp [chars]
  rw [hchars, Literal.readDate?_append hy hm hd, decimalNumber_zeroPadded,
    decimalNumber_zeroPadded, decimalNumber_zeroPadded, hyear, h.ofParts?]

end Date

/-! ### Dates with a time of day -/

namespace DateTime

/-- Whether a date and time is one of the calendar and the clock and has a year of four digits. A
leap second is second 59 of its minute. -/
structure Writable (d : DateTime) : Prop where
  date : d.date.Writable
  hour_lt : d.hour < 24
  minute_lt : d.minute < 60
  second_lt : d.second < 60
  nanos_lt : d.nanos < 2 * nanosPerSecond
  leap : nanosPerSecond ≤ d.nanos → d.second = 59

/-- The second as it is written: 60 in a leap second. -/
def writtenSecond (d : DateTime) : Nat := d.second + d.nanos / nanosPerSecond

/-- The characters of a time of day to the second. -/
def timeChars (d : DateTime) : List Char :=
  (zeroPadded 2 d.hour).toList ++ ':' :: ((zeroPadded 2 d.minute).toList ++
    ':' :: (zeroPadded 2 d.writtenSecond).toList)

/-- The characters of the fraction of a second. -/
def fractionChars (d : DateTime) : List Char := (renderFraction (d.nanos % nanosPerSecond)).toList

theorem Writable.toList_render {d : DateTime} (h : d.Writable) :
    d.render.toList = d.date.chars ++ 'T' :: (d.timeChars ++ d.fractionChars) := by
  have hdate := h.date.toList_render
  simp [render, timeChars, fractionChars, writtenSecond, hdate]

end DateTime

namespace Literal

theorem readNanos_zeroPadded {width n : Nat} (hpos : 0 < width) (hwidth : width ≤ 9)
    (h : n < 10 ^ width) : readNanos (zeroPadded width n).toList = n * 10 ^ (9 - width) := by
  have hlen := length_zeroPadded hpos h
  rw [readNanos, List.take_of_length_le (by omega), decimalNumber_zeroPadded, hlen]
  rfl

/-- The fraction of a second is read back behind its point. -/
theorem readNanos_renderFraction {n : Nat} (h : n < nanosPerSecond) :
    readNanos ((DateTime.renderFraction n).toList.drop 1) = n := by
  have hlt : n < 1000000000 := h
  unfold DateTime.renderFraction
  split_ifs with hzero hmillis hmicros
  · rw [hzero]
    rfl
  · have hdrop : ("." ++ zeroPadded 3 (n / 1000000)).toList.drop 1 =
        (zeroPadded 3 (n / 1000000)).toList := by simp
    rw [hdrop, readNanos_zeroPadded (by decide) (by decide) (by omega)]
    omega
  · have hdrop : ("." ++ zeroPadded 6 (n / 1000)).toList.drop 1 =
        (zeroPadded 6 (n / 1000)).toList := by simp
    rw [hdrop, readNanos_zeroPadded (by decide) (by decide) (by omega)]
    omega
  · have hdrop : ("." ++ zeroPadded 9 n).toList.drop 1 = (zeroPadded 9 n).toList := by simp
    rw [hdrop, readNanos_zeroPadded (by decide) (by decide) (by omega)]
    omega

/-- A date and time is read from the digits at their places. -/
theorem readDateTime?_append {front hour minute second fraction : List Char} {t : Char}
    (hf : front.length = 10) (hh : hour.length = 2) (hm : minute.length = 2)
    (hs : second.length = 2) :
    readDateTime? (front ++ t :: (hour ++ ':' :: (minute ++ ':' :: (second ++ fraction)))) =
      (readDate? (front ++ t :: (hour ++ ':' :: (minute ++ ':' :: (second ++ fraction))))).bind
        fun date => DateTime.ofParts? date (decimalNumber hour) (decimalNumber minute)
          (decimalNumber second) (readNanos (fraction.drop 1)) := by
  have h11 : (front ++ t :: (hour ++ ':' :: (minute ++ ':' :: (second ++ fraction)))).drop 11 =
      hour ++ ':' :: (minute ++ ':' :: (second ++ fraction)) := by
    simp [List.drop_append, List.drop_eq_nil_of_le, hf]
  have h14 : (front ++ t :: (hour ++ ':' :: (minute ++ ':' :: (second ++ fraction)))).drop 14 =
      minute ++ ':' :: (second ++ fraction) := by
    simp [List.drop_append, List.drop_eq_nil_of_le, hf, hh]
  have h17 : (front ++ t :: (hour ++ ':' :: (minute ++ ':' :: (second ++ fraction)))).drop 17 =
      second ++ fraction := by
    simp [List.drop_append, List.drop_eq_nil_of_le, hf, hh, hm]
  have h20 : (front ++ t :: (hour ++ ':' :: (minute ++ ':' :: (second ++ fraction)))).drop 20 =
      fraction.drop 1 := by
    simp [List.drop_append, List.drop_eq_nil_of_le, hf, hh, hm, hs]
  unfold readDateTime?
  simp only [h11, h14, h17, h20, List.take_left' hh, List.take_left' hm, List.take_left' hs]
  rfl

end Literal

namespace DateTime

variable {d : DateTime}

theorem Writable.writtenSecond_le (h : d.Writable) : d.writtenSecond ≤ 60 := by
  have hnanos := h.nanos_lt
  have hsecond := h.second_lt
  have hleap := h.leap
  unfold writtenSecond
  unfold nanosPerSecond at *
  omega

theorem Writable.ofParts? (h : d.Writable) :
    DateTime.ofParts? d.date d.hour d.minute d.writtenSecond (d.nanos % nanosPerSecond) = some d := by
  have hhour := h.hour_lt
  have hminute := h.minute_lt
  have hsecond := h.second_lt
  have hnanos := h.nanos_lt
  have hmod := Nat.mod_lt d.nanos (show 0 < nanosPerSecond by decide)
  unfold DateTime.ofParts?
  rw [if_pos ⟨hhour, hminute, hmod⟩]
  by_cases hleap : nanosPerSecond ≤ d.nanos
  · have h59 := h.leap hleap
    have hwritten : d.writtenSecond = 60 := by
      unfold writtenSecond
      unfold nanosPerSecond at *
      omega
    have hwhole : nanosPerSecond + d.nanos % nanosPerSecond = d.nanos := by
      unfold nanosPerSecond at *
      omega
    rw [if_neg (by omega), if_pos hwritten, hwhole, ← h59]
  · have hless : d.nanos < nanosPerSecond := Nat.lt_of_not_le hleap
    have hwritten : d.writtenSecond = d.second := by
      rw [writtenSecond, Nat.div_eq_of_lt hless, Nat.add_zero]
    rw [hwritten, if_pos hsecond, Nat.mod_eq_of_lt hless]

/-- **A date and time is read back**, whichever letter stands before the time. -/
theorem Writable.readDateTime? (h : d.Writable) (t : Char) :
    Literal.readDateTime? (d.date.chars ++ t :: (d.timeChars ++ d.fractionChars)) = some d := by
  obtain ⟨hy, hm, hd⟩ := h.date.lengths
  have hfront : d.date.chars.length = 10 := by simp [Date.chars, hy, hm, hd]
  have hhour := h.hour_lt
  have hminute := h.minute_lt
  have hsecond := h.writtenSecond_le
  have hmod := Nat.mod_lt d.nanos (show 0 < nanosPerSecond by decide)
  have htwo {n : Nat} (hn : n < 100) : (zeroPadded 2 n).toList.length = 2 :=
    length_zeroPadded (by decide) hn
  have hchars : d.date.chars ++ t :: (d.timeChars ++ d.fractionChars) =
      d.date.chars ++ t :: ((zeroPadded 2 d.hour).toList ++ ':' :: ((zeroPadded 2 d.minute).toList ++
        ':' :: ((zeroPadded 2 d.writtenSecond).toList ++ d.fractionChars))) := by
    simp [timeChars]
  rw [hchars, Literal.readDateTime?_append hfront (htwo (by omega)) (htwo (by omega))
    (htwo (by omega)), h.date.readDate?, Option.bind_some, decimalNumber_zeroPadded,
    decimalNumber_zeroPadded, decimalNumber_zeroPadded, fractionChars,
    Literal.readNanos_renderFraction hmod, h.ofParts?]

end DateTime

end Criteria

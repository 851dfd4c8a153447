import SqlDialect.Time.Instant
import SqlDialect.Proofs.Text.Bytes
import SqlDialect.Proofs.Time.Calendar
import Mathlib.Tactic.Ring
import Mathlib.Tactic.ByContra

set_option autoImplicit false

/-! # Instants and their texts

An instant of the years 0 to 9999 is written in a form from which it is read back to the nanosecond:
each number has leading zeros up to its width, and of the decimals of the second only zeros at their
end are left out. The year of any other instant has more digits or a sign, and its text cannot be
read. -/

namespace SqlDialect

namespace Bytes

/-! ## Padded numbers -/

theorem length_decimal_le_iff {w n : Nat} (hwidth : 0 < w) :
    (decimal n).length ≤ w ↔ n < 10 ^ w := by
  simp [decimal, Nat.length_toDigits_le_iff (b := 10) (by decide) hwidth]

theorem isDigit_of_mem_padded {w n : Nat} {b : UInt8} (hb : b ∈ padded w n) :
    isDigit b = true := by
  rcases List.mem_append.1 hb with hzero | hdigit
  · rw [List.eq_of_mem_replicate hzero]
    decide
  · exact isDigit_of_mem_decimal hdigit

theorem length_padded {w n : Nat} (hwidth : 0 < w) (h : n < 10 ^ w) :
    (padded w n).length = w := by
  have hle := (length_decimal_le_iff hwidth).2 h
  simp only [padded, List.length_append, List.length_replicate]
  omega

/-- A number that is too large for its width is written in full. -/
theorem padded_of_le {w n : Nat} (hwidth : 0 < w) (h : 10 ^ w ≤ n) :
    padded w n = decimal n ∧ w < (decimal n).length := by
  have hlt : w < (decimal n).length := by
    by_contra hle
    have := (length_decimal_le_iff hwidth).1 (Nat.le_of_not_lt hle)
    omega
  simp [padded, Nat.sub_eq_zero_of_le hlt.le, hlt]

/-- The value of digits goes on from that of the digits in front of them. -/
theorem digitsValue_append (s t : Bytes) :
    digitsValue (s ++ t) = digitsValue s * 10 ^ t.length + digitsValue t := by
  have hfold : ∀ (t : Bytes) (n : Nat), t.foldl (fun n b => n * 10 + (b.toNat - 48)) n
      = n * 10 ^ t.length + digitsValue t := by
    intro t
    induction t with
    | nil => simp [digitsValue]
    | cons b t ih =>
      intro n
      rw [digitsValue, List.foldl_cons, List.foldl_cons, ih, ih (0 * 10 + _), List.length_cons, pow_succ]
      ring
  rw [digitsValue, List.foldl_append, hfold t]
  rfl

theorem digitsValue_zeros (k : Nat) : digitsValue (List.replicate k 48) = 0 := by
  induction k with
  | zero => rfl
  | succ k ih => rw [List.replicate_succ', digitsValue_append, ih]; rfl

theorem digitsValue_padded (width n : Nat) : digitsValue (padded width n) = n := by
  simp [padded, digitsValue_append, digitsValue_zeros, digitsValue_decimal]

end Bytes

namespace Instant

open Bytes

theorem digits?_padded {w n : Nat} (hwidth : 0 < w) (h : n < 10 ^ w) (s : Bytes) :
    digits? w (padded w n ++ s) = some (n, s) := by
  have hlen := length_padded hwidth h
  have hall : (padded w n).all isDigit = true :=
    List.all_eq_true.2 fun b hb => isDigit_of_mem_padded hb
  simp [digits?, List.take_left' hlen, List.drop_left' hlen, hlen, hall, digitsValue_padded]

/-! ## Dates and times of day -/

theorem yearText_of_nonneg {year : Int} (h : 0 ≤ year) : yearText year = padded 4 year.natAbs := by
  simp [yearText, Int.not_lt.2 h]

theorem date?_dateText {d : Date} (hvalid : d.isValid = true) (hyear : 0 ≤ d.year ∧ d.year ≤ 9999)
    (s : Bytes) : date? (dateText d ++ s) = some (d, s) := by
  obtain ⟨year, month, day⟩ := d
  have hbounds := Date.bounds_of_isValid hvalid
  simp only at hyear hbounds
  have habs : ((year.natAbs : Nat) : Int) = year := Int.natAbs_of_nonneg hyear.1
  simp only [dateText, yearText_of_nonneg hyear.1, List.append_assoc, date?, Option.bind_eq_bind,
    digits?_padded (w := 4) (n := year.natAbs) (by decide) (by omega),
    digits?_padded (w := 2) (n := month) (by decide) (by omega),
    digits?_padded (w := 2) (n := day) (by decide) (by omega),
    Option.bind_some, dropLead?_append, habs, hvalid, if_true]

theorem time?_timeText {t : TimeOfDay} (hvalid : t.isValid = true) (s : Bytes) :
    time? (timeText t ++ s) = some (t, s) := by
  obtain ⟨hour, minute, second⟩ := t
  have hparts := hvalid
  simp only [TimeOfDay.isValid, Bool.and_eq_true, decide_eq_true_eq] at hparts
  simp only [timeText, List.append_assoc, time?, Option.bind_eq_bind,
    digits?_padded (w := 2) (n := hour) (by decide) (by omega),
    digits?_padded (w := 2) (n := minute) (by decide) (by omega),
    digits?_padded (w := 2) (n := second) (by decide) (by omega),
    Option.bind_some, dropLead?_append, hvalid, if_true]

/-- The date of a year with a sign or with more than four digits is not read. -/
theorem date?_dateText_eq_none {d : Date} (hyear : ¬ (0 ≤ d.year ∧ d.year ≤ 9999)) (s : Bytes) :
    date? (dateText d ++ s) = none := by
  by_cases hneg : d.year < 0
  · -- a sign is no digit
    have hfail : ∀ u : Bytes, digits? 4 (45 :: u) = none := by
      intro u
      simp [digits?, isDigit]
    simp [dateText, yearText, hneg, date?, hfail]
  · -- behind four digits stands one more
    obtain ⟨htext, hlen⟩ := padded_of_le (w := 4) (n := d.year.natAbs) (by decide) (by omega)
    obtain ⟨four, x, more, hsplit, hfour⟩ : ∃ four x more,
        decimal d.year.natAbs = four ++ x :: more ∧ four.length = 4 := by
      refine ⟨(decimal d.year.natAbs).take 4, (decimal d.year.natAbs)[4],
        (decimal d.year.natAbs).drop 5, ?_, ?_⟩
      · rw [← List.drop_eq_getElem_cons hlen, List.take_append_drop]
      · rw [List.length_take]
        omega
    have hdigit : ∀ b ∈ four ++ x :: more, isDigit b = true := by
      intro b hb
      rw [← hsplit] at hb
      exact isDigit_of_mem_decimal hb
    have hx : 45 ≠ x := by
      rintro rfl
      exact absurd (hdigit 45 (by simp)) (by decide)
    have hall : four.all isDigit = true :=
      List.all_eq_true.2 fun b hb => hdigit b (List.mem_append_left _ hb)
    simp [dateText, yearText, hneg, htext, hsplit, date?, digits?, List.take_left' hfour,
      List.drop_left' hfour, hfour, hall, ascii, dropLead?, hx]

/-! ## Decimals -/

/-- The decimals of a second are its nanoseconds without the zeros at their end. -/
theorem padded_nanos (nanos : Nat) :
    ∃ zeros, padded 9 nanos
      = dropTailWhile (· == 48) (padded 9 nanos) ++ List.replicate zeros 48 := by
  have hcut := dropTailWhile_append_drop (· == 48) (padded 9 nanos)
  have hzeros : ∀ b ∈ (padded 9 nanos).drop (dropTailWhile (· == 48) (padded 9 nanos)).length,
      b = 48 :=
    fun b hb => beq_iff_eq.1 (of_mem_drop_dropTailWhile (p := (· == 48)) hb)
  refine ⟨((padded 9 nanos).drop (dropTailWhile (· == 48) (padded 9 nanos)).length).length, ?_⟩
  rw [← List.eq_replicate_of_mem hzeros, hcut]

theorem fraction?_fractionText {nanos : Nat} (h : nanos < 1000000000) :
    fraction? (fractionText nanos ++ ascii "Z") = some (nanos, ascii "Z") := by
  by_cases hzero : nanos = 0
  · subst hzero
    rfl
  · obtain ⟨zeros, hcut⟩ := padded_nanos nanos
    let digits := dropTailWhile (· == 48) (padded 9 nanos)
    have hlen : digits.length + zeros = 9 := by
      rw [← length_padded (w := 9) (by decide) h, hcut, List.length_append, List.length_replicate]
    -- what is read is padded with as many zeros as were cut off
    have hvalue : digitsValue digits * 10 ^ zeros = nanos := by
      rw [← digitsValue_padded 9 nanos, hcut, digitsValue_append, digitsValue_zeros,
        List.length_replicate, Nat.add_zero]
    have hne : digits ≠ [] := by
      intro hnil
      rw [hnil] at hvalue
      exact hzero (by simpa [digitsValue] using hvalue.symm)
    have hdigits : ∀ b ∈ digits, isDigit b = true := by
      intro b hb
      apply isDigit_of_mem_padded (w := 9) (n := nanos)
      rw [hcut]
      exact List.mem_append_left _ hb
    have htake : (digits ++ ascii "Z").takeWhile isDigit = digits := by
      rw [List.takeWhile_append_of_pos hdigits]
      simp [ascii, isDigit]
    have hdrop : (digits ++ ascii "Z").dropWhile isDigit = ascii "Z" := by
      rw [List.dropWhile_append_of_pos hdigits]
      decide
    have hnine : digits.take 9 = digits := List.take_of_length_le (by omega)
    have hrest : 9 - digits.length = zeros := by omega
    rw [fractionText, if_neg hzero]
    change fraction? (46 :: (digits ++ ascii "Z")) = _
    simp only [fraction?, htake, hdrop, hnine, hrest, List.isEmpty_iff, hne, if_false, Nat.pow_eq,
      hvalue]

/-! ## The whole text -/

theorem isValid_date (t : Instant) : t.date.isValid = true :=
  Date.isValid_ofDays _

theorem isValid_timeOfDay (t : Instant) : t.timeOfDay.isValid = true :=
  TimeOfDay.isValid_ofSeconds (by omega)

/-- The instants of the years that have four digits. -/
def HasFourDigitYear (t : Instant) : Prop :=
  0 ≤ t.date.year ∧ t.date.year ≤ 9999

instance (t : Instant) : Decidable t.HasFourDigitYear :=
  inferInstanceAs (Decidable (_ ∧ _))

/-- The day and the time of day of an instant make up its seconds. -/
theorem seconds_eq (t : Instant) :
    t.seconds = t.date.toDays * 86400 + t.timeOfDay.toSeconds := by
  rw [date, Date.toDays_ofDays, timeOfDay, TimeOfDay.toSeconds_ofSeconds]
  omega

/-- Ten thousand years are far from the last second that can be counted. -/
theorem counted_seconds {t : Instant} (h : t.HasFourDigitYear) : counted t.seconds = t.seconds := by
  have hdays : -800000 ≤ t.seconds / 86400 ∧ t.seconds / 86400 ≤ 4000000 := by
    have hvalid := t.isValid_date
    rw [← Date.toDays_ofDays (t.seconds / 86400)]
    change -800000 ≤ t.date.toDays ∧ t.date.toDays ≤ 4000000
    obtain ⟨hzero, hlast⟩ := h
    generalize t.date = d at hvalid hzero hlast
    have hbounds := Date.bounds_of_isValid hvalid
    unfold Date.toDays Date.epochOffset
    by_cases hmonth : d.month < 3
    · simp only [hmonth, if_true]
      omega
    · simp only [hmonth, if_false]
      omega
  unfold counted countOffset
  omega

/-- An instant is read back from its text if its year has four digits. -/
theorem ofTimestamp?_timestamp {t : Instant} (h : t.HasFourDigitYear) :
    ofTimestamp? t.timestamp = some t := by
  have hunix : ofUnix (t.date.toDays * 86400 + t.timeOfDay.toSeconds) t.nanos = t := by
    rw [← seconds_eq]
    have hnanos := t.nanos_lt
    have hseconds : t.seconds + (t.nanos : Int) / 1000000000 = t.seconds := by omega
    have hrest : ((t.nanos : Int) % 1000000000).toNat = t.nanos := by omega
    obtain ⟨seconds, nanos, hlt⟩ := t
    simp only [ofUnix, hseconds, hrest, counted_seconds h]
  simp only [timestamp, List.append_assoc, ofTimestamp?, Option.bind_eq_bind, Option.bind_some,
    date?_dateText t.isValid_date h, dropLead?_append, time?_timeText t.isValid_timeOfDay,
    fraction?_fractionText t.nanos_lt, if_true, hunix]

theorem ofTimestamp?_timestamp_eq_none {t : Instant} (h : ¬ t.HasFourDigitYear) :
    ofTimestamp? t.timestamp = none := by
  simp only [timestamp, List.append_assoc, ofTimestamp?, Option.bind_eq_bind,
    date?_dateText_eq_none h, Option.bind_none]

end Instant

end SqlDialect

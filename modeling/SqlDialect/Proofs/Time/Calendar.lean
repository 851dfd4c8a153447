import SqlDialect.Time.Calendar

set_option autoImplicit false

/-! # Days and dates

Every day has a date of the calendar, and the date leads back to the day. Both directions go over the
years that begin in March: a day is a year of that kind and a number of days since its 1 March
(`ofMarch`). Such a year has 365 days, and one more if the year that begins in its January is a leap
year. -/

namespace SqlDialect

namespace Date

/-- The date so many days after 1 March of a year. -/
def ofMarch (year : Int) (inYear : Nat) : Date :=
  let month := (5 * inYear + 2) / 153
  { year := year + if month < 10 then 0 else 1
    month := if month < 10 then month + 3 else month - 9
    day := inYear - (153 * month + 2) / 5 + 1 }

/-- The number of 1 March of a year, counted from 1 March of the year 0. -/
def marchDays (year : Int) : Int :=
  365 * year + year / 4 - year / 100 + year / 400

/-- The days up to 1 March of a year, by the eras, centuries and leap cycles before it. -/
theorem marchDays_parts (era : Int) {century cycle rest : Nat} (hcentury : century ≤ 3)
    (hcycle : cycle ≤ 24) (hrest : rest ≤ 3) :
    marchDays (era * 400 + (century * 100 + cycle * 4 + rest : Nat))
      = era * daysPerEra + (century * 36524 + cycle * 1461 + rest * 365 : Nat) := by
  unfold marchDays daysPerEra
  omega

/-- A day lies in a year that begins in March. It is a leap day if it is the 366th of its year, and
then the year ends a leap cycle, which is not the last of its century unless the century is the last of
its era. -/
theorem ofDays_eq_ofMarch (days : Int) :
    ∃ (year : Int) (inYear : Nat), ofDays days = ofMarch year inYear ∧
      marchDays year + inYear = days + epochOffset ∧ inYear ≤ 365 ∧
      (inYear = 365 → isLeapYear (year + 1) = true) := by
  let era := (days + epochOffset) / daysPerEra
  let inEra := ((days + epochOffset) % daysPerEra).toNat
  let century := min (inEra / 36524) 3
  let inCentury := inEra - century * 36524
  let cycle := inCentury / 1461
  let inCycle := inCentury % 1461
  let rest := min (inCycle / 365) 3
  let inYear := inCycle - rest * 365
  have hera : days + epochOffset = era * daysPerEra + inEra ∧ inEra < 146097 := by
    simp only [era, inEra, daysPerEra]
    omega
  have hcentury : century ≤ 3 ∧ inEra = century * 36524 + inCentury ∧ inCentury ≤ 36524 ∧
      (inCentury = 36524 → century = 3) := by
    simp only [inCentury, century]
    omega
  have hcycle : cycle ≤ 24 ∧ inCentury = cycle * 1461 + inCycle ∧ inCycle ≤ 1460 := by
    simp only [inCycle, cycle]
    omega
  have hrest : rest ≤ 3 ∧ inCycle = rest * 365 + inYear ∧ inYear ≤ 365 ∧
      (inYear = 365 → rest = 3) := by
    simp only [inYear, rest]
    omega
  refine ⟨era * 400 + (century * 100 + cycle * 4 + rest : Nat), inYear, rfl, ?_, hrest.2.2.1, ?_⟩
  · rw [marchDays_parts era hcentury.1 hcycle.1 hrest.1, hera.1, hcentury.2.1, hcycle.2.1,
      hrest.2.1]
    omega
  · intro hlast
    have hthree := hrest.2.2.2 hlast
    -- the last day of the last cycle of a century is there only in the last century of an era
    have hend : cycle = 24 → century = 3 := by
      intro h24
      apply hcentury.2.2.2
      omega
    simp only [isLeapYear, Bool.and_eq_true, Bool.or_eq_true, beq_iff_eq, bne_iff_ne]
    omega

theorem toDays_ofMarch (year : Int) {inYear : Nat} (h : inYear ≤ 365) :
    (ofMarch year inYear).toDays = marchDays year + inYear - epochOffset := by
  unfold ofMarch toDays marchDays
  simp only
  by_cases hmonth : (5 * inYear + 2) / 153 < 10
  · simp only [hmonth, if_true]
    rw [if_neg (by omega), if_neg (by omega)]
    omega
  · simp only [hmonth, if_false]
    rw [if_pos (by omega), if_pos (by omega)]
    omega

theorem daysInMonth_le (year : Int) (month : Nat) : daysInMonth year month ≤ 31 := by
  unfold daysInMonth
  split <;> (split <;> decide)

theorem bounds_of_isValid {d : Date} (h : d.isValid = true) :
    1 ≤ d.month ∧ d.month ≤ 12 ∧ 1 ≤ d.day ∧ d.day ≤ 31 := by
  simp only [isValid, Bool.and_eq_true, decide_eq_true_eq] at h
  obtain ⟨⟨⟨hone, htwelve⟩, hday⟩, hlength⟩ := h
  exact ⟨hone, htwelve, hday, Nat.le_trans hlength (daysInMonth_le _ _)⟩

theorem daysInMonth_mono (year : Int) (month : Nat) : daysInMonth 1 month ≤ daysInMonth year month := by
  unfold daysInMonth
  by_cases hmonth : month = 2
  · simp only [hmonth, if_true]
    cases isLeapYear year <;> decide
  · simp only [hmonth, if_false]
    exact Nat.le_refl _

theorem isValid_ofMarch {year : Int} {inYear : Nat} (h : inYear ≤ 365)
    (hleap : inYear = 365 → isLeapYear (year + 1) = true) :
    (ofMarch year inYear).isValid = true := by
  by_cases hlast : inYear = 365
  · -- the 366th day is 29 February
    subst hlast
    simp [isValid, ofMarch, daysInMonth, hleap]
  · have hplain : ∀ n < 365, 1 ≤ (ofMarch 0 n).month ∧ (ofMarch 0 n).month ≤ 12 ∧
        1 ≤ (ofMarch 0 n).day ∧ (ofMarch 0 n).day ≤ daysInMonth 1 (ofMarch 0 n).month := by
      decide +kernel
    obtain ⟨hone, htwelve, hday, hlength⟩ := hplain inYear (by omega)
    have hmono := daysInMonth_mono (ofMarch year inYear).year (ofMarch 0 inYear).month
    simp only [isValid, Bool.and_eq_true, decide_eq_true_eq]
    exact ⟨⟨⟨hone, htwelve⟩, hday⟩, Nat.le_trans hlength hmono⟩

/-- The date of a day is a date of the calendar, and it leads back to the day. -/
theorem toDays_ofDays (days : Int) : (ofDays days).toDays = days := by
  obtain ⟨year, inYear, hdate, hdays, hle, -⟩ := ofDays_eq_ofMarch days
  rw [hdate, toDays_ofMarch year hle, hdays]
  omega

theorem isValid_ofDays (days : Int) : (ofDays days).isValid = true := by
  obtain ⟨year, inYear, hdate, -, hle, hleap⟩ := ofDays_eq_ofMarch days
  rw [hdate, isValid_ofMarch hle hleap]

end Date

namespace TimeOfDay

theorem toSeconds_ofSeconds (n : Nat) : (ofSeconds n).toSeconds = n := by
  simp only [ofSeconds, toSeconds]
  omega

theorem isValid_ofSeconds {n : Nat} (h : n < 86400) : (ofSeconds n).isValid = true := by
  unfold isValid ofSeconds
  simp only [Bool.and_eq_true, decide_eq_true_eq]
  omega

end TimeOfDay

end SqlDialect

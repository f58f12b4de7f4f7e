import Mathlib.Algebra.Group.Nat.Defs
import Watchtower.Chrono

/-!
# Dates as text

The fields of a date have the ranges of a calendar and, but for the fraction, determine
the second. A number that is filled with zeros is read back from its digits.
-/

namespace Watchtower.Chrono

section Days

/-- The days before the year of an era of 400 years. -/
def yearStart (yearOfEra : Nat) : Nat := 365 * yearOfEra + yearOfEra / 4 - yearOfEra / 100

/-- The days before a month, counted from March. -/
def monthStart (monthFromMarch : Nat) : Nat := (153 * monthFromMarch + 2) / 5

/-- The year found for a day of the era has begun, and has at most 366 days. The cases are
the centuries, and the last day of the era. -/
theorem yearStart_le {day fours century last year : Nat} (h : day < 146097)
    (hfours : day / 1460 = fours) (hcentury : day / 36524 = century)
    (hlast : day / 146096 = last) (hyear : (day - fours + century - last) / 365 = year) :
    yearStart year ≤ day ∧ day - yearStart year ≤ 365 := by
  have centuries : century = 0 ∨ century = 1 ∨ century = 2 ∨ century = 3 ∨ century = 4 := by
    omega
  have ends : last = 0 ∨ last = 1 := by omega
  have leaps : fours = year / 4 ∨ fours = year / 4 + 1 := by
    rcases centuries with rfl | rfl | rfl | rfl | rfl <;> rcases ends with rfl | rfl <;> omega
  rw [yearStart]
  rcases leaps with hleaps | hleaps <;>
    rcases centuries with rfl | rfl | rfl | rfl | rfl <;> rcases ends with rfl | rfl <;> omega

/-- A day by its era, year, month and day of the month. -/
structure DayParts (days : Int) (c : Civil) where
  era : Int
  yearOfEra : Nat
  dayOfYear : Nat
  monthFromMarch : Nat
  days_eq : days = era * 146097 + (yearStart yearOfEra + dayOfYear : Nat)
  yearOfEra_le : yearOfEra ≤ 399
  monthFromMarch_le : monthFromMarch ≤ 11
  month_began : monthStart monthFromMarch ≤ dayOfYear
  month_lasts : dayOfYear ≤ monthStart monthFromMarch + 30
  year_eq : c.year = era * 400 + yearOfEra + if c.month ≤ 2 then 1 else 0
  month_eq : c.month = if monthFromMarch < 10 then monthFromMarch + 3 else monthFromMarch - 9
  day_eq : c.day = dayOfYear - monthStart monthFromMarch + 1

def DateTime.days (t : DateTime) : Int := t / 86400000000000 + 719468

def yearOfDay (day : Nat) : Nat := (day - day / 1460 + day / 36524 - day / 146096) / 365

theorem yearStart_yearOfDay {day : Nat} (h : day < 146097) :
    yearStart (yearOfDay day) ≤ day ∧ day - yearStart (yearOfDay day) ≤ 365 :=
  yearStart_le h rfl rfl rfl rfl

theorem yearOfDay_le {day : Nat} (h : day < 146097) : yearOfDay day ≤ 399 := by
  rw [yearOfDay]
  omega

theorem monthStart_le {dayOfYear : Nat} (h : dayOfYear ≤ 365) :
    (5 * dayOfYear + 2) / 153 ≤ 11 ∧
      monthStart ((5 * dayOfYear + 2) / 153) ≤ dayOfYear ∧
      dayOfYear ≤ monthStart ((5 * dayOfYear + 2) / 153) + 30 := by
  rw [monthStart]
  omega

def DateTime.dayParts (t : DateTime) : DayParts t.days t.civil :=
  have hera : (t.days % 146097).toNat < 146097 := by
    have hlt := Int.emod_lt_of_pos t.days (by decide : (0 : Int) < 146097)
    omega
  have hyear := yearStart_yearOfDay hera
  have hmonth := monthStart_le hyear.2
  { era := t.days / 146097
    yearOfEra := yearOfDay (t.days % 146097).toNat
    dayOfYear := (t.days % 146097).toNat - yearStart (yearOfDay (t.days % 146097).toNat)
    monthFromMarch := (5 * ((t.days % 146097).toNat -
      yearStart (yearOfDay (t.days % 146097).toNat)) + 2) / 153
    days_eq := by
      rw [Nat.add_sub_cancel' hyear.1, Int.toNat_of_nonneg (Int.emod_nonneg _ (by decide)),
        Int.mul_comm, Int.mul_ediv_add_emod]
    yearOfEra_le := yearOfDay_le hera
    monthFromMarch_le := hmonth.1
    month_began := hmonth.2.1
    month_lasts := hmonth.2.2
    year_eq := rfl
    month_eq := rfl
    day_eq := rfl }

theorem DayParts.days_inj {days days' : Int} {c c' : Civil} (parts : DayParts days c)
    (parts' : DayParts days' c') (hyear : c.year = c'.year) (hmonth : c.month = c'.month)
    (hday : c.day = c'.day) : days = days' := by
  obtain ⟨era, year, dayOfYear, month, hdays, hyears, hmonths, began, lasts, hy, hm, hd⟩ := parts
  obtain ⟨era', year', dayOfYear', month', hdays', hyears', hmonths', began', lasts', hy', hm',
    hd'⟩ := parts'
  obtain rfl : month = month' := by
    rw [hm, hm'] at hmonth
    split at hmonth <;> split at hmonth <;> omega
  obtain rfl : dayOfYear = dayOfYear' := by omega
  rw [hmonth] at hy
  obtain ⟨rfl, rfl⟩ : era = era' ∧ year = year' := by
    split at hy <;> split at hy' <;> omega
  rw [hdays, hdays']

end Days

section Fields

/-- The ranges of the fields of a date and a time of day. -/
structure Civil.Proper (c : Civil) : Prop where
  month : 1 ≤ c.month ∧ c.month ≤ 12
  day : 1 ≤ c.day ∧ c.day ≤ 31
  hour : c.hour < 24
  minute : c.minute < 60
  second : c.second < 60
  nanos : c.nanos < 1000000000

theorem timeOfDay_lt (t : DateTime) : (t % 86400000000000).toNat < 86400000000000 := by
  have hlt := Int.emod_lt_of_pos t (by decide : (0 : Int) < 86400000000000)
  omega

theorem DateTime.civil_proper (t : DateTime) : t.civil.Proper where
  month := by
    obtain ⟨_, _, _, month, _, _, hmonths, _, _, _, hm, _⟩ := t.dayParts
    rw [hm]
    split <;> omega
  day := by
    obtain ⟨_, _, dayOfYear, month, _, _, _, began, lasts, _, _, hd⟩ := t.dayParts
    omega
  hour := Nat.div_lt_of_lt_mul (timeOfDay_lt t)
  minute := Nat.mod_lt _ (by decide)
  second := Nat.mod_lt _ (by decide)
  nanos := Nat.mod_lt _ (by decide)

/-- The fields of two dates agree but for the fraction of the second. -/
def Civil.SameSecond (c c' : Civil) : Prop :=
  c.year = c'.year ∧ c.month = c'.month ∧ c.day = c'.day ∧ c.hour = c'.hour ∧
    c.minute = c'.minute ∧ c.second = c'.second

theorem day_second (n : Int) : n / 1000000000 / 86400 = n / 86400000000000 ∧
    (n % 86400000000000).toNat / 1000000000 = (n / 1000000000 % 86400).toNat := by
  omega

theorem civil_time (t : DateTime) :
    t.civil.hour = (t.timestamp % 86400).toNat / 3600 ∧
      t.civil.minute = (t.timestamp % 86400).toNat / 60 % 60 ∧
      t.civil.second = (t.timestamp % 86400).toNat % 60 := by
  have hsecond : (t % 86400000000000).toNat / 1000000000 = (t.timestamp % 86400).toNat :=
    (day_second t).2
  rw [← hsecond, Nat.div_div_eq_div_mul, Nat.div_div_eq_div_mul]
  exact ⟨rfl, rfl, rfl⟩

theorem timestamp_eq (t : DateTime) : t.timestamp = (t.days - 719468) * 86400 +
    (t.civil.hour * 3600 + t.civil.minute * 60 + t.civil.second : Nat) := by
  obtain ⟨hhour, hminute, hsecond⟩ := civil_time t
  have hday : t.days - 719468 = t.timestamp / 86400 := by
    rw [DateTime.days, DateTime.timestamp, (day_second t).1]
    exact Int.add_sub_cancel ..
  rw [hday, hhour, hminute, hsecond]
  have split : ∀ s : Int, s = s / 86400 * 86400 + ((s % 86400).toNat / 3600 * 3600 +
      (s % 86400).toNat / 60 % 60 * 60 + (s % 86400).toNat % 60 : Nat) := by
    omega
  exact split t.timestamp

/-- The fields but the fraction are those of the second. -/
theorem sameSecond_iff (t t' : DateTime) :
    t.civil.SameSecond t'.civil ↔ t.timestamp = t'.timestamp := by
  constructor
  · rintro ⟨hyear, hmonth, hday, hhour, hminute, hsecond⟩
    rw [timestamp_eq, timestamp_eq, t.dayParts.days_inj t'.dayParts hyear hmonth hday, hhour,
      hminute, hsecond]
  · intro h
    obtain ⟨hhour, hminute, hsecond⟩ := civil_time t
    obtain ⟨hhour', hminute', hsecond'⟩ := civil_time t'
    have hday : t / 86400000000000 = t' / 86400000000000 := by
      rw [← (day_second t).1, ← (day_second t').1]
      exact congrArg (· / 86400) h
    rw [Civil.SameSecond, hhour, hminute, hsecond, hhour', hminute', hsecond', h]
    simp only [DateTime.civil, hday, and_self]

end Fields

section Digits
variable {width n : Nat}

theorem padded_toList (width n : Nat) : (padded width n).toList =
    List.replicate (width - (Nat.toDigits 10 n).length) '0' ++ Nat.toDigits 10 n := by
  rw [padded, String.toList_ofList, Nat.toList_repr]

theorem padded_digits (width n : Nat) : ∀ c ∈ (padded width n).toList, c.isDigit = true := by
  intro c hc
  rw [padded_toList, List.mem_append] at hc
  rcases hc with hzero | hdigit
  · rw [List.eq_of_mem_replicate hzero]
    decide
  · exact Nat.isDigit_of_mem_toDigits (by decide) (by decide) hdigit

theorem padded_length (pos : 0 < width) (h : n < 10 ^ width) :
    (padded width n).toList.length = width := by
  have hle := (Nat.length_toDigits_le_iff (n := n) (b := 10) (by decide) pos).mpr h
  rw [padded_toList, List.length_append, List.length_replicate]
  omega

/-- The zeros do not count. -/
theorem ofDigitChars_padded (width n : Nat) :
    Nat.ofDigitChars 10 (padded width n).toList 0 = n := by
  rw [padded_toList, Nat.ofDigitChars_append, Nat.ofDigitChars_replicate_zero, Nat.mul_zero,
    Nat.ofDigitChars_ten_toDigits]

theorem padded_inj {width n n' : Nat} (h : (padded width n).toList = (padded width n').toList) :
    n = n' := by
  rw [← ofDigitChars_padded width n, h, ofDigitChars_padded]

theorem padded_length_two {n : Nat} (h : n < 100) : (padded 2 n).toList.length = 2 :=
  padded_length (by decide) h

/-- Two digits in front come off alike. -/
theorem padded_two_inj {m n : Nat} {rest rest' : List Char} (hm : m < 100) (hn : n < 100)
    (h : (padded 2 m).toList ++ rest = (padded 2 n).toList ++ rest') : m = n ∧ rest = rest' := by
  have hlength : (padded 2 m).toList.length = (padded 2 n).toList.length := by
    rw [padded_length_two hm, padded_length_two hn]
  obtain ⟨hfield, hrest⟩ := List.append_inj h hlength
  exact ⟨padded_inj hfield, hrest⟩

theorem yearText_of_four {year : Int} (h : 0 ≤ year ∧ year ≤ 9999) :
    yearText year = padded 4 year.toNat := if_pos h

/-- Outside of four digits the sign comes first. -/
theorem yearText_of_sign {year : Int} (h : ¬ (0 ≤ year ∧ year ≤ 9999)) :
    (yearText year).toList =
      (if year < 0 then '-' else '+') :: (padded 4 year.natAbs).toList := by
  rw [yearText, if_neg h, String.toList_append]
  split
  · rfl
  · rfl

/-- The signed year begins with its sign and an unsigned one with a digit. -/
theorem yearText_ne {year year' : Int} (h : 0 ≤ year ∧ year ≤ 9999)
    (h' : ¬ (0 ≤ year' ∧ year' ≤ 9999)) : (yearText year).toList ≠ (yearText year').toList := by
  intro same
  rw [yearText_of_four h, yearText_of_sign h'] at same
  have hdigit := padded_digits 4 year.toNat (if year' < 0 then '-' else '+')
    (by rw [same]; exact List.mem_cons_self)
  split at hdigit
  · exact absurd hdigit (by decide)
  · exact absurd hdigit (by decide)

theorem yearText_inj {year year' : Int} (h : (yearText year).toList = (yearText year').toList) :
    year = year' := by
  by_cases hfour : 0 ≤ year ∧ year ≤ 9999
  · by_cases hfour' : 0 ≤ year' ∧ year' ≤ 9999
    · rw [yearText_of_four hfour, yearText_of_four hfour'] at h
      have hnat := padded_inj h
      omega
    · exact absurd h (yearText_ne hfour hfour')
  · by_cases hfour' : 0 ≤ year' ∧ year' ≤ 9999
    · exact absurd h.symm (yearText_ne hfour' hfour)
    · rw [yearText_of_sign hfour, yearText_of_sign hfour'] at h
      obtain ⟨hsign, hdigits⟩ := List.cons.inj h
      have habs := padded_inj hdigits
      split at hsign <;> split at hsign
      · omega
      · exact absurd hsign (by decide)
      · exact absurd hsign (by decide)
      · omega

end Digits

end Watchtower.Chrono

import Mathlib.Data.Int.Notation

/-
  Civil time in UTC: seconds since 1970-01-01 00:00:00 and the proleptic Gregorian calendar.

  `seconds` turns calendar fields into seconds and takes fields out of their ranges as well (a month
  13 is the first of the next year); `civil` turns seconds into fields. Both ways back are proved
  (`seconds_civil`, `civil_seconds`). Years start in March, so that the leap day is the last day of
  a year, and are counted in cycles of 400.
-/

namespace Apackage.Lib.CivilTime

structure Civil where
  year : ℤ
  month : ℤ
  day : ℤ
  hour : ℤ
  minute : ℤ
  second : ℤ
  deriving DecidableEq

/-- The days of a cycle before a year. -/
def yearStart (y : ℤ) : ℤ := 365 * y + y / 4 - y / 100

/-- The days of a year before a month, March being 0. -/
def monthStart (m : ℤ) : ℤ := (153 * m + 2) / 5

def yearOfDay (n : ℤ) : ℤ := (n - n / 1460 + n / 36524 - n / 146096) / 365

/-- The days from 1970-01-01 to a day of a month in 1 to 12. -/
def days (year month day : ℤ) : ℤ :=
  let y := if month ≤ 2 then year - 1 else year
  y / 400 * 146097 + yearStart (y % 400) + monthStart ((month + 9) % 12) + (day - 1) - 719468

def seconds (c : Civil) : ℤ :=
  let months := c.month - 1
  let n := days (c.year + months / 12) (months % 12 + 1) 1 + (c.day - 1)
  ((n * 24 + c.hour) * 60 + c.minute) * 60 + c.second

/-- The year, month and day of a day. -/
def civilDay (n : ℤ) : ℤ × ℤ × ℤ :=
  let z := n + 719468
  let y := yearOfDay (z % 146097)
  let d := z % 146097 - yearStart y
  let m := (5 * d + 2) / 153
  let year := y + z / 146097 * 400
  if m < 10 then (year, m + 3, d - monthStart m + 1) else (year + 1, m - 9, d - monthStart m + 1)

def civil (t : ℤ) : Civil :=
  let (year, month, day) := civilDay (t / 86400)
  ⟨year, month, day, t % 86400 / 3600, t % 3600 / 60, t % 60⟩

/-! ## Years and months -/

/-- The century is split off first: within one, leap days come every four years. -/
theorem yearOfDay_bounds {n : ℤ} (h0 : 0 ≤ n) (h1 : n < 146097) :
    0 ≤ yearOfDay n ∧ yearOfDay n ≤ 399 ∧ yearStart (yearOfDay n) ≤ n ∧
      n ≤ yearStart (yearOfDay n) + 365 := by
  unfold yearStart
  obtain ⟨y, hy⟩ : ∃ y, yearOfDay n = y := ⟨_, rfl⟩
  rw [hy]
  unfold yearOfDay at hy
  have hlast : n / 146096 = 0 ∨ n = 146096 := by omega
  rcases hlast with hlast | rfl
  · have hcentury : n / 36524 = 0 ∨ n / 36524 = 1 ∨ n / 36524 = 2 ∨ n / 36524 = 3 := by omega
    rw [hlast] at hy
    rcases hcentury with hc | hc | hc | hc
    · have hy' : y / 100 = 0 := by omega
      omega
    · have hy' : y / 100 = 1 := by omega
      omega
    · have hy' : y / 100 = 2 := by omega
      omega
    · have hy' : y / 100 = 3 := by omega
      omega
  · omega

/-- A day is a day of a month of a year of a cycle. -/
theorem civilDay_spec (n : ℤ) : ∃ q y m d : ℤ, (0 ≤ y ∧ y ≤ 399) ∧ (0 ≤ m ∧ m ≤ 11) ∧
    (1 ≤ d ∧ d ≤ 31) ∧ n + 719468 = q * 146097 + yearStart y + monthStart m + (d - 1) ∧
    civilDay n = if m < 10 then (y + q * 400, m + 3, d) else (y + q * 400 + 1, m - 9, d) := by
  obtain ⟨hy0, hy1, hd0, hd1⟩ := yearOfDay_bounds (n := (n + 719468) % 146097) (by omega) (by omega)
  unfold civilDay
  dsimp only
  generalize hy : yearOfDay ((n + 719468) % 146097) = y at hy0 hy1 hd0 hd1 ⊢
  generalize hd : (n + 719468) % 146097 - yearStart y = d
  refine ⟨(n + 719468) / 146097, y, (5 * d + 2) / 153, d - monthStart ((5 * d + 2) / 153) + 1,
    ⟨hy0, hy1⟩, by omega, ?_, by omega, rfl⟩
  unfold monthStart
  omega

theorem days_civilDay (n : ℤ) : days (civilDay n).1 (civilDay n).2.1 (civilDay n).2.2 = n := by
  obtain ⟨q, y, m, d, hy, hm, hd, hn, hcivil⟩ := civilDay_spec n
  have hcycle : (y + q * 400) / 400 = q ∧ (y + q * 400) % 400 = y := by omega
  rw [hcivil]
  unfold days
  split
  · have hmonth : (m + 3 + 9) % 12 = m := by omega
    dsimp only
    rw [if_neg (by omega), hmonth, hcycle.1, hcycle.2]
    omega
  · have hmonth : (m - 9 + 9) % 12 = m := by omega
    dsimp only
    rw [if_pos (by omega), hmonth, Int.add_sub_cancel, hcycle.1, hcycle.2]
    omega

theorem civilDay_range (n : ℤ) : 1 ≤ (civilDay n).2.1 ∧ (civilDay n).2.1 ≤ 12 ∧
    1 ≤ (civilDay n).2.2 ∧ (civilDay n).2.2 ≤ 31 := by
  obtain ⟨q, y, m, d, hy, hm, hd, hn, hcivil⟩ := civilDay_spec n
  rw [hcivil]
  split <;> dsimp only <;> omega

/-! ## Seconds -/

theorem civil_range (t : ℤ) : (1 ≤ (civil t).month ∧ (civil t).month ≤ 12) ∧
    (1 ≤ (civil t).day ∧ (civil t).day ≤ 31) ∧ (0 ≤ (civil t).hour ∧ (civil t).hour ≤ 23) ∧
    (0 ≤ (civil t).minute ∧ (civil t).minute ≤ 59) ∧
    0 ≤ (civil t).second ∧ (civil t).second ≤ 59 := by
  obtain ⟨hm0, hm1, hd0, hd1⟩ := civilDay_range (t / 86400)
  refine ⟨⟨hm0, hm1⟩, ⟨hd0, hd1⟩, ?_, ?_, ?_⟩ <;> unfold civil <;> dsimp only <;> omega

theorem days_add (year month day : ℤ) : days year month 1 + (day - 1) = days year month day := by
  unfold days
  dsimp only
  omega

theorem seconds_of_month {c : Civil} (h0 : 1 ≤ c.month) (h1 : c.month ≤ 12) :
    seconds c = ((days c.year c.month c.day * 24 + c.hour) * 60 + c.minute) * 60 + c.second := by
  have hyear : c.year + (c.month - 1) / 12 = c.year := by omega
  have hmonth : (c.month - 1) % 12 + 1 = c.month := by omega
  unfold seconds
  dsimp only
  rw [hyear, hmonth, days_add]

theorem seconds_civil (t : ℤ) : seconds (civil t) = t := by
  obtain ⟨⟨hm0, hm1⟩, -⟩ := civil_range t
  rw [seconds_of_month hm0 hm1]
  have hday : days (civil t).year (civil t).month (civil t).day = t / 86400 :=
    days_civilDay (t / 86400)
  rw [hday]
  unfold civil
  dsimp only
  omega

/-! ## Years -/

theorem yearStart_step {q q' y y' : ℤ} (hy : 0 ≤ y ∧ y ≤ 399) (hy' : 0 ≤ y' ∧ y' ≤ 399)
    (h : y + q * 400 < y' + q' * 400) :
    q * 146097 + yearStart y + 365 ≤ q' * 146097 + yearStart y' := by
  have hlast : yearStart y + 365 ≤ 146097 := by
    unfold yearStart
    omega
  have hfirst : 0 ≤ yearStart y' := by
    unfold yearStart
    omega
  rcases Int.lt_trichotomy q q' with hq | rfl | hq
  · omega
  · unfold yearStart
    omega
  · omega

theorem le_year_iff (year t : ℤ) : year ≤ (civil t).year ↔ days year 1 1 * 86400 ≤ t := by
  have hstart : days year 1 1 = (year - 1) / 400 * 146097 + yearStart ((year - 1) % 400) + 306 -
      719468 := by
    unfold days
    rw [if_pos (by decide)]
    have hjanuary : monthStart ((1 + 9) % 12) = 306 := by decide
    rw [hjanuary]
    dsimp only
    omega
  have hday : days year 1 1 * 86400 ≤ t ↔ days year 1 1 ≤ t / 86400 := by omega
  have hyear : (civil t).year = (civilDay (t / 86400)).1 := rfl
  obtain ⟨q, y, m, d, hy, hm, hd, hn, hcivil⟩ := civilDay_spec (t / 86400)
  have hy' : 0 ≤ (year - 1) % 400 ∧ (year - 1) % 400 ≤ 399 := by omega
  have hsplit : (year - 1) % 400 + (year - 1) / 400 * 400 = year - 1 := by omega
  generalize (year - 1) % 400 = y' at *
  generalize (year - 1) / 400 = q' at *
  have hmonth : monthStart m ≤ 337 ∧ 0 ≤ monthStart m ∧ (m < 10 → monthStart m ≤ 275) ∧
      (10 ≤ m → 306 ≤ monthStart m) := by
    unfold monthStart
    omega
  rw [hday, hyear, hcivil, hstart]
  rcases Int.lt_trichotomy (y + q * 400) (y' + q' * 400) with h | h | h
  · have hstep := yearStart_step hy hy' h
    split <;> dsimp only <;> omega
  · have hq : q = q' := by omega
    have hyy : y = y' := by omega
    subst hq hyy
    split <;> dsimp only <;> omega
  · have hstep := yearStart_step hy' hy h
    split <;> dsimp only <;> omega

/-! ## Dates -/

def lastDay (year month : ℤ) : ℤ :=
  if month = 2 then
    if year % 4 = 0 ∧ (year % 100 ≠ 0 ∨ year % 400 = 0) then 29 else 28
  else if month = 4 ∨ month = 6 ∨ month = 9 ∨ month = 11 then 30
  else 31

/-- A date and a time of the calendar. -/
structure Civil.Valid (c : Civil) : Prop where
  month : 1 ≤ c.month ∧ c.month ≤ 12
  day : 1 ≤ c.day ∧ c.day ≤ lastDay c.year c.month
  hour : 0 ≤ c.hour ∧ c.hour ≤ 23
  minute : 0 ≤ c.minute ∧ c.minute ≤ 59
  second : 0 ≤ c.second ∧ c.second ≤ 59

theorem yearOfDay_yearStart {y x : ℤ} (hy : 0 ≤ y ∧ y ≤ 399) (hx : 0 ≤ x)
    (hlt : x < 365 ∨ (x = 365 ∧ (y = 399 ∨ (y % 4 = 3 ∧ y % 100 ≠ 99)))) :
    yearOfDay (yearStart y + x) = y := by
  unfold yearOfDay yearStart
  generalize hn : 365 * y + y / 4 - y / 100 + x = n
  by_cases h399 : y = 399
  · omega
  have hlast : n / 146096 = 0 := by omega
  rw [hlast]
  have hc : y / 100 = 0 ∨ y / 100 = 1 ∨ y / 100 = 2 ∨ y / 100 = 3 := by omega
  rcases hc with hc | hc | hc | hc
  · have hcent : n / 36524 = 0 := by omega
    omega
  · have hcent : n / 36524 = 1 := by omega
    omega
  · have hcent : n / 36524 = 2 := by omega
    omega
  · have hcent : n / 36524 = 3 := by omega
    omega

theorem lastDay_eq {month : ℤ} (hm : 1 ≤ month ∧ month ≤ 12) (h2 : month ≠ 2) (year : ℤ) :
    monthStart ((month + 9) % 12) + lastDay year month = monthStart ((month + 9) % 12 + 1) := by
  have hmonths : month = 1 ∨ month = 3 ∨ month = 4 ∨ month = 5 ∨ month = 6 ∨ month = 7 ∨
      month = 8 ∨ month = 9 ∨ month = 10 ∨ month = 11 ∨ month = 12 := by omega
  unfold lastDay
  rw [if_neg h2]
  rcases hmonths with rfl | rfl | rfl | rfl | rfl | rfl | rfl | rfl | rfl | rfl | rfl <;> decide

theorem monthOfDay {m k : ℤ} (h0 : monthStart m ≤ k) (h1 : k < monthStart (m + 1)) :
    (5 * k + 2) / 153 = m := by
  unfold monthStart at h0 h1
  omega

/-- A date of the calendar is the date of its day. -/
theorem civilDay_days {year month day : ℤ} (hm : 1 ≤ month ∧ month ≤ 12)
    (hd : 1 ≤ day ∧ day ≤ lastDay year month) :
    civilDay (days year month day) = (year, month, day) := by
  obtain ⟨y, hy⟩ : ∃ y, (if month ≤ 2 then year - 1 else year) = y := ⟨_, rfl⟩
  obtain ⟨m, hm'⟩ : ∃ m, (month + 9) % 12 = m := ⟨_, rfl⟩
  have hdays : days year month day + 719468 =
      y / 400 * 146097 + (yearStart (y % 400) + (monthStart m + (day - 1))) := by
    unfold days
    dsimp only
    rw [hy, hm']
    omega
  have hyear := yearOfDay_yearStart (y := y % 400) (x := monthStart m + (day - 1)) (by omega)
  have hmonth : monthStart m ≤ monthStart m + (day - 1) ∧
      monthStart m + (day - 1) < monthStart (m + 1) ∧ 0 ≤ monthStart m ∧
      (monthStart m + (day - 1) < 365 ∨ (monthStart m + (day - 1) = 365 ∧
        (y % 400 = 399 ∨ (y % 400 % 4 = 3 ∧ y % 400 % 100 ≠ 99)))) := by
    by_cases h2 : month = 2
    · subst h2
      obtain rfl : m = 11 := by omega
      have h11 : monthStart 11 = 337 ∧ monthStart (11 + 1) = 367 := by decide
      rw [h11.1, h11.2]
      rw [if_pos (by decide)] at hy
      unfold lastDay at hd
      rw [if_pos rfl] at hd
      split at hd <;> omega
    · have hlast := lastDay_eq hm h2 year
      rw [hm'] at hlast
      have hle : monthStart (m + 1) ≤ 337 := by
        have hm10 : m ≤ 10 := by omega
        unfold monthStart
        omega
      have hpos : 0 ≤ monthStart m := by
        unfold monthStart
        omega
      omega
  obtain ⟨hfrom, hto, hpos, hlt⟩ := hmonth
  have hcycle : yearStart (y % 400) + (monthStart m + (day - 1)) < 146097 := by
    unfold yearStart
    omega
  have hcycle0 : 0 ≤ yearStart (y % 400) := by
    unfold yearStart
    omega
  unfold civilDay
  dsimp only
  rw [hdays]
  have hmod : (y / 400 * 146097 + (yearStart (y % 400) + (monthStart m + (day - 1)))) % 146097 =
      yearStart (y % 400) + (monthStart m + (day - 1)) := by omega
  have hdiv : (y / 400 * 146097 + (yearStart (y % 400) + (monthStart m + (day - 1)))) / 146097 =
      y / 400 := by omega
  rw [hmod, hdiv, hyear (by omega) hlt]
  have hrest : yearStart (y % 400) + (monthStart m + (day - 1)) - yearStart (y % 400) =
      monthStart m + (day - 1) := by omega
  rw [hrest, monthOfDay hfrom hto]
  split at hy <;> split <;> simp only [Prod.mk.injEq] <;> omega

theorem civil_seconds {c : Civil} (h : c.Valid) : civil (seconds c) = c := by
  obtain ⟨hm, hd, hh, hmin, hs⟩ := h
  have hday : seconds c / 86400 = days c.year c.month c.day := by
    rw [seconds_of_month hm.1 hm.2]
    omega
  have hrest := seconds_of_month hm.1 hm.2
  unfold civil
  rw [hday, civilDay_days hm hd]
  cases c
  simp only [Civil.mk.injEq, true_and] at *
  omega

end Apackage.Lib.CivilTime

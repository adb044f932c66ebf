import Lpc1788Libraries.Rtc.Calendar
import Mathlib.Tactic.IntervalCases

namespace Lpc1788Libraries.Rtc

open Lpc1788Libraries.Support

def gregorianLeapYear (year : ℕ) : Prop := year % 4 = 0 ∧ (year % 100 ≠ 0 ∨ year % 400 = 0)

instance (year : ℕ) : Decidable (gregorianLeapYear year) := inferInstanceAs (Decidable (_ ∧ _))

def monthDays (year month : ℕ) : ℕ :=
  if month = 2 then if gregorianLeapYear year then 29 else 28
  else if month = 4 ∨ month = 6 ∨ month = 9 ∨ month = 11 then 30
  else 31

/-- A date of the years 2000 to 2099 and a time of the day. -/
structure CivilDateTime extends DateTime where
  year_ge : 2000 ≤ year
  year_le : year ≤ 2099
  month_ge : 1 ≤ month
  month_le : month ≤ 12
  day_ge : 1 ≤ day
  day_le : day ≤ monthDays year month
  hour_lt : hour < 24
  minute_lt : minute < 60
  second_lt : second < 60

instance : Coe CivilDateTime DateTime := ⟨CivilDateTime.toDateTime⟩

namespace DateTime

/-- The order of the calendar. -/
def Before (t u : DateTime) : Prop :=
  t.year < u.year ∨ t.year = u.year ∧ (t.month < u.month ∨ t.month = u.month ∧
    (t.day < u.day ∨ t.day = u.day ∧ (t.hour < u.hour ∨ t.hour = u.hour ∧
      (t.minute < u.minute ∨ t.minute = u.minute ∧ t.second < u.second))))

def dayOfYear (t : DateTime) : ℕ := Blocks.start (daysPerMonth (isLeapYear (t.year - 2000))) (t.month - 1) + (t.day - 1)

/-- The days from the start of the year 2000. -/
def days (t : DateTime) : ℕ := Blocks.start yearLength (t.year - 2000) + t.dayOfYear

def seconds (t : DateTime) : ℕ := ((t.days * 24 + t.hour) * 60 + t.minute) * 60 + t.second

end DateTime

variable {t u : CivilDateTime} {o : Overflow} {n : ℕ}

section days

theorem start_yearLength (year : ℕ) : Blocks.start yearLength year = 365 * year + (year + 3) / 4 := by
  induction year with
  | zero => rfl
  | succ year ih =>
    rw [Blocks.start_succ, ih, yearLength]
    split
    · omega
    · omega

theorem start_daysPerMonth (leap : Prop) [Decidable leap] (i : ℕ) : Blocks.start (daysPerMonth leap) i =
    Blocks.start daysArray i + if leap ∧ 2 ≤ i then 1 else 0 := by
  induction i with
  | zero => simp
  | succ i ih =>
    rw [Blocks.start_succ, ih, Blocks.start_succ, daysPerMonth]
    by_cases hl : leap
    · simp only [hl, true_and]
      split_ifs <;> omega
    · simp [hl]

theorem start_daysPerMonth_year (year : ℕ) :
    Blocks.start (daysPerMonth (isLeapYear year)) 12 = yearLength year := by
  rw [start_daysPerMonth, yearLength]
  simp [isLeapYear, show Blocks.start daysArray 12 = 365 from rfl]

theorem gregorianLeapYear_iff {year : ℕ} (h : 2000 ≤ year) (h' : year ≤ 2099) :
    gregorianLeapYear year ↔ isLeapYear (year - 2000) := by
  unfold gregorianLeapYear isLeapYear
  omega

theorem monthDays_eq {year month : ℕ} (hy : 2000 ≤ year) (hy' : year ≤ 2099) (hm : 1 ≤ month) (hm' : month ≤ 12) :
    monthDays year month = daysPerMonth (isLeapYear (year - 2000)) (month - 1) := by
  unfold monthDays daysPerMonth
  simp only [gregorianLeapYear_iff hy hy']
  by_cases hl : isLeapYear (year - 2000)
  · simp only [hl, true_and, if_true]
    interval_cases month <;> rfl
  · simp only [hl, false_and, if_false]
    interval_cases month <;> rfl

theorem dayOfYear_eq (t : CivilDateTime) : t.dayOfYear + 1 = t.day + Blocks.start daysArray (t.month - 1) +
    if isLeapYear (t.year - 2000) ∧ 3 ≤ t.month then 1 else 0 := by
  have hday := t.day_ge
  rw [DateTime.dayOfYear, start_daysPerMonth]
  have hmonth : 2 ≤ t.month - 1 ↔ 3 ≤ t.month := by omega
  simp only [hmonth]
  omega

theorem dayOfYear_lt (t : CivilDateTime) : t.dayOfYear < yearLength (t.year - 2000) := by
  have hday := t.day_ge
  have hlast := t.day_le
  have hmonth := t.month_le
  rw [monthDays_eq t.year_ge t.year_le t.month_ge t.month_le] at hlast
  rw [← start_daysPerMonth_year]
  apply Blocks.start_add_lt
  · omega
  · have := t.month_ge
    omega

theorem yearLength_le (year : ℕ) : yearLength year ≤ 366 := by
  unfold yearLength
  split <;> omega

theorem days_eq (t : CivilDateTime) :
    t.days = 365 * (t.year - 2000) + (t.year - 2000 + 3) / 4 + t.dayOfYear := by
  rw [DateTime.days, start_yearLength]

theorem days_lt (t : CivilDateTime) : t.days < 36525 := by
  have hlt : t.days < Blocks.start yearLength 100 := by
    apply Blocks.start_add_lt (dayOfYear_lt t)
    have := t.year_le
    omega
  rwa [start_yearLength] at hlt

theorem seconds_lt (t : CivilDateTime) : t.seconds < 36525 * 86400 := by
  have hdays := days_lt t
  have hh := t.hour_lt
  have hm := t.minute_lt
  have hs := t.second_lt
  rw [DateTime.seconds]
  omega

end days

section order

theorem days_lt_of_year (h : t.year < u.year) : t.days < Blocks.start yearLength (u.year - 2000) := by
  apply Blocks.start_add_lt (dayOfYear_lt t)
  have := t.year_ge
  omega

theorem dayOfYear_lt_of_month (hyear : t.year = u.year) (h : t.month < u.month) : t.dayOfYear < u.dayOfYear := by
  have hday := t.day_ge
  have hlast := t.day_le
  have hmonth := t.month_ge
  rw [monthDays_eq t.year_ge t.year_le t.month_ge t.month_le] at hlast
  have hlt : t.dayOfYear < Blocks.start (daysPerMonth (isLeapYear (t.year - 2000))) (u.month - 1) := by
    apply Blocks.start_add_lt
    · omega
    · omega
  refine hlt.trans_le ?_
  rw [DateTime.dayOfYear, hyear]
  exact Nat.le_add_right _ _

theorem days_lt_of_date (h : t.year < u.year ∨ t.year = u.year ∧ (t.month < u.month ∨
    t.month = u.month ∧ t.day < u.day)) : t.days < u.days := by
  rcases h with h | ⟨hyear, h⟩
  · exact (days_lt_of_year h).trans_le (Nat.le_add_right _ _)
  · have hdoy : t.dayOfYear < u.dayOfYear := by
      rcases h with h | ⟨hmonth, h⟩
      · exact dayOfYear_lt_of_month hyear h
      · have hday := t.day_ge
        rw [DateTime.dayOfYear, DateTime.dayOfYear, hyear, hmonth]
        omega
    rw [DateTime.days, DateTime.days, hyear]
    exact Nat.add_lt_add_left hdoy _

theorem seconds_lt_of_before (h : t.Before u) : t.seconds < u.seconds := by
  have hh := t.hour_lt
  have hm := t.minute_lt
  have hs := t.second_lt
  have htime : t.days < u.days ∨ t.days = u.days ∧ (t.hour < u.hour ∨ t.hour = u.hour ∧
      (t.minute < u.minute ∨ t.minute = u.minute ∧ t.second < u.second)) := by
    rcases h with h | ⟨hyear, h | ⟨hmonth, h | ⟨hday, h⟩⟩⟩
    · exact Or.inl (days_lt_of_date (Or.inl h))
    · exact Or.inl (days_lt_of_date (Or.inr ⟨hyear, Or.inl h⟩))
    · exact Or.inl (days_lt_of_date (Or.inr ⟨hyear, Or.inr ⟨hmonth, h⟩⟩))
    · refine Or.inr ⟨?_, h⟩
      rw [DateTime.days, DateTime.days, DateTime.dayOfYear, DateTime.dayOfYear, hyear, hmonth, hday]
  rw [DateTime.seconds, DateTime.seconds]
  omega

theorem before_or_eq_or_before (t u : DateTime) : t.Before u ∨ t = u ∨ u.Before t := by
  rw [DateTime.mk.injEq t.year t.month t.day t.hour t.minute t.second]
  unfold DateTime.Before
  omega

theorem before_iff : t.Before u ↔ t.seconds < u.seconds := by
  constructor
  · exact seconds_lt_of_before
  · intro h
    rcases before_or_eq_or_before t.toDateTime u.toDateTime with hb | heq | hb
    · exact hb
    · rw [heq] at h
      exact absurd h (lt_irrefl _)
    · exact absurd (seconds_lt_of_before hb) (lt_asymm h)

theorem eq_of_seconds (h : t.seconds = u.seconds) : t.toDateTime = u.toDateTime := by
  rcases before_or_eq_or_before t.toDateTime u.toDateTime with hb | heq | hb
  · exact absurd h (seconds_lt_of_before hb).ne
  · exact heq
  · exact absurd h (seconds_lt_of_before hb).ne'

end order

section decoder

theorem exists_civilDateTime (h : n < 36525 * 86400) : ∃ t : CivilDateTime, t.seconds = n := by
  have hdays : n / 60 / 60 / 24 < Blocks.start yearLength 100 := by
    rw [start_yearLength]
    omega
  obtain ⟨year, doy, hyear, hdoy, hn⟩ := Blocks.exists_block hdays
  rw [← start_daysPerMonth_year] at hdoy
  obtain ⟨i, day, hi, hday, hdn⟩ := Blocks.exists_block hdoy
  have hsub : year + 2000 - 2000 = year := Nat.add_sub_cancel year 2000
  have hmonth := @monthDays_eq (year + 2000) (i + 1) (by omega) (by omega) (by omega) (by omega)
  rw [hsub, Nat.add_sub_cancel] at hmonth
  let t : CivilDateTime := {
    year := year + 2000, month := i + 1, day := day + 1
    hour := n / 60 / 60 % 24, minute := n / 60 % 60, second := n % 60
    year_ge := by omega, year_le := by omega, month_ge := by omega, month_le := by omega
    day_ge := by omega, day_le := by omega
    hour_lt := by omega, minute_lt := by omega, second_lt := by omega }
  have hd : t.days = n / 60 / 60 / 24 := by
    change Blocks.start yearLength (year + 2000 - 2000) +
      (Blocks.start (daysPerMonth (isLeapYear (year + 2000 - 2000))) (i + 1 - 1) + (day + 1 - 1)) = _
    rw [hsub, Nat.add_sub_cancel, Nat.add_sub_cancel, hn, hdn]
  refine ⟨t, ?_⟩
  rw [DateTime.seconds, hd]
  change ((n / 60 / 60 / 24 * 24 + n / 60 / 60 % 24) * 60 + n / 60 % 60) * 60 + n % 60 = n
  omega

theorem setDateTimeWord_seconds (setDateTime : DateTime → RtcTime) (t : CivilDateTime) :
    setDateTimeWord setDateTime (t.seconds + 946681200) = some (setDateTime t.toDateTime) := by
  have hlt := seconds_lt t
  have hdays := days_lt t
  have hy := t.year_ge
  have hm := t.month_ge
  have hd := t.day_ge
  have hlast := t.day_le
  rw [monthDays_eq t.year_ge t.year_le t.month_ge t.month_le] at hlast
  have hbase : (t.seconds + 946681200 + 0x100000000 - 946681200) % 0x100000000 = t.seconds := by omega
  have hh := t.hour_lt
  have hmin := t.minute_lt
  have hs := t.second_lt
  have hsec : t.seconds % 60 = t.second ∧ t.seconds / 60 % 60 = t.minute ∧ t.seconds / 60 / 60 % 24 = t.hour ∧
      t.seconds / 60 / 60 / 24 % 0x10000 = t.days := by
    rw [DateTime.seconds]
    omega
  have hyear : Blocks.locate yearLength 0x10000 0 t.days = some (t.year - 2000, t.dayOfYear) := by
    have := t.year_le
    exact Blocks.locate_iff.mpr ⟨by omega, dayOfYear_lt t, rfl⟩
  have hmonth : Blocks.locate (daysPerMonth ((t.year - 2000) % 4 = 0)) 12 0 t.dayOfYear =
      some (t.month - 1, t.day - 1) := by
    have := t.month_le
    have hday : t.day ≤ daysPerMonth ((t.year - 2000) % 4 = 0) (t.month - 1) := hlast
    exact Blocks.locate_iff.mpr ⟨by omega, by omega, rfl⟩
  unfold setDateTimeWord
  simp only [hbase, hsec, hyear, Option.bind_some, hmonth, Option.map_some]
  have hy' : t.year - 2000 + 2000 = t.year := by omega
  have hm' : t.month - 1 + 1 = t.month := by omega
  have hd' : t.day - 1 + 1 = t.day := by omega
  rw [hy', hm', hd']

end decoder

section encoder

/-- The days by which `date2days` is off. -/
def skew (t : DateTime) : ℤ :=
  if isLeapYear (t.year - 2000) then if t.month = 2 then 1 else if 3 ≤ t.month then -1 else 0 else 0

theorem skew_eq_one_iff (t : DateTime) : isLeapYear (t.year - 2000) ∧ t.month = 2 ↔ skew t = 1 := by
  unfold skew
  split_ifs <;> simp [*]

theorem skew_eq_neg_iff (t : DateTime) : isLeapYear (t.year - 2000) ∧ 3 ≤ t.month ↔ skew t = -1 := by
  unfold skew
  split_ifs <;> simp [*]

theorem skew_bounds (t : DateTime) : -1 ≤ skew t ∧ skew t ≤ 1 := by
  unfold skew
  split_ifs <;> decide

theorem skew_cases (t : CivilDateTime) :
    skew t = 0 ∧ (isLeapYear (t.year - 2000) → t.month = 1 ∧ t.dayOfYear ≤ 30) ∨
    skew t = 1 ∧ isLeapYear (t.year - 2000) ∧ t.month = 2 ∧ 31 ≤ t.dayOfYear ∧ t.dayOfYear ≤ 59 ∨
    skew t = -1 ∧ isLeapYear (t.year - 2000) ∧ 3 ≤ t.month ∧ 60 ≤ t.dayOfYear := by
  have hmonth := t.month_ge
  have hday := t.day_ge
  have hlast := t.day_le
  have hdoy := dayOfYear_eq t
  unfold skew
  by_cases hl : isLeapYear (t.year - 2000)
  · by_cases hfeb : t.month = 2
    · rw [monthDays, if_pos hfeb, if_pos ((gregorianLeapYear_iff t.year_ge t.year_le).mpr hl)] at hlast
      have hstart : Blocks.start daysArray (2 - 1) = 31 := rfl
      rw [if_neg (fun h => absurd h.2 (by omega)), hfeb, hstart] at hdoy
      rw [if_pos hl, if_pos hfeb]
      exact Or.inr (Or.inl ⟨rfl, hl, hfeb, by omega, by omega⟩)
    · by_cases hmar : 3 ≤ t.month
      · have hstart : Blocks.start daysArray 2 ≤ Blocks.start daysArray (t.month - 1) := Blocks.start_mono (by omega)
        have htwo : Blocks.start daysArray 2 = 59 := rfl
        rw [if_pos ⟨hl, hmar⟩] at hdoy
        rw [if_pos hl, if_neg hfeb, if_pos hmar]
        exact Or.inr (Or.inr ⟨rfl, hl, hmar, by omega⟩)
      · have hjan : t.month = 1 := by omega
        rw [if_neg (fun h => hmar h.2), hjan] at hdoy
        rw [hjan] at hlast
        have hstart : Blocks.start daysArray (1 - 1) = 0 := rfl
        have hlen : monthDays t.year 1 = 31 := rfl
        rw [if_pos hl, if_neg hfeb, if_neg hmar]
        exact Or.inl ⟨rfl, fun _ => ⟨hjan, by omega⟩⟩
  · rw [if_neg hl]
    exact Or.inl ⟨rfl, fun h => absurd h hl⟩

theorem date2days_eq (t : CivilDateTime) : (date2days t.year t.month t.day : ℤ) = t.days + skew t := by
  have hy := t.year_ge
  have hy' := t.year_le
  have hday := t.day_ge
  have hlast := t.day_le
  have hmonth := t.month_le
  have hdoy := dayOfYear_eq t
  have hdlt := dayOfYear_lt t
  have hdays := days_eq t
  have hyear : (t.year + 0x10000 - 2000) % 0x10000 = t.year - 2000 := by omega
  have hlen := yearLength_le (t.year - 2000)
  have hmod : (t.day + Blocks.start daysArray (t.month - 1)) % 0x10000 =
      t.day + Blocks.start daysArray (t.month - 1) := by omega
  simp only [date2days, hyear, hmod, skew]
  by_cases hl : isLeapYear (t.year - 2000)
  · by_cases hfeb : t.month = 2
    · rw [if_neg (fun h => absurd h.2 (by omega))] at hdoy
      rw [if_pos ⟨hfeb, hl⟩, if_pos hl, if_pos hfeb]
      omega
    · rw [if_neg (fun h => hfeb h.1), if_pos hl, if_neg hfeb]
      by_cases hmar : 3 ≤ t.month
      · rw [if_pos ⟨hl, hmar⟩] at hdoy
        rw [if_pos hmar]
        omega
      · rw [if_neg (fun h => hmar h.2)] at hdoy
        rw [if_neg hmar]
        omega
  · rw [if_neg (fun h => hl h.1)] at hdoy
    rw [if_neg (fun h => hl h.2), if_neg hl]
    omega

theorem long_fits {v : ℤ} (h : 0 ≤ v) (h' : v < 0x80000000) : long o v = some v := if_pos ⟨by omega, h'⟩

theorem long_wraps (v : ℤ) : ∃ w, long .wraps v = some w ∧ w % 0x100000000 = v % 0x100000000 := by
  unfold long
  split
  · exact ⟨v, rfl, rfl⟩
  · refine ⟨_, rfl, ?_⟩
    omega

theorem long_undefined {v : ℤ} (h : 0x80000000 ≤ v) : long .undefined v = none := if_neg (by omega)

theorem bind_chain {f : ℤ → Option ℤ} {d h m s : ℤ} (h₁ : f (d * 24) = some (d * 24))
    (h₂ : f (d * 24 + h) = some (d * 24 + h)) (h₃ : f ((d * 24 + h) * 60) = some ((d * 24 + h) * 60))
    (h₄ : f ((d * 24 + h) * 60 + m) = some ((d * 24 + h) * 60 + m)) :
    (do
      let h ← f ((← f (d * 24)) + h)
      let m ← f ((← f (h * 60)) + m)
      f ((← f (m * 60)) + s)) = (f (((d * 24 + h) * 60 + m) * 60)).bind fun v => f (v + s) := by
  simp only [Option.bind_eq_bind, h₁, h₂, h₃, h₄, Option.bind_some]

theorem time2long_eq {days hours minutes seconds : ℕ} (hd : days < 40000) (hh : hours < 24) (hm : minutes < 60) :
    time2long o days hours minutes seconds =
      (long o ((((days : ℤ) * 24 + hours) * 60 + minutes) * 60)).bind fun v => long o (v + seconds) := by
  have h₁ : long o (days * 24) = some (days * 24 : ℤ) := long_fits (by omega) (by omega)
  have h₂ : long o ((days : ℤ) * 24 + hours) = some (days * 24 + hours : ℤ) := long_fits (by omega) (by omega)
  have h₃ : long o (((days : ℤ) * 24 + hours) * 60) = some ((days * 24 + hours) * 60 : ℤ) :=
    long_fits (by omega) (by omega)
  have h₄ : long o (((days : ℤ) * 24 + hours) * 60 + minutes) = some ((days * 24 + hours) * 60 + minutes : ℤ) :=
    long_fits (by omega) (by omega)
  exact bind_chain h₁ h₂ h₃ h₄

theorem time2long_fits {days hours minutes seconds : ℕ} (hd : days < 40000) (hh : hours < 24) (hm : minutes < 60)
    (hfits : ((days * 24 + hours) * 60 + minutes) * 60 + seconds < 0x80000000) :
    time2long o days hours minutes seconds =
      some ((((days * 24 + hours) * 60 + minutes) * 60 + seconds : ℕ) : ℤ) := by
  rw [time2long_eq hd hh hm, long_fits (by omega) (by omega), Option.bind_some, long_fits (by omega) (by omega),
    Option.some.injEq]
  omega

theorem time2long_undefined {days hours minutes seconds : ℕ} (hd : days < 40000) (hh : hours < 24)
    (hm : minutes < 60) (hover : 0x80000000 ≤ ((days * 24 + hours) * 60 + minutes) * 60 + seconds) :
    time2long .undefined days hours minutes seconds = none := by
  rw [time2long_eq hd hh hm]
  by_cases h : ((days * 24 + hours) * 60 + minutes) * 60 < 0x80000000
  · rw [long_fits (by omega) (by omega), Option.bind_some]
    exact long_undefined (by omega)
  · rw [long_undefined (by omega)]
    rfl

theorem time2long_wraps {days hours minutes seconds : ℕ} (hd : days < 40000) (hh : hours < 24)
    (hm : minutes < 60) : ∃ w, time2long .wraps days hours minutes seconds = some w ∧
      w % 0x100000000 = (((days * 24 + hours) * 60 + minutes) * 60 + seconds : ℕ) % 0x100000000 := by
  obtain ⟨v, hv, hveq⟩ := long_wraps ((((days : ℤ) * 24 + hours) * 60 + minutes) * 60)
  obtain ⟨w, hw, hweq⟩ := long_wraps (v + seconds)
  refine ⟨w, ?_, ?_⟩
  · rw [time2long_eq hd hh hm, hv, Option.bind_some, hw]
  · omega

/-- The seconds that `unixtime` counts. -/
def codedSeconds (t : DateTime) : ℤ := t.seconds + 86400 * skew t

theorem codedSeconds_eq (t : CivilDateTime) : codedSeconds t =
    (((date2days t.year t.month t.day * 24 + t.hour) * 60 + t.minute) * 60 + t.second : ℕ) := by
  have hdays := date2days_eq t
  rw [codedSeconds, DateTime.seconds]
  push_cast
  omega

theorem date2days_lt (t : CivilDateTime) : date2days t.year t.month t.day < 36526 := by
  have hdays := date2days_eq t
  have hlt := days_lt t
  have hskew := (skew_bounds t).2
  omega

theorem unixtime_eq_some (t : CivilDateTime) (h : o = .wraps ∨ codedSeconds t < 0x80000000) :
    unixtime o t = some (codedSeconds t + 946681200).toNat := by
  have hd := date2days_lt t
  have hh := t.hour_lt
  have hm := t.minute_lt
  have hs := t.second_lt
  rw [codedSeconds_eq] at h ⊢
  unfold unixtime
  rcases h with rfl | hfits
  · obtain ⟨w, hw, hweq⟩ := @time2long_wraps (date2days t.year t.month t.day) _ _ t.second (by omega) hh hm
    rw [hw, Option.map_some, hweq, Option.some.injEq]
    omega
  · rw [time2long_fits (by omega) hh hm (by omega), Option.map_some, Option.some.injEq]
    omega

theorem unixtime_eq_none (t : CivilDateTime) (h : 0x80000000 ≤ codedSeconds t) : unixtime .undefined t = none := by
  have hd := date2days_lt t
  rw [codedSeconds_eq] at h
  unfold unixtime
  rw [time2long_undefined (by omega) t.hour_lt t.minute_lt (by omega)]
  rfl

end encoder

section roundTrip

/-- The first second that does not fit into `long`. -/
def longOverflows : CivilDateTime where
  year := 2068
  month := 1
  day := 19
  hour := 3
  minute := 14
  second := 8
  year_ge := by decide
  year_le := by decide
  month_ge := Nat.zero_lt_one
  month_le := by decide
  day_ge := by decide
  day_le := by decide
  hour_lt := by decide
  minute_lt := by decide
  second_lt := by decide

theorem longOverflows_seconds : longOverflows.seconds = 0x80000000 := by
  have hdays : longOverflows.days = 24855 := by
    rw [days_eq]
    rfl
  rw [DateTime.seconds, hdays]
  rfl

theorem codedSeconds_lt_iff (t : CivilDateTime) : codedSeconds t < 0x80000000 ↔ t.Before longOverflows := by
  have hdays := days_eq t
  have hlt := (dayOfYear_lt t).trans_le (yearLength_le _)
  rw [before_iff, longOverflows_seconds, codedSeconds, DateTime.seconds]
  have hh := t.hour_lt
  have hm := t.minute_lt
  have hs := t.second_lt
  rcases skew_cases t with ⟨h, -⟩ | ⟨h, hl, -, hdoy⟩ | ⟨h, hl, -, hdoy⟩
  · rw [h]
    omega
  · rw [h]
    unfold isLeapYear at hl
    omega
  · rw [h]
    unfold isLeapYear at hl
    omega

theorem codedSeconds_bounds (t : CivilDateTime) : 0 ≤ codedSeconds t ∧ codedSeconds t < 36525 * 86400 := by
  have hdays := days_eq t
  have hlt := seconds_lt t
  have hy := t.year_le
  rw [codedSeconds, DateTime.seconds] at *
  have hh := t.hour_lt
  have hm := t.minute_lt
  have hs := t.second_lt
  rcases skew_cases t with ⟨h, -⟩ | ⟨h, hl, -, hdoy⟩ | ⟨h, hl, -, hdoy⟩
  · rw [h]
    omega
  · rw [h]
    unfold isLeapYear at hl
    omega
  · rw [h]
    omega

variable {setDateTime : DateTime → RtcTime} {getDateTime : RtcTime → DateTime}

/-- Setting the clock by `unixtime` gives the date and time back. -/
def Restores (setWord : ℕ → Option RtcTime) (getDateTime : RtcTime → DateTime) (o : Overflow) (t : DateTime) : Prop :=
  ((unixtime o t).bind setWord).map getDateTime = some t

/-- `unixtime` has a smaller value for the one than for the other. -/
def Increases (o : Overflow) (t u : DateTime) : Prop :=
  ∃ v w, unixtime o t = some v ∧ unixtime o u = some w ∧ v < w

/-- A time in the February of a leap year, and one of the months behind, but no more than two days later. -/
def Collides (t u : DateTime) : Prop :=
  (gregorianLeapYear t.year ∧ t.month = 2) ∧ (gregorianLeapYear u.year ∧ 3 ≤ u.month) ∧
    u.seconds ≤ t.seconds + 2 * 86400

theorem restores_iff (hget : ∀ t : CivilDateTime, getDateTime (setDateTime t) = t) (t : CivilDateTime) :
    Restores (setDateTimeWord setDateTime) getDateTime o t ↔
      ¬ (gregorianLeapYear t.year ∧ 2 ≤ t.month) ∧ (o = .wraps ∨ t.Before longOverflows) := by
  rw [← codedSeconds_lt_iff, gregorianLeapYear_iff t.year_ge t.year_le, Restores]
  by_cases hfits : o = .wraps ∨ codedSeconds t < 0x80000000
  · obtain ⟨hpos, hlt⟩ := codedSeconds_bounds t
    obtain ⟨t', ht'⟩ := @exists_civilDateTime (codedSeconds t).toNat (by omega)
    have hword : (codedSeconds t + 946681200).toNat = t'.seconds + 946681200 := by omega
    rw [unixtime_eq_some t hfits, Option.bind_some, hword, setDateTimeWord_seconds, Option.map_some, hget,
      Option.some.injEq]
    have hskew : t'.toDateTime = t.toDateTime ↔ skew t = 0 := by
      constructor
      · intro heq
        rw [heq, codedSeconds] at ht'
        rw [codedSeconds] at hpos
        omega
      · intro heq
        apply eq_of_seconds
        rw [ht', codedSeconds, heq]
        omega
    rw [hskew, and_iff_left hfits]
    rcases skew_cases t with ⟨h, hjan⟩ | ⟨h, hl, hm, -⟩ | ⟨h, hl, hm, -⟩
    · refine iff_of_true h fun hfeb => ?_
      have := (hjan hfeb.1).1
      omega
    · simp [h, hl, hm]
    · simp [h, hl, show 2 ≤ t.month by omega]
  · have ho : o = .undefined := by
      cases o with
      | undefined => rfl
      | wraps => exact absurd (Or.inl rfl) hfits
    subst ho
    rw [unixtime_eq_none t (by omega)]
    exact iff_of_false (by simp) fun h => hfits h.2

theorem days_of_later_year (h : t.year < u.year) :
    Blocks.start yearLength (t.year - 2000) + 365 + u.dayOfYear ≤ u.days := by
  have hy := t.year_ge
  have hstart : Blocks.start yearLength (t.year - 2000 + 1) ≤ Blocks.start yearLength (u.year - 2000) := by
    apply Blocks.start_mono
    omega
  rw [Blocks.start_succ] at hstart
  have hlength : 365 ≤ yearLength (t.year - 2000) := Nat.le_add_right _ _
  rw [DateTime.days]
  omega

theorem days_apart (h : t.Before u) (hskew : skew u < skew t) :
    skew t = 1 ∧ skew u = -1 ∨ t.days + 2 ≤ u.days := by
  have hdays : t.days ≤ u.days := by
    have hlt := seconds_lt_of_before h
    rw [DateTime.seconds, DateTime.seconds] at hlt
    have hh := u.hour_lt
    have hm := u.minute_lt
    have hs := u.second_lt
    omega
  have ht := skew_cases t
  have hu := skew_cases u
  have htdays : t.days = Blocks.start yearLength (t.year - 2000) + t.dayOfYear := rfl
  rcases (show t.year = u.year ∨ t.year < u.year by unfold DateTime.Before at h; omega) with hsame | hlater
  · have hudays : u.days = Blocks.start yearLength (t.year - 2000) + u.dayOfYear := by rw [hsame, DateTime.days]
    rw [← hsame] at hu
    by_cases hleap : isLeapYear (t.year - 2000)
    · simp only [hleap, true_and, forall_const] at ht hu
      omega
    · simp only [hleap, false_and, and_false, or_false] at ht hu
      omega
  · have hudays := days_of_later_year hlater
    have htlt : t.dayOfYear < 366 := (dayOfYear_lt t).trans_le (yearLength_le _)
    omega

theorem increases_iff (h : t.Before u) : Increases o t u ↔ ¬ Collides t u ∧ (o = .wraps ∨ u.Before longOverflows) := by
  have hlt := seconds_lt_of_before h
  rw [← codedSeconds_lt_iff, Collides, gregorianLeapYear_iff t.year_ge t.year_le,
    gregorianLeapYear_iff u.year_ge u.year_le]
  by_cases hfits : o = .wraps ∨ codedSeconds u < 0x80000000
  · have hfits' : o = .wraps ∨ codedSeconds t < 0x80000000 := by
      apply hfits.imp_right
      rw [codedSeconds_lt_iff, codedSeconds_lt_iff, before_iff, before_iff]
      exact hlt.trans
    have hpos := codedSeconds_bounds t
    have hvalue : Increases o t u ↔ codedSeconds t < codedSeconds u := by
      unfold Increases
      rw [unixtime_eq_some t hfits', unixtime_eq_some u hfits]
      simp only [Option.some.injEq]
      constructor
      · rintro ⟨v, w, rfl, rfl, hvw⟩
        omega
      · intro hvw
        exact ⟨_, _, rfl, rfl, by omega⟩
    rw [hvalue, and_iff_left hfits, codedSeconds, codedSeconds]
    have hts : t.seconds = ((t.days * 24 + t.hour) * 60 + t.minute) * 60 + t.second := rfl
    have hus : u.seconds = ((u.days * 24 + u.hour) * 60 + u.minute) * 60 + u.second := rfl
    have httime : t.hour < 24 ∧ t.minute < 60 ∧ t.second < 60 := ⟨t.hour_lt, t.minute_lt, t.second_lt⟩
    rw [skew_eq_one_iff, skew_eq_neg_iff]
    by_cases hcollides : skew t = 1 ∧ skew u = -1
    · rw [hcollides.1, hcollides.2]
      omega
    · have hle := skew_bounds t
      have hge := skew_bounds u
      by_cases hskew : skew u < skew t
      · have hapart := (days_apart h hskew).resolve_left hcollides
        omega
      · omega
  · have ho : o = .undefined := by
      cases o with
      | undefined => rfl
      | wraps => exact absurd (Or.inl rfl) hfits
    subst ho
    unfold Increases
    rw [unixtime_eq_none u (by omega)]
    exact iff_of_false (by simp) fun h => hfits h.2

theorem bcd2dec_dec2bcd (h : n < 100) : bcd2dec (dec2bcd n) = n := by
  have hbcd : (n / 10 * 16 + n % 10) % 0x100 = n / 10 * 16 + n % 10 := by omega
  unfold bcd2dec dec2bcd
  rw [hbcd]
  omega

theorem monthDays_le (year month : ℕ) : monthDays year month ≤ 31 := by
  unfold monthDays
  split_ifs <;> omega

theorem ds3231GetDateTime_set (t : CivilDateTime) : ds3231GetDateTime (ds3231SetDateTime t) = t := by
  have hy := t.year_ge
  have hy' := t.year_le
  have hmonth := t.month_le
  have hday := t.day_le.trans (monthDays_le _ _)
  have hh := t.hour_lt
  have hm := t.minute_lt
  have hs := t.second_lt
  have hyear : (t.year + 0x10000 - 2000) % 0x100 = t.year - 2000 := by omega
  unfold ds3231GetDateTime ds3231SetDateTime
  simp only [hyear]
  rw [bcd2dec_dec2bcd (by omega), bcd2dec_dec2bcd (by omega), bcd2dec_dec2bcd (by omega), bcd2dec_dec2bcd (by omega),
    bcd2dec_dec2bcd (by omega), bcd2dec_dec2bcd (by omega)]
  rw [Nat.sub_add_cancel hy]

/-- Setting the clock by `unixtime` restores the times that are not in a leap year behind its January, and
`unixtime` grows but from the February of such a year to the two days behind. -/
theorem calendar_roundTrip_iff (o : Overflow) (t u : CivilDateTime) :
    (Restores lpcrtcSetDateTimeWord lpcrtcGetDateTime o t ↔
      ¬ (gregorianLeapYear t.year ∧ 2 ≤ t.month) ∧ (o = .wraps ∨ t.Before longOverflows)) ∧
    (Restores ds3231SetDateTimeWord ds3231GetDateTime o t ↔
      ¬ (gregorianLeapYear t.year ∧ 2 ≤ t.month) ∧ (o = .wraps ∨ t.Before longOverflows)) ∧
    (t.Before u → (Increases o t u ↔ ¬ Collides t u ∧ (o = .wraps ∨ u.Before longOverflows))) := by
  refine ⟨?_, ?_, ?_⟩
  · exact restores_iff (fun _ => rfl) t
  · exact restores_iff ds3231GetDateTime_set t
  · exact increases_iff

/-- The last seconds of the years 2000 and 2099. -/
def lastSecond (year : ℕ) (h : 2000 ≤ year) (h' : year ≤ 2099) : CivilDateTime where
  year := year
  month := 12
  day := 31
  hour := 23
  minute := 59
  second := 59
  year_ge := h
  year_le := h'
  month_ge := by decide
  month_le := by decide
  day_ge := by decide
  day_le := by simp [monthDays]
  hour_lt := by decide
  minute_lt := by decide
  second_lt := by decide

theorem calendar_roundTrip_lastSecond :
    Restores lpcrtcSetDateTimeWord lpcrtcGetDateTime .wraps (lastSecond 2099 (by decide) (by decide)) ∧
    Increases .wraps (lastSecond 2000 (by decide) (by decide)) (lastSecond 2099 (by decide) (by decide)) := by
  have h := calendar_roundTrip_iff .wraps (lastSecond 2099 (by decide) (by decide)) (lastSecond 2099 (by decide) (by decide))
  have h' := calendar_roundTrip_iff .wraps (lastSecond 2000 (by decide) (by decide)) (lastSecond 2099 (by decide) (by decide))
  constructor
  · apply h.1.mpr
    exact ⟨fun hleap => absurd hleap.1 (by decide), Or.inl rfl⟩
  · apply (h'.2.2 (Or.inl (by decide))).mpr
    exact ⟨fun hcol => absurd hcol.2.1.1 (by decide), Or.inl rfl⟩

/-- The last of February 2020 is set as the first of March, and counted behind it. -/
theorem calendar_not_roundTrip :
    ¬ Restores lpcrtcSetDateTimeWord lpcrtcGetDateTime .wraps ⟨2020, 2, 29, 12, 0, 0⟩ ∧
    DateTime.Before ⟨2020, 2, 29, 12, 0, 0⟩ ⟨2020, 3, 1, 12, 0, 0⟩ ∧
    unixtime .wraps ⟨2020, 2, 29, 12, 0, 0⟩ = some 1583060400 ∧
    unixtime .wraps ⟨2020, 3, 1, 12, 0, 0⟩ = some 1582974000 := by
  refine ⟨?_, Or.inr ⟨rfl, Or.inl (by decide)⟩, ?_, ?_⟩
  · unfold Restores
    decide +kernel
  · decide +kernel
  · decide +kernel

end roundTrip

end Lpc1788Libraries.Rtc

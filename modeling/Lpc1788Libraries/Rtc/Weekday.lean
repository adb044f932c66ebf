import Lpc1788Libraries.Rtc.Gregorian

namespace Lpc1788Libraries.Rtc

namespace Date

/-- The day of the week that the clock keeps, from 1 for Monday to 7 for Sunday. -/
def dayOfWeek (d : Date) : ℕ := dow d.year d.month d.day

/-- The sum that `dow` divides by 7. -/
def dowSum (d : Date) : ℕ :=
  let y := if d.month < 3 then d.year - 1 else d.year
  y + y / 4 + y / 400 + dowArray (d.month - 1) + d.day - y / 100

end Date

variable {d : Date}

theorem dayOfWeek_eq (h : 1 ≤ d.year) (h' : d.year ≤ 65535) : d.dayOfWeek = (d.dowSum + 6) % 7 + 1 := by
  have hyear : (if d.month < 3 then (d.year + 0xffff) % 0x10000 else d.year) =
      if d.month < 3 then d.year - 1 else d.year := by
    split
    · omega
    · rfl
  have hround : ∀ n, (if n % 7 = 0 then 7 else n % 7) = (n + 6) % 7 + 1 := by
    intro n
    split <;> omega
  unfold Date.dayOfWeek dow Date.dowSum
  rw [hyear]
  exact hround _

theorem dayOfWeek_range (h : 1 ≤ d.year) (h' : d.year ≤ 65535) : 1 ≤ d.dayOfWeek ∧ d.dayOfWeek ≤ 7 := by
  rw [dayOfWeek_eq h h']
  omega

section step

theorem div_pred (k : ℕ) {year : ℕ} (hy : 1 ≤ year) :
    year / k = (year - 1) / k + if year % k = 0 then 1 else 0 := by
  obtain ⟨y, rfl⟩ := Nat.exists_eq_add_of_le' hy
  rw [Nat.succ_div, Nat.add_sub_cancel]
  simp only [Nat.dvd_iff_mod_eq_zero]

theorem leapYears_pred {year : ℕ} (hy : 1 ≤ year) : year / 4 + year / 400 + (year - 1) / 100 =
    (year - 1) / 4 + (year - 1) / 400 + year / 100 + if gregorianLeapYear year then 1 else 0 := by
  rw [div_pred 4 hy, div_pred 100 hy, div_pred 400 hy]
  by_cases h4 : year % 4 = 0
  · by_cases h100 : year % 100 = 0
    · by_cases h400 : year % 400 = 0
      · have hl : gregorianLeapYear year := ⟨h4, Or.inr h400⟩
        rw [if_pos h4, if_pos h100, if_pos h400, if_pos hl]
        omega
      · have hl : ¬ gregorianLeapYear year := fun h => h.2.elim (fun h => h h100) (fun h => h400 h)
        rw [if_pos h4, if_pos h100, if_neg h400, if_neg hl]
        omega
    · have h400 : year % 400 ≠ 0 := by omega
      have hl : gregorianLeapYear year := ⟨h4, Or.inl h100⟩
      rw [if_pos h4, if_neg h100, if_neg h400, if_pos hl]
      omega
  · have h100 : year % 100 ≠ 0 := by omega
    have h400 : year % 400 ≠ 0 := by omega
    have hl : ¬ gregorianLeapYear year := fun h => h4 h.1
    rw [if_neg h4, if_neg h100, if_neg h400, if_neg hl]
    omega

theorem dowSum_month {year month : ℕ} (hy : 1 ≤ year) (hm : 1 ≤ month) (hm' : month < 12) :
    (Date.dowSum ⟨year, month + 1, 1⟩) % 7 = (Date.dowSum ⟨year, month, monthDays year month⟩ + 1) % 7 := by
  by_cases hfeb : month = 2
  · rw [hfeb]
    have hlen : monthDays year 2 = if gregorianLeapYear year then 29 else 28 := rfl
    have htwo : dowArray 2 = 2 := rfl
    have hone : dowArray 1 = 3 := rfl
    rw [hlen]
    simp only [Date.dowSum, Nat.reduceLT, if_true, if_false, Nat.reduceAdd, Nat.reduceSub, htwo, hone]
    have hleap := leapYears_pred hy
    have hle : year / 100 ≤ year / 4 := Nat.div_le_div_left (by decide) (by decide)
    have hle' : (year - 1) / 100 ≤ (year - 1) / 4 := Nat.div_le_div_left (by decide) (by decide)
    generalize year / 4 = a at *
    generalize year / 400 = b at *
    generalize year / 100 = c at *
    generalize (year - 1) / 4 = a' at *
    generalize (year - 1) / 400 = b' at *
    generalize (year - 1) / 100 = c' at *
    split at hleap
    · rename_i hl
      rw [if_pos hl]
      omega
    · rename_i hl
      rw [if_neg hl]
      omega
  · have hlen : monthDays year month = if month = 4 ∨ month = 6 ∨ month = 9 ∨ month = 11 then 30 else 31 := if_neg hfeb
    have hstep : (dowArray month + 1) % 7 = (dowArray (month - 1) + monthDays year month + 1) % 7 := by
      rw [hlen]
      interval_cases month <;> first | rfl | exact absurd rfl hfeb
    have hsame : (if month + 1 < 3 then year - 1 else year) = if month < 3 then year - 1 else year := by
      split_ifs <;> omega
    simp only [Date.dowSum, hsame, Nat.add_sub_cancel]
    split <;> omega

theorem dowSum_year {year : ℕ} (hy : 1 ≤ year) :
    (Date.dowSum ⟨year + 1, 1, 1⟩) % 7 = (Date.dowSum ⟨year, 12, 31⟩ + 1) % 7 := by
  have hfirst : dowArray 0 = 0 := rfl
  have hlast : dowArray 11 = 4 := rfl
  simp only [Date.dowSum, Nat.reduceLT, if_true, if_false, Nat.reduceSub, Nat.add_sub_cancel, hfirst, hlast]
  omega

theorem dowSum_next (h : d.Valid) : d.next.dowSum % 7 = (d.dowSum + 1) % 7 := by
  rcases next_cases h with ⟨-, hn⟩ | ⟨hlast, hlt, hn⟩ | ⟨hlast, hdec, hn⟩
  · rw [hn]
    simp only [Date.dowSum]
    split <;> omega
  · rw [hn, dowSum_month h.year_pos h.month_pos hlt, ← hlast]
  · rw [hn, dowSum_year h.year_pos, ← hdec, ← hlast]

end step

/-- `dow` goes round the week with the calendar, and the year 2000 starts on a Saturday. -/
theorem dayOfWeek_next :
    (∀ d : Date, d.Valid → d.year ≤ 65535 → 1 ≤ d.dayOfWeek ∧ d.dayOfWeek ≤ 7 ∧
      (d.next.year ≤ 65535 → d.next.dayOfWeek = d.dayOfWeek % 7 + 1)) ∧ epoch.dayOfWeek = 6 := by
  constructor
  · intro d hv hy
    obtain ⟨hpos, hle⟩ := dayOfWeek_range hv.year_pos hy
    refine ⟨hpos, hle, ?_⟩
    intro hy'
    have hsum := dowSum_next hv
    rw [dayOfWeek_eq hv.year_pos hy, dayOfWeek_eq (valid_next hv).year_pos hy']
    omega
  · rfl

/-- The leap day of 2000, with the century rule, was a Tuesday. -/
theorem dayOfWeek_next_leapDay : Date.dayOfWeek ⟨2000, 3, 1⟩ = Date.dayOfWeek ⟨2000, 2, 29⟩ % 7 + 1 :=
  (dayOfWeek_next.1 ⟨2000, 2, 29⟩ ⟨by decide, by decide, by decide, by decide, by decide⟩ (by decide)).2.2 (by decide)

theorem dayOfWeek_days (h : d.Valid) (hc : InCentury d) : d.dayOfWeek = (d.days + 5) % 7 + 1 := by
  have hiter : ∀ n, n < 36525 → (Date.next^[n] epoch).dowSum % 7 = (n + 6) % 7 := by
    intro n hn
    induction n with
    | zero => rfl
    | succ n ih =>
      have hsum := dowSum_next (valid_iterate epoch_valid n)
      have hn' := ih (by omega)
      rw [Function.iterate_succ_apply', hsum]
      omega
  have hlt := days_lt_century h hc
  obtain ⟨hc', hdays⟩ := days_iterate hlt
  have heq := days_inj (valid_iterate epoch_valid _) hc' h hc hdays
  have hsum := hiter d.days hlt
  have hy' := hc.2
  rw [heq] at hsum
  rw [dayOfWeek_eq h.year_pos (by omega)]
  omega

end Lpc1788Libraries.Rtc

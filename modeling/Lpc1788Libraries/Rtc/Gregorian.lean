import Lpc1788Libraries.Rtc.CalendarRoundTrip
import Mathlib.Data.Set.Function

namespace Lpc1788Libraries.Rtc

open Lpc1788Libraries.Support

structure Date where
  year : ℕ
  month : ℕ
  day : ℕ
  deriving DecidableEq

namespace Date

structure Valid (d : Date) : Prop where
  year_pos : 1 ≤ d.year
  month_pos : 1 ≤ d.month
  month_le : d.month ≤ 12
  day_pos : 1 ≤ d.day
  day_le : d.day ≤ monthDays d.year d.month

/-- The day after. -/
def next (d : Date) : Date :=
  if d.day < monthDays d.year d.month then ⟨d.year, d.month, d.day + 1⟩
  else if d.month < 12 then ⟨d.year, d.month + 1, 1⟩
  else ⟨d.year + 1, 1, 1⟩

def atTime (d : Date) (hour minute second : ℕ) : DateTime := ⟨d.year, d.month, d.day, hour, minute, second⟩

def days (d : Date) : ℕ := (d.atTime 0 0 0).days

end Date

/-- The date from which the days are counted. -/
def epoch : Date := ⟨2000, 1, 1⟩

def InCentury (d : Date) : Prop := 2000 ≤ d.year ∧ d.year ≤ 2099

variable {d d' : Date} {n : ℕ}

section next

theorem monthDays_pos (year month : ℕ) : 1 ≤ monthDays year month := by
  unfold monthDays
  split_ifs <;> omega

theorem next_cases (h : d.Valid) :
    (d.day < monthDays d.year d.month ∧ d.next = ⟨d.year, d.month, d.day + 1⟩) ∨
    (d.day = monthDays d.year d.month ∧ d.month < 12 ∧ d.next = ⟨d.year, d.month + 1, 1⟩) ∨
    (d.day = 31 ∧ d.month = 12 ∧ d.next = ⟨d.year + 1, 1, 1⟩) := by
  have hday := h.day_le
  have hmonth := h.month_le
  unfold Date.next
  by_cases hlt : d.day < monthDays d.year d.month
  · exact Or.inl ⟨hlt, if_pos hlt⟩
  · have heq : d.day = monthDays d.year d.month := by omega
    rw [if_neg hlt]
    by_cases hdec : d.month < 12
    · exact Or.inr (Or.inl ⟨heq, hdec, if_pos hdec⟩)
    · have hm : d.month = 12 := by omega
      have hlast : monthDays d.year d.month = 31 := by rw [hm]; rfl
      exact Or.inr (Or.inr ⟨heq.trans hlast, hm, if_neg hdec⟩)

theorem valid_next (h : d.Valid) : d.next.Valid := by
  have hy := h.year_pos
  have hm := h.month_pos
  have hm' := h.month_le
  rcases next_cases h with ⟨hlt, hn⟩ | ⟨-, hlt, hn⟩ | ⟨-, -, hn⟩
  · rw [hn]
    exact ⟨hy, hm, hm', Nat.le_add_left _ _, hlt⟩
  · rw [hn]
    exact ⟨hy, Nat.le_add_left _ _, hlt, le_rfl, monthDays_pos _ _⟩
  · rw [hn]
    exact ⟨Nat.le_add_left _ _, le_rfl, Nat.le_add_left 1 11, le_rfl, monthDays_pos _ _⟩

theorem valid_iterate (h : d.Valid) (n : ℕ) : (Date.next^[n] d).Valid := by
  induction n with
  | zero => exact h
  | succ n ih =>
    rw [Function.iterate_succ_apply']
    exact valid_next ih

theorem year_le_next (h : d.Valid) : d.year ≤ d.next.year := by
  rcases next_cases h with ⟨-, hn⟩ | ⟨-, -, hn⟩ | ⟨-, -, hn⟩ <;> rw [hn]
  exact Nat.le_succ _

end next

section days

theorem days_def (d : Date) : d.days = Blocks.start yearLength (d.year - 2000) +
    (Blocks.start (daysPerMonth (isLeapYear (d.year - 2000))) (d.month - 1) + (d.day - 1)) := rfl

theorem days_next (h : d.Valid) (hc : InCentury d) : d.next.days = d.days + 1 := by
  have hday := h.day_pos
  have hm := h.month_pos
  have hlen := monthDays_eq hc.1 hc.2 h.month_pos h.month_le
  rcases next_cases h with ⟨-, hn⟩ | ⟨hlast, -, hn⟩ | ⟨hlast, hdec, hn⟩
  · rw [hn, days_def, days_def]
    dsimp only
    omega
  · have hsucc := @Blocks.start_succ (daysPerMonth (isLeapYear (d.year - 2000))) (d.month - 1)
    have hmonth : d.month - 1 + 1 = d.month := by omega
    rw [hmonth] at hsucc
    rw [hn, days_def, days_def]
    dsimp only
    rw [Nat.add_sub_cancel, hsucc]
    omega
  · have hsucc := @Blocks.start_succ (daysPerMonth (isLeapYear (d.year - 2000))) 11
    rw [start_daysPerMonth_year] at hsucc
    have hyear : d.year + 1 - 2000 = d.year - 2000 + 1 := by have := hc.1; omega
    have hstart : Blocks.start (daysPerMonth (isLeapYear (d.year + 1 - 2000))) (1 - 1) = 0 := rfl
    have hlen' : daysPerMonth (isLeapYear (d.year - 2000)) 11 = 31 := by
      rw [hdec] at hlen
      exact hlen.symm
    have hmonth : d.month - 1 = 11 := by omega
    rw [hn, days_def, days_def]
    dsimp only
    rw [hstart, hyear, Blocks.start_succ, hmonth, hlast]
    omega

theorem year_le_of_days (h : d.days < 36525) : d.year ≤ 2099 := by
  by_contra hgt
  have hmono : Blocks.start yearLength 100 ≤ Blocks.start yearLength (d.year - 2000) := Blocks.start_mono (by omega)
  have hall : Blocks.start yearLength 100 = 36525 := by rw [start_yearLength]
  rw [days_def] at h
  omega

theorem epoch_valid : epoch.Valid := ⟨by decide, by decide, by decide, by decide, by decide⟩

theorem days_iterate (h : n < 36525) : InCentury (Date.next^[n] epoch) ∧ (Date.next^[n] epoch).days = n := by
  induction n with
  | zero => exact ⟨⟨by decide, by decide⟩, rfl⟩
  | succ n ih =>
    obtain ⟨hc, hdays⟩ := ih (by omega)
    have hv := valid_iterate epoch_valid n
    have hnext := days_next hv hc
    rw [hdays] at hnext
    rw [Function.iterate_succ_apply']
    exact ⟨⟨hc.1.trans (year_le_next hv), year_le_of_days (by omega)⟩, hnext⟩

/-- A date of the hundred years, with a time of the day. -/
def Date.civil (d : Date) (h : d.Valid) (hc : InCentury d) (hour minute second : ℕ)
    (ht : hour < 24 ∧ minute < 60 ∧ second < 60) : CivilDateTime where
  toDateTime := d.atTime hour minute second
  year_ge := hc.1
  year_le := hc.2
  month_ge := h.month_pos
  month_le := h.month_le
  day_ge := h.day_pos
  day_le := h.day_le
  hour_lt := ht.1
  minute_lt := ht.2.1
  second_lt := ht.2.2

theorem days_inj (h : d.Valid) (hc : InCentury d) (h' : d'.Valid) (hc' : InCentury d') (he : d.days = d'.days) : d = d' := by
  have hsec : (d.civil h hc 0 0 0 (by decide)).seconds =
      (d'.civil h' hc' 0 0 0 (by decide)).seconds := by
    change ((d.days * 24 + 0) * 60 + 0) * 60 + 0 = ((d'.days * 24 + 0) * 60 + 0) * 60 + 0
    rw [he]
  have heq := eq_of_seconds hsec
  have hy : d.year = d'.year := congrArg DateTime.year heq
  have hm : d.month = d'.month := congrArg DateTime.month heq
  have hd : d.day = d'.day := congrArg DateTime.day heq
  cases d
  cases d'
  simp only at hy hm hd
  rw [hy, hm, hd]

theorem days_lt_century (h : d.Valid) (hc : InCentury d) : d.days < 36525 :=
  days_lt (d.civil h hc 0 0 0 (by decide))

theorem bijOn_iterate_next :
    Set.BijOn (fun n => Date.next^[n] epoch) {n | n < 36525} {d | d.Valid ∧ InCentury d} := by
  refine ⟨?_, ?_, ?_⟩
  · intro n hn
    exact ⟨valid_iterate epoch_valid n, (days_iterate hn).1⟩
  · intro n hn k hk he
    have hdays := congrArg Date.days he
    dsimp only at hdays
    rwa [(days_iterate hn).2, (days_iterate hk).2] at hdays
  · rintro d ⟨hv, hc⟩
    have hlt := days_lt_century hv hc
    obtain ⟨hc', hdays⟩ := days_iterate hlt
    exact ⟨d.days, hlt, days_inj (valid_iterate epoch_valid _) hc' hv hc hdays⟩

end days

section decoder

theorem civil_seconds {s : ℕ} (hv : (Date.next^[s / 86400] epoch).Valid) (hc : InCentury (Date.next^[s / 86400] epoch))
    (hdays : (Date.next^[s / 86400] epoch).days = s / 86400)
    (ht : s / 3600 % 24 < 24 ∧ s / 60 % 60 < 60 ∧ s % 60 < 60) :
    ((Date.next^[s / 86400] epoch).civil hv hc (s / 3600 % 24) (s / 60 % 60) (s % 60) ht).seconds = s := by
  change (((Date.next^[s / 86400] epoch).days * 24 + s / 3600 % 24) * 60 + s / 60 % 60) * 60 + s % 60 = s
  rw [hdays]
  omega

theorem setDateTimeWord_date (setDateTime : DateTime → RtcTime) {t : ℕ} (ht : 946681200 ≤ t)
    (hday : (t - 946681200) / 86400 < 36525) :
    setDateTimeWord setDateTime t = some (setDateTime ((Date.next^[(t - 946681200) / 86400] epoch).atTime
      ((t - 946681200) / 3600 % 24) ((t - 946681200) / 60 % 60) ((t - 946681200) % 60))) := by
  obtain ⟨s, rfl⟩ := Nat.exists_eq_add_of_le' ht
  rw [Nat.add_sub_cancel] at hday ⊢
  have hv := valid_iterate epoch_valid (s / 86400)
  obtain ⟨hc, hdays⟩ := days_iterate hday
  have hset := setDateTimeWord_seconds setDateTime ((Date.next^[s / 86400] epoch).civil hv hc (s / 3600 % 24)
    (s / 60 % 60) (s % 60) (by omega))
  rwa [civil_seconds hv hc hdays] at hset

end decoder

end Lpc1788Libraries.Rtc

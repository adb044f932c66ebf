import Lpc1788Libraries.Rtc.Weekday

namespace Lpc1788Libraries.Rtc

open Lpc1788Libraries.Support

/-- `unixtime` is a `long` of 32 bits. -/
structure LPCRTCDateTime extends DateTime where
  dayOfWeek : ℕ
  unixtime : ℤ

section text

/-- `%d` -/
def decimal (v : ℤ) : List Char :=
  if v < 0 then '-' :: Nat.toDigits 10 v.natAbs else Nat.toDigits 10 v.natAbs

/-- `%02d` -/
def decimal02 (v : ℤ) : List Char :=
  if v < 0 then decimal v else (Nat.toDigits 10 v.natAbs).leftpad 2 '0'

def strDayOfWeek (dayOfWeek : ℕ) : String :=
  match dayOfWeek with
  | 1 => "Monday"
  | 2 => "Tuesday"
  | 3 => "Wednesday"
  | 4 => "Thursday"
  | 5 => "Friday"
  | 6 => "Saturday"
  | 7 => "Sunday"
  | _ => "Unknown"

def strMonth (month : ℕ) : String :=
  match month with
  | 1 => "January"
  | 2 => "February"
  | 3 => "March"
  | 4 => "April"
  | 5 => "May"
  | 6 => "June"
  | 7 => "July"
  | 8 => "August"
  | 9 => "September"
  | 10 => "October"
  | 11 => "November"
  | 12 => "December"
  | _ => "Unknown"

def strAmPm (hour : ℕ) (uppercase : Bool) : String :=
  if hour < 12 then if uppercase then "AM" else "am" else if uppercase then "PM" else "pm"

def strDaySufix (day : ℕ) : String :=
  if day % 10 = 1 then "st" else if day % 10 = 2 then "nd" else if day % 10 = 3 then "rd" else "th"

end text

section numbers

def hour12 (hour24 : ℕ) : ℕ := if hour24 = 0 then 12 else if hour24 > 12 then hour24 - 12 else hour24

def dayInYear (year month day : ℕ) : ℕ :=
  (date2days year month day + 0x10000 - date2days year 1 1) % 0x10000

def daysInMonth (year month : ℕ) : ℕ :=
  let days := daysArray (month - 1)
  if month = 2 ∧ isLeapYear year then (days + 1) % 0x100 else days

end numbers

/-- `helper` has 11 bytes. -/
def sprintf (s : List Char) : Option (List Char) := if s.length < 11 then some s else none

/-- `buffer` has 255 bytes. -/
def strcat (buffer s : List Char) : Option (List Char) :=
  if (buffer ++ s).length < 255 then some (buffer ++ s) else none

section dateFormat

variable (dt : LPCRTCDateTime)

/-- What a letter of the format adds to `buffer`. -/
def field (c : Char) : Option (List Char) :=
  match c with
  -- Day decoder
  | 'd' => sprintf (decimal02 dt.day)
  | 'j' => sprintf (decimal dt.day)
  | 'l' => some (strDayOfWeek dt.dayOfWeek).toList
  | 'D' => some ((strDayOfWeek dt.dayOfWeek).toList.take 3)
  | 'N' => sprintf (decimal dt.dayOfWeek)
  | 'w' => sprintf (decimal ((dt.dayOfWeek + 7) % 7 : ℕ))
  | 'z' => sprintf (decimal (dayInYear dt.year dt.month dt.day))
  | 'S' => some (strDaySufix dt.day).toList
  -- Month decoder
  | 'm' => sprintf (decimal02 dt.month)
  | 'n' => sprintf (decimal dt.month)
  | 'F' => some (strMonth dt.month).toList
  | 'M' => some ((strMonth dt.month).toList.take 3)
  | 't' => sprintf (decimal (daysInMonth dt.year dt.month))
  -- Year decoder
  | 'Y' => sprintf (decimal dt.year)
  | 'y' => sprintf (decimal02 (dt.year - 2000))
  | 'L' => sprintf (decimal (if isLeapYear dt.year then 1 else 0))
  -- Hour decoder
  | 'H' => sprintf (decimal02 dt.hour)
  | 'G' => sprintf (decimal dt.hour)
  | 'h' => sprintf (decimal02 (hour12 dt.hour))
  | 'g' => sprintf (decimal (hour12 dt.hour))
  | 'A' => some (strAmPm dt.hour true).toList
  | 'a' => some (strAmPm dt.hour false).toList
  -- Minute decoder
  | 'i' => sprintf (decimal02 dt.minute)
  -- Second decoder
  | 's' => sprintf (decimal02 dt.second)
  -- Misc decoder
  | 'U' => sprintf (decimal (dt.unixtime % 0x100000000))
  | c => some [c]

def dateFormatLoop : List Char → List Char → Option (List Char)
  | [], buffer => some buffer
  | c :: dateFormat, buffer =>
    if c.toNat = 0 then some buffer
    else do dateFormatLoop dateFormat (← strcat buffer (← field dt c))

/-- The string that is returned, or nothing where a buffer is written behind its end. -/
def lpcrtcDateFormat (dateFormat : List Char) : Option (List Char) := dateFormatLoop dt dateFormat []

end dateFormat

section meaning

def dayNames : List String :=
  ["Monday", "Tuesday", "Wednesday", "Thursday", "Friday", "Saturday", "Sunday"]

def monthNames : List String :=
  ["January", "February", "March", "April", "May", "June", "July", "August", "September", "October", "November", "December"]

def digits (n : ℕ) : List Char := Nat.toDigits 10 n

def twoDigits (n : ℕ) : List Char := [Nat.digitChar (n / 10), Nat.digitChar (n % 10)]

/-- The days since Monday. The first of January 2000 was a Saturday. -/
def DateTime.weekday (t : DateTime) : ℕ := (t.days + 5) % 7

/-- The days since the first of January. -/
def yearDay (year month day : ℕ) : ℕ := Blocks.start (fun i => monthDays year (i + 1)) (month - 1) + (day - 1)

/-- The English suffix of an ordinal number. -/
def ordinalSuffix (n : ℕ) : String :=
  if n % 100 / 10 = 1 then "th"
  else if n % 10 = 1 then "st" else if n % 10 = 2 then "nd" else if n % 10 = 3 then "rd" else "th"

/-- The seconds of the library, which start 2000 at 946681200. -/
def DateTime.unixSeconds (t : DateTime) : ℕ := 946681200 + t.seconds

def twelveHour (hour : ℕ) : ℕ := (hour + 11) % 12 + 1

/-- The letters of the PHP function `date`. -/
def phpDate (t : DateTime) (c : Char) : List Char :=
  match c with
  | 'd' => twoDigits t.day
  | 'j' => digits t.day
  | 'l' => (dayNames.getD t.weekday "").toList
  | 'D' => (dayNames.getD t.weekday "").toList.take 3
  | 'N' => digits (t.weekday + 1)
  | 'w' => digits ((t.weekday + 1) % 7)
  | 'z' => digits (yearDay t.year t.month t.day)
  | 'S' => (ordinalSuffix t.day).toList
  | 'm' => twoDigits t.month
  | 'n' => digits t.month
  | 'F' => (monthNames.getD (t.month - 1) "").toList
  | 'M' => (monthNames.getD (t.month - 1) "").toList.take 3
  | 't' => digits (monthDays t.year t.month)
  | 'Y' => digits t.year
  | 'y' => twoDigits (t.year % 100)
  | 'L' => digits (if gregorianLeapYear t.year then 1 else 0)
  | 'H' => twoDigits t.hour
  | 'G' => digits t.hour
  | 'h' => twoDigits (twelveHour t.hour)
  | 'g' => digits (twelveHour t.hour)
  | 'A' => if t.hour < 12 then ['A', 'M'] else ['P', 'M']
  | 'a' => if t.hour < 12 then ['a', 'm'] else ['p', 'm']
  | 'i' => twoDigits t.minute
  | 's' => twoDigits t.second
  | 'U' => digits t.unixSeconds
  | c => [c]

/-- The record holds the date and time, with its day of the week and its seconds. -/
structure Consistent (dt : LPCRTCDateTime) (t : DateTime) : Prop where
  date : dt.toDateTime = t
  dayOfWeek : dt.dayOfWeek = t.weekday + 1
  unixtime : dt.unixtime % 0x100000000 = t.unixSeconds

end meaning

variable {n : ℕ}

section digits

theorem decimal_natCast (n : ℕ) : decimal n = digits n := by
  unfold decimal
  rw [if_neg (by omega)]
  rfl

theorem digits_lt_ten (h : n < 10) : digits n = [Nat.digitChar n] := Nat.toDigits_of_lt_base h

theorem digits_ge_ten (h : 10 ≤ n) : digits n = digits (n / 10) ++ [Nat.digitChar (n % 10)] :=
  Nat.toDigits_of_base_le (by decide) h

theorem decimal02_natCast (h : n < 100) : decimal02 n = twoDigits n := by
  unfold decimal02
  rw [if_neg (by omega), Int.natAbs_natCast]
  change (digits n).leftpad 2 '0' = _
  by_cases hten : n < 10
  · have hdiv : n / 10 = 0 := by omega
    have hmod : n % 10 = n := by omega
    rw [digits_lt_ten hten, twoDigits, hdiv, hmod]
    rfl
  · rw [digits_ge_ten (by omega), digits_lt_ten (by omega)]
    rfl

theorem length_digits_le {k : ℕ} (hk : 0 < k) : (digits n).length ≤ k ↔ n < 10 ^ k :=
  Nat.length_toDigits_le_iff (by decide) hk

theorem digits_inj {m : ℕ} (h : digits n = digits m) : n = m := by
  have hn := Nat.ofDigitChars_ten_toDigits (n := n)
  have hm := Nat.ofDigitChars_ten_toDigits (n := m)
  unfold digits at h
  rw [h] at hn
  exact hn.symm.trans hm

theorem sprintf_digits (h : n < 10 ^ 10) : sprintf (digits n) = some (digits n) := by
  have hle := (length_digits_le (by decide : 0 < 10)).mpr h
  exact if_pos (by omega)

theorem sprintf_twoDigits (n : ℕ) : sprintf (twoDigits n) = some (twoDigits n) := rfl

end digits

section calendar

variable {dt : LPCRTCDateTime} {t : CivilDateTime}

theorem strDayOfWeek_eq (h : n < 7) : strDayOfWeek (n + 1) = dayNames.getD n "" := by
  interval_cases n <;> rfl

theorem strMonth_eq (h : 1 ≤ n) (h' : n ≤ 12) : strMonth n = monthNames.getD (n - 1) "" := by
  interval_cases n <;> rfl

theorem hour12_eq (h : n < 24) : hour12 n = twelveHour n := by
  unfold hour12 twelveHour
  split_ifs <;> omega

theorem isLeapYear_iff (t : CivilDateTime) : isLeapYear t.year ↔ gregorianLeapYear t.year := by
  have hy := t.year_ge
  have hy' := t.year_le
  unfold isLeapYear gregorianLeapYear
  omega

theorem daysInMonth_eq (t : CivilDateTime) : daysInMonth t.year t.month = monthDays t.year t.month := by
  have hm := t.month_ge
  have hm' := t.month_le
  have hleap := isLeapYear_iff t
  unfold daysInMonth monthDays
  by_cases hl : gregorianLeapYear t.year
  · simp only [hleap, hl, and_true, if_true]
    interval_cases t.month <;> rfl
  · simp only [hleap, hl, and_false, if_false]
    interval_cases t.month <;> rfl

theorem yearDay_eq (t : CivilDateTime) : yearDay t.year t.month t.day = t.dayOfYear := by
  have hm := t.month_le
  have hsum : Blocks.start (fun i => monthDays t.year (i + 1)) (t.month - 1) =
      Blocks.start (daysPerMonth (isLeapYear (t.year - 2000))) (t.month - 1) := by
    apply Finset.sum_congr rfl
    intro i hi
    rw [Finset.mem_range] at hi
    exact monthDays_eq t.year_ge t.year_le (by omega) (by omega)
  rw [yearDay, hsum]
  rfl

theorem date2days_first (t : CivilDateTime) : date2days t.year 1 1 = Blocks.start yearLength (t.year - 2000) := by
  have hy := t.year_ge
  have hy' := t.year_le
  have hyear : (t.year + 0x10000 - 2000) % 0x10000 = t.year - 2000 := by omega
  have hfirst : (1 + Blocks.start daysArray (1 - 1)) % 0x10000 = 1 := rfl
  have hjan : ¬ (1 = 2 ∧ isLeapYear (t.year - 2000)) := fun h => absurd h.1 (by decide)
  rw [start_yearLength]
  simp only [date2days, hyear, hfirst, if_neg hjan]
  omega

theorem dayInYear_eq (t : CivilDateTime) : (dayInYear t.year t.month t.day : ℤ) = t.dayOfYear + skew t := by
  have hlt := dayOfYear_lt t
  have hlen := yearLength_le (t.year - 2000)
  have hcode := date2days_eq t
  have hdays : t.days = Blocks.start yearLength (t.year - 2000) + t.dayOfYear := rfl
  have hsmall := days_lt t
  have hskew : 0 ≤ t.dayOfYear + skew t ∧ skew t ≤ 1 := by
    rcases skew_cases t with ⟨h, -⟩ | ⟨h, -⟩ | ⟨h, -, -, hdoy⟩
    · omega
    · omega
    · omega
  rw [dayInYear, date2days_first]
  omega

theorem skew_eq_zero_iff (t : CivilDateTime) : skew t = 0 ↔ (gregorianLeapYear t.year → t.month = 1) := by
  have hleap := gregorianLeapYear_iff t.year_ge t.year_le
  have hm := t.month_ge
  rw [hleap]
  rcases skew_cases t with ⟨h, hjan⟩ | ⟨h, hl, hfeb, -⟩ | ⟨h, hl, hmar, -⟩
  · exact ⟨fun _ hl => (hjan hl).1, fun _ => h⟩
  · constructor
    · omega
    · intro hjan
      exact absurd (hjan hl) (by omega)
  · constructor
    · omega
    · intro hjan
      exact absurd (hjan hl) (by omega)

theorem digits_dayInYear (t : CivilDateTime) :
    (digits (dayInYear t.year t.month t.day)).length ≤ (digits (yearDay t.year t.month t.day)).length ∧
    (digits (dayInYear t.year t.month t.day) = digits (yearDay t.year t.month t.day) ↔
      (gregorianLeapYear t.year → t.month = 1)) := by
  have hcode := dayInYear_eq t
  rw [yearDay_eq, ← skew_eq_zero_iff]
  constructor
  · have hmono : ∀ {n m : ℕ}, n ≤ m → (digits n).length ≤ (digits m).length := by
      intro n m hnm
      have hpos : 0 < (digits m).length := Nat.length_toDigits_pos
      rw [length_digits_le hpos]
      exact hnm.trans_lt ((length_digits_le hpos).mp le_rfl)
    rcases skew_cases t with ⟨h, -⟩ | ⟨h, -, -, hge, hle⟩ | ⟨h, -⟩
    · exact hmono (by omega)
    · -- A day of February has two digits on both sides.
      have htwo : (digits (dayInYear t.year t.month t.day)).length ≤ 2 := (length_digits_le (by decide)).mpr (by omega)
      have hlong : ¬ (digits t.dayOfYear).length ≤ 1 := by
        rw [length_digits_le (by decide)]
        omega
      omega
    · exact hmono (by omega)
  · constructor
    · intro heq
      have := digits_inj heq
      omega
    · intro hzero
      have heq : dayInYear t.year t.month t.day = t.dayOfYear := by omega
      rw [heq]

theorem strDaySufix_length (day : ℕ) : (strDaySufix day).toList.length = 2 ∧ (ordinalSuffix day).toList.length = 2 := by
  constructor
  · unfold strDaySufix
    split_ifs <;> rfl
  · unfold ordinalSuffix
    split_ifs <;> rfl

theorem strDaySufix_eq_iff (t : CivilDateTime) : strDaySufix t.day = ordinalSuffix t.day ↔ t.day < 11 ∨ 13 < t.day := by
  have hd := t.day_ge
  have hd' := t.day_le.trans (monthDays_le _ _)
  interval_cases t.day <;> decide

end calendar

section format

variable {dt : LPCRTCDateTime} {t : CivilDateTime} {format buffer : List Char}

/-- What the code makes of a letter: two of them are computed another way. -/
def coded (t : DateTime) (c : Char) : List Char :=
  if c = 'z' then digits (dayInYear t.year t.month t.day)
  else if c = 'S' then (strDaySufix t.day).toList
  else phpDate t c

theorem coded_number (t : DateTime) : coded t 'z' = digits (dayInYear t.year t.month t.day) := if_pos rfl

theorem coded_suffix (t : DateTime) : coded t 'S' = (strDaySufix t.day).toList := by
  rw [coded, if_neg (by decide), if_pos rfl]

theorem phpDate_number (t : DateTime) : phpDate t 'z' = digits (yearDay t.year t.month t.day) := rfl

theorem phpDate_suffix (t : DateTime) : phpDate t 'S' = (ordinalSuffix t.day).toList := rfl

theorem coded_of_ne {t : DateTime} {c : Char} (hz : c ≠ 'z') (hs : c ≠ 'S') : coded t c = phpDate t c := by
  rw [coded, if_neg hz, if_neg hs]

theorem weekday_lt (t : DateTime) : t.weekday < 7 := Nat.mod_lt _ (by decide)

theorem sprintf_decimal (h : n < 10 ^ 10) : sprintf (decimal n) = some (digits n) := by
  rw [decimal_natCast, sprintf_digits h]

theorem sprintf_decimal02 (h : n < 100) : sprintf (decimal02 n) = some (twoDigits n) := by
  rw [decimal02_natCast h, sprintf_twoDigits]

theorem unixSeconds_lt (t : CivilDateTime) : t.unixSeconds < 10 ^ 10 := by
  have hlt := seconds_lt t
  unfold DateTime.unixSeconds
  omega

theorem dayInYear_lt (year month day : ℕ) : dayInYear year month day < 10 ^ 10 := by
  unfold dayInYear
  omega

theorem phpDate_other {t : DateTime} {c : Char} (h : c ∉ "djlDNwzSmnFMtYyLHGhgAaisU".toList) : phpDate t c = [c] := by
  unfold phpDate
  split
  case h_26 => rfl
  all_goals exact absurd (by decide) h

theorem field_eq (h : Consistent dt t) (c : Char) : field dt c = some (coded t c) := by
  obtain ⟨date, dayOfWeek, unixtime⟩ := dt
  obtain ⟨hdate, hdow, hunix⟩ := h
  simp only at hdate hdow hunix
  subst hdate hdow
  have hd := t.day_le.trans (monthDays_le _ _)
  have hm := t.month_le
  have hy := t.year_ge
  have hy' := t.year_le
  have hhour := t.hour_lt
  have hminute := t.minute_lt
  have hsecond := t.second_lt
  have hsec := unixSeconds_lt t
  have hw := weekday_lt t
  have hnumber := dayInYear_lt t.year t.month t.day
  have htwelve : twelveHour t.hour < 13 := Nat.succ_lt_succ (Nat.mod_lt _ (by decide))
  have hlen := monthDays_le t.year t.month
  unfold field
  dsimp only
  split
  -- Day decoder
  · exact sprintf_decimal02 (by omega)
  · exact sprintf_decimal (by omega)
  · exact congrArg (fun s : String => some s.toList) (strDayOfWeek_eq hw)
  · exact congrArg (fun s : String => some (s.toList.take 3)) (strDayOfWeek_eq hw)
  · exact sprintf_decimal (n := t.weekday + 1) (by omega)
  · have hround : (t.weekday + 1 + 7) % 7 = (t.weekday + 1) % 7 := by omega
    change sprintf (decimal ((t.weekday + 1 + 7) % 7 : ℕ)) = _
    rw [hround]
    exact sprintf_decimal (by omega)
  · rw [coded_number]
    exact sprintf_decimal hnumber
  · rfl
  -- Month decoder
  · exact sprintf_decimal02 (by omega)
  · exact sprintf_decimal (by omega)
  · exact congrArg (fun s : String => some s.toList) (strMonth_eq t.month_ge hm)
  · exact congrArg (fun s : String => some (s.toList.take 3)) (strMonth_eq t.month_ge hm)
  · change sprintf (decimal (daysInMonth t.year t.month)) = _
    rw [daysInMonth_eq]
    exact sprintf_decimal (by omega)
  -- Year decoder
  · exact sprintf_decimal (by omega)
  · have hyear : (t.year : ℤ) - 2000 = (t.year % 100 : ℕ) := by omega
    change sprintf (decimal02 ((t.year : ℤ) - 2000)) = _
    rw [hyear]
    exact sprintf_decimal02 (by omega)
  · have hleap : (if isLeapYear t.year then 1 else 0) = if gregorianLeapYear t.year then 1 else 0 :=
      if_congr (isLeapYear_iff t) rfl rfl
    change sprintf (decimal (if isLeapYear t.year then 1 else 0)) = some (digits (if gregorianLeapYear t.year then 1 else 0))
    by_cases hl : gregorianLeapYear t.year
    · rw [if_pos ((isLeapYear_iff t).mpr hl), if_pos hl]
      rfl
    · rw [if_neg (fun h => hl ((isLeapYear_iff t).mp h)), if_neg hl]
      rfl
  -- Hour decoder
  · exact sprintf_decimal02 (by omega)
  · exact sprintf_decimal (by omega)
  · change sprintf (decimal02 (hour12 t.hour)) = _
    rw [hour12_eq hhour]
    exact sprintf_decimal02 (by omega)
  · change sprintf (decimal (hour12 t.hour)) = _
    rw [hour12_eq hhour]
    exact sprintf_decimal (by omega)
  · change some (strAmPm t.hour true).toList = some (if t.hour < 12 then ['A', 'M'] else ['P', 'M'])
    unfold strAmPm
    split <;> rfl
  · change some (strAmPm t.hour false).toList = some (if t.hour < 12 then ['a', 'm'] else ['p', 'm'])
    unfold strAmPm
    split <;> rfl
  -- Minute and second decoder
  · exact sprintf_decimal02 (by omega)
  · exact sprintf_decimal02 (by omega)
  -- Misc decoder
  · rw [hunix]
    exact sprintf_decimal hsec
  · rw [coded_of_ne (by assumption) (by assumption), phpDate_other]
    simp only [String.reduceToList, List.mem_cons, List.not_mem_nil, or_false, not_or]
    refine ⟨?_, ?_, ?_, ?_, ?_, ?_, ?_, ?_, ?_, ?_, ?_, ?_, ?_, ?_, ?_, ?_, ?_, ?_, ?_, ?_, ?_, ?_, ?_, ?_, ?_⟩ <;> assumption

section pieces

variable {α β : Type} {f g : α → List β} {l : List α}

theorem length_flatMap_le (h : ∀ c ∈ l, (f c).length ≤ (g c).length) : (l.flatMap f).length ≤ (l.flatMap g).length := by
  induction l with
  | nil => rfl
  | cons c l ih =>
    rw [List.flatMap_cons, List.flatMap_cons, List.length_append, List.length_append]
    exact Nat.add_le_add (h c List.mem_cons_self) (ih fun c hc => h c (List.mem_cons_of_mem _ hc))

theorem flatMap_eq_iff (h : ∀ c ∈ l, (f c).length ≤ (g c).length) : l.flatMap f = l.flatMap g ↔ ∀ c ∈ l, f c = g c := by
  constructor
  · intro heq
    induction l with
    | nil =>
      intro c hc
      exact absurd hc List.not_mem_nil
    | cons a l ih =>
      have hl : ∀ c ∈ l, (f c).length ≤ (g c).length := fun c hc => h c (List.mem_cons_of_mem _ hc)
      have ha := h a List.mem_cons_self
      have hrest := length_flatMap_le hl
      rw [List.flatMap_cons, List.flatMap_cons] at heq
      have hlen := congrArg List.length heq
      rw [List.length_append, List.length_append] at hlen
      obtain ⟨hhead, htail⟩ := List.append_inj heq (by omega)
      intro c hc
      rcases List.mem_cons.mp hc with rfl | hc
      · exact hhead
      · exact ih hl htail c hc
  · exact List.flatMap_congr

end pieces

theorem coded_length (t : CivilDateTime) (c : Char) : (coded t c).length ≤ (phpDate t c).length := by
  by_cases hz : c = 'z'
  · rw [hz, coded_number, phpDate_number]
    exact (digits_dayInYear t).1
  · by_cases hs : c = 'S'
    · obtain ⟨hl, hl'⟩ := strDaySufix_length t.day
      rw [hs, coded_suffix, phpDate_suffix, hl, hl']
    · rw [coded_of_ne hz hs]

theorem coded_eq_iff (t : CivilDateTime) (c : Char) : coded t c = phpDate t c ↔
    (c = 'S' → t.day < 11 ∨ 13 < t.day) ∧ (c = 'z' → gregorianLeapYear t.year → t.month = 1) := by
  by_cases hz : c = 'z'
  · have hs : c ≠ 'S' := by
      rw [hz]
      decide
    rw [hz, coded_number, phpDate_number, (digits_dayInYear t).2]
    exact ⟨fun h => ⟨fun he => absurd he (by decide), fun _ => h⟩, fun h => h.2 rfl⟩
  · by_cases hs : c = 'S'
    · rw [hs, coded_suffix, phpDate_suffix, String.toList_inj, strDaySufix_eq_iff]
      exact ⟨fun h => ⟨fun _ => h, fun he => absurd he (by decide)⟩, fun h => h.1 rfl⟩
    · rw [coded_of_ne hz hs]
      exact ⟨fun _ => ⟨fun he => absurd he hs, fun he => absurd he hz⟩, fun _ => rfl⟩

theorem dateFormatLoop_eq (h : Consistent dt t) (hnul : ∀ c ∈ format, c.toNat ≠ 0)
    (hroom : (buffer ++ format.flatMap (coded t)).length ≤ 254) :
    dateFormatLoop dt format buffer = some (buffer ++ format.flatMap (coded t)) := by
  induction format generalizing buffer with
  | nil => rw [dateFormatLoop, List.flatMap_nil, List.append_nil]
  | cons c format ih =>
    rw [List.flatMap_cons, ← List.append_assoc] at hroom ⊢
    have hfits : (buffer ++ coded t c).length < 255 := by
      rw [List.length_append] at hroom
      omega
    rw [dateFormatLoop, if_neg (hnul c List.mem_cons_self), field_eq h]
    change (strcat buffer (coded t c)).bind (dateFormatLoop dt format) = _
    rw [strcat, if_pos hfits]
    exact ih (fun c hc => hnul c (List.mem_cons_of_mem _ hc)) hroom

/-- The text is the right one unless it has the suffix of a day from the eleventh to the thirteenth, or the day of the
year behind January of a leap year. -/
theorem lpcrtcDateFormat_iff (h : Consistent dt t) (hnul : ∀ c ∈ format, c.toNat ≠ 0)
    (hroom : (format.flatMap (phpDate t)).length ≤ 254) :
    lpcrtcDateFormat dt format = some (format.flatMap (phpDate t)) ↔
    ('S' ∈ format → t.day < 11 ∨ 13 < t.day) ∧ ('z' ∈ format → gregorianLeapYear t.year → t.month = 1) := by
  have hloop := @dateFormatLoop_eq dt t format [] h hnul ((length_flatMap_le fun c _ => coded_length t c).trans hroom)
  rw [lpcrtcDateFormat, hloop, List.nil_append, Option.some_inj, flatMap_eq_iff fun c _ => coded_length t c]
  simp only [coded_eq_iff]
  constructor
  · intro hall
    exact ⟨fun hs => (hall 'S' hs).1 rfl, fun hz => (hall 'z' hz).2 rfl⟩
  · rintro ⟨hs, hz⟩ c hc
    exact ⟨fun he => hs (he ▸ hc), fun he => hz (he ▸ hc)⟩

theorem leapDate_valid : Date.Valid ⟨2016, 2, 12⟩ := ⟨by decide, by decide, by decide, by decide, by decide⟩

theorem leapDate_inCentury : InCentury ⟨2016, 2, 12⟩ := ⟨by decide, by decide⟩

theorem leapDate_time : 13 < 24 ∧ 5 < 60 ∧ 9 < 60 := by decide

/-- The twelfth of February of a leap year. -/
def leapDate : CivilDateTime := Date.civil ⟨2016, 2, 12⟩ leapDate_valid leapDate_inCentury 13 5 9 leapDate_time

def leapRecord : LPCRTCDateTime := ⟨leapDate.toDateTime, 5, leapDate.unixSeconds⟩

theorem leapRecord_consistent : Consistent leapRecord leapDate := ⟨rfl, by decide, by decide⟩

theorem lpcrtcDateFormat_iff_date :
    lpcrtcDateFormat leapRecord ['d', '.', 'm'] = some (['d', '.', 'm'].flatMap (phpDate leapDate)) := by
  apply (lpcrtcDateFormat_iff leapRecord_consistent ?_ (by decide)).mpr
  · simp
  · simp

/-- The twelfth of February 2016 is written as the 12nd, and as day 43 of the year for 42. -/
theorem lpcrtcDateFormat_wrong :
    lpcrtcDateFormat leapRecord "jS z".toList = some "12nd 43".toList ∧
    "jS z".toList.flatMap (phpDate leapDate) = "12th 42".toList := by
  decide

end format

end Lpc1788Libraries.Rtc

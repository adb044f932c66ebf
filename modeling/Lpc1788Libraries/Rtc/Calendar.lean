import Lpc1788Libraries.Support.Blocks

namespace Lpc1788Libraries.Rtc

open Lpc1788Libraries.Support

def daysArray (i : ℕ) : ℕ := [31, 28, 31, 30, 31, 30, 31, 31, 30, 31, 30, 31].getD i 0

def dowArray (i : ℕ) : ℕ := [0, 3, 2, 5, 0, 3, 5, 1, 4, 6, 2, 4].getD i 0

/-- What `unixtime` reads of `LPCRTCDateTime` and of `RTCDateTime`. -/
structure DateTime where
  year : ℕ
  month : ℕ
  day : ℕ
  hour : ℕ
  minute : ℕ
  second : ℕ
  deriving DecidableEq

/-- The time registers of the clock. -/
structure RtcTime where
  second : ℕ
  minute : ℕ
  hour : ℕ
  dayOfWeek : ℕ
  dayOfMonth : ℕ
  month : ℕ
  year : ℕ

def isLeapYear (year : ℕ) : Prop := year % 4 = 0

instance (year : ℕ) : Decidable (isLeapYear year) := inferInstanceAs (Decidable (year % 4 = 0))

def date2days (year month day : ℕ) : ℕ :=
  let year := (year + 0x10000 - 2000) % 0x10000
  let days16 := (day + Blocks.start daysArray (month - 1)) % 0x10000
  let days16 := if month = 2 ∧ isLeapYear year then (days16 + 1) % 0x10000 else days16
  (days16 + 365 * year + (year + 3) / 4 - 1) % 0x10000

/-- What becomes of a result that does not fit into `long`: C leaves it undefined, and the processor
keeps the low 32 bits. -/
inductive Overflow
  | undefined
  | wraps

def long (overflow : Overflow) (v : ℤ) : Option ℤ :=
  if -0x80000000 ≤ v ∧ v < 0x80000000 then some v
  else
    match overflow with
    | .undefined => none
    | .wraps => some ((v + 0x80000000) % 0x100000000 - 0x80000000)

section encoder

variable (overflow : Overflow)

def time2long (days hours minutes seconds : ℕ) : Option ℤ := do
  let hours ← long overflow ((← long overflow (days * 24)) + hours)
  let minutes ← long overflow ((← long overflow (hours * 60)) + minutes)
  long overflow ((← long overflow (minutes * 60)) + seconds)

def unixtime (t : DateTime) : Option ℕ :=
  (time2long overflow (date2days t.year t.month t.day) t.hour t.minute t.second).map fun u =>
    ((u % 0x100000000).toNat + 946681200) % 0x100000000

end encoder

def dow (y m d : ℕ) : ℕ :=
  let y := if m < 3 then (y + 0xffff) % 0x10000 else y
  let dow := (y + y / 4 + y / 400 + dowArray (m - 1) + d - y / 100) % 7
  if dow = 0 then 7 else dow

def yearLength (year : ℕ) : ℕ := 365 + if year % 4 = 0 then 1 else 0

def daysPerMonth (leap : Prop) [Decidable leap] (i : ℕ) : ℕ :=
  daysArray i + if leap ∧ i + 1 = 2 then 1 else 0

/-- `lpcrtc_setDateTime_word` and `DS3231_setDateTime_word` but for the function that is called
last. There is no result when `daysArray` is read behind its end. -/
def setDateTimeWord (setDateTime : DateTime → RtcTime) (t : ℕ) : Option RtcTime :=
  let t := (t + 0x100000000 - 946681200) % 0x100000000
  let second := t % 60
  let t := t / 60
  let minute := t % 60
  let t := t / 60
  let hour := t % 24
  let days := t / 24 % 0x10000
  (Blocks.locate yearLength 0x10000 0 days).bind fun (year, days) =>
    (Blocks.locate (daysPerMonth (year % 4 = 0)) 12 0 days).map fun (i, days) =>
      setDateTime ⟨year + 2000, i + 1, days + 1, hour, minute, second⟩

def lpcrtcSetDateTime (t : DateTime) : RtcTime :=
  ⟨t.second, t.minute, t.hour, dow t.year t.month t.day, t.day, t.month, t.year⟩

def lpcrtcSetDateTimeWord : ℕ → Option RtcTime := setDateTimeWord lpcrtcSetDateTime

def lpcrtcGetDateTime (r : RtcTime) : DateTime := ⟨r.year, r.month, r.dayOfMonth, r.hour, r.minute, r.second⟩

def dec2bcd (dec : ℕ) : ℕ := (dec / 10 * 16 + dec % 10) % 0x100

def bcd2dec (bcd : ℕ) : ℕ := (bcd / 16 * 10 + bcd % 16) % 0x100

def ds3231SetDateTime (t : DateTime) : RtcTime :=
  ⟨dec2bcd t.second, dec2bcd t.minute, dec2bcd t.hour, dec2bcd (dow t.year t.month t.day), dec2bcd t.day,
    dec2bcd t.month, dec2bcd ((t.year + 0x10000 - 2000) % 0x100)⟩

def ds3231SetDateTimeWord : ℕ → Option RtcTime := setDateTimeWord ds3231SetDateTime

def ds3231GetDateTime (r : RtcTime) : DateTime :=
  ⟨bcd2dec r.year + 2000, bcd2dec r.month, bcd2dec r.dayOfMonth, bcd2dec r.hour, bcd2dec r.minute,
    bcd2dec r.second⟩

end Lpc1788Libraries.Rtc

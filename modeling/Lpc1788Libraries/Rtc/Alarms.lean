import Lpc1788Libraries.Rtc.CalendarRoundTrip
import Mathlib.Data.List.GetD
import Mathlib.Data.Nat.Bitwise

namespace Lpc1788Libraries.Rtc

/-- The registers of the DS3231. They store what is written. -/
abbrev Ds3231 := ℕ → ℕ

def DS3231_REG_ALARM_1 : ℕ := 0x07
def DS3231_REG_ALARM_2 : ℕ := 0x0B
def DS3231_REG_CONTROL : ℕ := 0x0E
def DS3231_REG_STATUS : ℕ := 0x0F

section bus

/-- `Chip_I2C_MasterSend` of the address of a register and the bytes from there on. -/
def masterSend (d : Ds3231) (reg : ℕ) (bytes : List ℕ) : Ds3231 := fun r =>
  if r < reg then d r else bytes.getD (r - reg) (d r)

/-- `Chip_I2C_MasterCmdRead` -/
def masterCmdRead (d : Ds3231) (reg len : ℕ) : List ℕ := (List.range' reg len).map d

def writeRegister8 (d : Ds3231) (reg value : ℕ) : Ds3231 := masterSend d reg [value]

def readRegister8 (d : Ds3231) (reg : ℕ) : ℕ := d reg

end bus

structure RTCAlarmTime where
  day : ℕ
  hour : ℕ
  minute : ℕ
  second : ℕ
  deriving DecidableEq

inductive Alarm1Type
  | everySecond
  | matchS
  | matchMS
  | matchHMS
  | matchDtHMS
  | matchDyHMS
  deriving DecidableEq

def Alarm1Type.value : Alarm1Type → ℕ
  | everySecond => 0b00001111
  | matchS => 0b00001110
  | matchMS => 0b00001100
  | matchHMS => 0b00001000
  | matchDtHMS => 0b00000000
  | matchDyHMS => 0b00010000

inductive Alarm2Type
  | everyMinute
  | matchM
  | matchHM
  | matchDtHM
  | matchDyHM
  deriving DecidableEq

def Alarm2Type.value : Alarm2Type → ℕ
  | everyMinute => 0b00001110
  | matchM => 0b00001100
  | matchHM => 0b00001000
  | matchDtHM => 0b00000000
  | matchDyHM => 0b00010000

section alarms

variable (d : Ds3231)

/-- `DS3231_getAlarm1` and `DS3231_getAlarm2` but for the first register. -/
def alarmTime (reg : ℕ) : RTCAlarmTime :=
  let values := masterCmdRead d reg 4
  { day := bcd2dec (values.getD 0 0 &&& 0b01111111)
    hour := bcd2dec (values.getD 1 0 &&& 0b01111111)
    minute := bcd2dec (values.getD 2 0 &&& 0b01111111)
    second := bcd2dec (values.getD 3 0 &&& 0b01111111) }

/-- `DS3231_getAlarmType1` and `DS3231_getAlarmType2` but for the first register. -/
def alarmType (reg : ℕ) : ℕ :=
  let values := masterCmdRead d reg 4
  bcd2dec ((values.getD 3 0 &&& 0b01000000) >>> 6) ||| bcd2dec ((values.getD 2 0 &&& 0b01000000) >>> 5) |||
    bcd2dec ((values.getD 1 0 &&& 0b01000000) >>> 4) ||| bcd2dec ((values.getD 0 0 &&& 0b01000000) >>> 3) |||
    bcd2dec ((values.getD 0 0 &&& 0b00100000) >>> 1)

def ds3231GetAlarm1 : RTCAlarmTime := alarmTime d DS3231_REG_ALARM_1

def ds3231GetAlarmType1 : ℕ := alarmType d DS3231_REG_ALARM_1

def ds3231GetAlarm2 : RTCAlarmTime := alarmTime d DS3231_REG_ALARM_2

def ds3231GetAlarmType2 : ℕ := alarmType d DS3231_REG_ALARM_2

def ds3231ArmAlarm1 (armed : Bool) : Ds3231 :=
  let value := readRegister8 d DS3231_REG_CONTROL
  writeRegister8 d DS3231_REG_CONTROL (if armed then value ||| 0b00000001 else value &&& 0b11111110)

def ds3231IsArmed1 : Bool := readRegister8 d DS3231_REG_CONTROL &&& 0b00000001 ≠ 0

def ds3231ClearAlarm1 : Ds3231 := writeRegister8 d DS3231_REG_STATUS (readRegister8 d DS3231_REG_STATUS &&& 0b11111110)

def ds3231ArmAlarm2 (armed : Bool) : Ds3231 :=
  let value := readRegister8 d DS3231_REG_CONTROL
  writeRegister8 d DS3231_REG_CONTROL (if armed then value ||| 0b00000010 else value &&& 0b11111101)

def ds3231IsArmed2 : Bool := (readRegister8 d DS3231_REG_CONTROL &&& 0b00000010) >>> 1 ≠ 0

def ds3231ClearAlarm2 : Ds3231 := writeRegister8 d DS3231_REG_STATUS (readRegister8 d DS3231_REG_STATUS &&& 0b11111101)

/-- The bytes of `DS3231_setAlarm1`: seconds, minutes, hours and day. -/
def alarm1Bytes (dydw hour minute second : ℕ) (mode : Alarm1Type) : List ℕ :=
  let second := dec2bcd second
  let minute := dec2bcd minute
  let hour := dec2bcd hour
  let dydw := dec2bcd dydw
  match mode with
  | .everySecond => [second ||| 0b10000000, minute ||| 0b10000000, hour ||| 0b10000000, dydw ||| 0b10000000]
  | .matchS => [second &&& 0b01111111, minute ||| 0b10000000, hour ||| 0b10000000, dydw ||| 0b10000000]
  | .matchMS => [second &&& 0b01111111, minute &&& 0b01111111, hour ||| 0b10000000, dydw ||| 0b10000000]
  | .matchHMS => [second &&& 0b01111111, minute &&& 0b01111111, hour &&& 0b01111111, dydw ||| 0b10000000]
  | .matchDtHMS => [second &&& 0b01111111, minute &&& 0b01111111, hour &&& 0b01111111, dydw &&& 0b01111111]
  | .matchDyHMS => [second &&& 0b01111111, minute &&& 0b01111111, hour &&& 0b01111111,
      dydw &&& 0b01111111 ||| 0b01000000]

def ds3231SetAlarm1 (dydw hour minute second : ℕ) (mode : Alarm1Type) (armed : Bool) : Ds3231 :=
  ds3231ClearAlarm1 (ds3231ArmAlarm1 (masterSend d DS3231_REG_ALARM_1 (alarm1Bytes dydw hour minute second mode)) armed)

/-- The bytes of `DS3231_setAlarm2`: minutes, hours and day. -/
def alarm2Bytes (dydw hour minute : ℕ) (mode : Alarm2Type) : List ℕ :=
  let minute := dec2bcd minute
  let hour := dec2bcd hour
  let dydw := dec2bcd dydw
  match mode with
  | .everyMinute => [minute ||| 0b10000000, hour ||| 0b10000000, dydw ||| 0b10000000]
  | .matchM => [minute &&& 0b01111111, hour ||| 0b10000000, dydw ||| 0b10000000]
  | .matchHM => [minute &&& 0b01111111, hour &&& 0b01111111, dydw ||| 0b10000000]
  | .matchDtHM => [minute &&& 0b01111111, hour &&& 0b01111111, dydw &&& 0b01111111]
  | .matchDyHM => [minute &&& 0b01111111, hour &&& 0b01111111, dydw &&& 0b01111111 ||| 0b01000000]

def ds3231SetAlarm2 (dydw hour minute : ℕ) (mode : Alarm2Type) (armed : Bool) : Ds3231 :=
  ds3231ClearAlarm2 (ds3231ArmAlarm2 (masterSend d DS3231_REG_ALARM_2 (alarm2Bytes dydw hour minute mode)) armed)

end alarms

variable {d : Ds3231} {day hour minute second n : ℕ} {armed : Bool}

section bytes

/-- A field with or without its mask bit. -/
def masked (on : Bool) (v : ℕ) : ℕ := if on then v ||| 0b10000000 else v &&& 0b01111111

/-- The byte of the day: bit 6 tells the day of the week. -/
def dayByte (week on : Bool) (day : ℕ) : ℕ :=
  if week then dec2bcd day &&& 0b01111111 ||| 0b01000000 else masked on (dec2bcd day)

theorem alarm1Bytes_eq (dydw hour minute second : ℕ) (mode : Alarm1Type) : alarm1Bytes dydw hour minute second mode =
    [masked (mode.value.testBit 0) (dec2bcd second), masked (mode.value.testBit 1) (dec2bcd minute),
      masked (mode.value.testBit 2) (dec2bcd hour), dayByte (mode = .matchDyHMS) (mode.value.testBit 3) dydw] := by
  cases mode <;> rfl

theorem alarm2Bytes_eq (dydw hour minute : ℕ) (mode : Alarm2Type) : alarm2Bytes dydw hour minute mode =
    [masked (mode.value.testBit 1) (dec2bcd minute), masked (mode.value.testBit 2) (dec2bcd hour),
      dayByte (mode = .matchDyHM) (mode.value.testBit 3) dydw] := by
  cases mode <;> rfl

theorem masked_value (on : Bool) (h : n < 60) : bcd2dec (masked on (dec2bcd n) &&& 0b01111111) = n := by
  have hall : ∀ n < 60, ∀ on, bcd2dec (masked on (dec2bcd n) &&& 0b01111111) = n := by decide
  exact hall n h on

theorem masked_bits (on : Bool) (h : n < 60) :
    masked on (dec2bcd n) &&& 0b01000000 = (if 40 ≤ n then 0b01000000 else 0) ∧
    masked on (dec2bcd n) &&& 0b00100000 = if 20 ≤ n ∧ n < 40 then 0b00100000 else 0 := by
  have hall : ∀ n < 60, ∀ on, masked on (dec2bcd n) &&& 0b01000000 = (if 40 ≤ n then 0b01000000 else 0) ∧
      masked on (dec2bcd n) &&& 0b00100000 = if 20 ≤ n ∧ n < 40 then 0b00100000 else 0 := by decide
  exact hall n h on

theorem dayByte_value (week on : Bool) (h : day ≤ if week then 7 else 31) :
    bcd2dec (dayByte week on day &&& 0b01111111) = (day + if week then 40 else 0) ∧
    dayByte week on day &&& 0b01000000 = if week then 0b01000000 else 0 := by
  cases week with
  | true =>
    have hall : ∀ n ≤ 7, bcd2dec ((dec2bcd n &&& 0b01111111 ||| 0b01000000) &&& 0b01111111) = n + 40 ∧
        (dec2bcd n &&& 0b01111111 ||| 0b01000000) &&& 0b01000000 = 0b01000000 := by decide
    exact hall day h
  | false =>
    have hday : day ≤ 31 := h
    have hbit := (masked_bits on (by omega : day < 60)).1
    rw [if_neg (by omega)] at hbit
    exact ⟨masked_value on (by omega), hbit⟩

end bytes

section control

variable (c : ℕ)

theorem or_and_self (v : ℕ) : (c ||| v) &&& v = v := by
  apply Nat.eq_of_testBit_eq
  intro i
  rw [Nat.testBit_and, Nat.testBit_or]
  cases c.testBit i <;> cases v.testBit i <;> rfl

theorem and_sixtyFour : c &&& 0b01000000 = 0 ∨ c &&& 0b01000000 = 0b01000000 := by
  have hbit : c &&& 0b01000000 = (c.testBit 6).toNat * 2 ^ 6 := Nat.and_two_pow c 6
  rw [hbit]
  cases c.testBit 6
  · exact Or.inl rfl
  · exact Or.inr rfl

theorem arm1_bits (armed : Bool) :
    (if armed then c ||| 0b00000001 else c &&& 0b11111110) &&& 0b00000001 = (if armed then 1 else 0) ∧
    (if armed then c ||| 0b00000001 else c &&& 0b11111110) &&& 0b00000010 = c &&& 0b00000010 := by
  cases armed with
  | true =>
    constructor
    · exact or_and_self c 1
    · change (c ||| 1) &&& 2 = c &&& 2
      rw [Nat.and_or_distrib_right]
      exact Nat.or_zero _
  | false =>
    constructor
    · change c &&& 0b11111110 &&& 1 = 0
      rw [Nat.and_assoc]
      exact Nat.and_zero c
    · exact Nat.and_assoc c 0b11111110 0b00000010

theorem arm2_bits (armed : Bool) :
    (if armed then c ||| 0b00000010 else c &&& 0b11111101) &&& 0b00000010 = (if armed then 2 else 0) ∧
    (if armed then c ||| 0b00000010 else c &&& 0b11111101) &&& 0b00000001 = c &&& 0b00000001 ∧
    (if armed then c ||| 0b00000010 else c &&& 0b11111101) &&& 0b01000000 = c &&& 0b01000000 := by
  cases armed with
  | true =>
    refine ⟨?_, ?_, ?_⟩
    · exact or_and_self c 2
    · change (c ||| 2) &&& 1 = c &&& 1
      rw [Nat.and_or_distrib_right]
      exact Nat.or_zero _
    · change (c ||| 2) &&& 0b01000000 = c &&& 0b01000000
      rw [Nat.and_or_distrib_right]
      exact Nat.or_zero _
  | false =>
    refine ⟨?_, Nat.and_assoc c 0b11111101 0b00000001, Nat.and_assoc c 0b11111101 0b01000000⟩
    change c &&& 0b11111101 &&& 2 = 0
    rw [Nat.and_assoc]
    exact Nat.and_zero c

end control

section registers

theorem writeRegister8_of_ne (d : Ds3231) (value : ℕ) {reg r : ℕ} (h : r ≠ reg) : writeRegister8 d reg value r = d r := by
  unfold writeRegister8 masterSend
  by_cases hlt : r < reg
  · exact if_pos hlt
  · rw [if_neg hlt]
    apply List.getD_eq_default
    rw [List.length_singleton]
    omega

theorem writeRegister8_self (d : Ds3231) (reg value : ℕ) : writeRegister8 d reg value reg = value := by
  unfold writeRegister8 masterSend
  rw [if_neg (lt_irrefl reg), Nat.sub_self]
  rfl

theorem alarmTime_eq (d : Ds3231) (reg : ℕ) : alarmTime d reg =
    ⟨bcd2dec (d reg &&& 0b01111111), bcd2dec (d (reg + 1) &&& 0b01111111), bcd2dec (d (reg + 2) &&& 0b01111111),
      bcd2dec (d (reg + 3) &&& 0b01111111)⟩ := rfl

theorem alarmType_eq (d : Ds3231) (reg : ℕ) : alarmType d reg =
    bcd2dec ((d (reg + 3) &&& 0b01000000) >>> 6) ||| bcd2dec ((d (reg + 2) &&& 0b01000000) >>> 5) |||
    bcd2dec ((d (reg + 1) &&& 0b01000000) >>> 4) ||| bcd2dec ((d reg &&& 0b01000000) >>> 3) |||
    bcd2dec ((d reg &&& 0b00100000) >>> 1) := rfl

theorem bcd2dec_bit {p : Prop} [Decidable p] {v k w : ℕ} (hv : bcd2dec (v >>> k) = w) (hz : bcd2dec (0 >>> k) = 0) :
    bcd2dec ((if p then v else 0) >>> k) = if p then w else 0 := by
  by_cases hp : p
  · rw [if_pos hp, if_pos hp, hv]
  · rw [if_neg hp, if_neg hp, hz]

end registers

/-- Alarm 1 comes back as it was set, armed or not, and alarm 2 stays. -/
def Alarm1Kept (d : Ds3231) (day hour minute second : ℕ) (mode : Alarm1Type) (armed : Bool) : Prop :=
  let d' := ds3231SetAlarm1 d day hour minute second mode armed
  ds3231GetAlarm1 d' = ⟨day, hour, minute, second⟩ ∧ ds3231GetAlarmType1 d' = mode.value ∧ ds3231IsArmed1 d' = armed ∧
    (∀ r, 0x0B ≤ r → r ≤ 0x0D → d' r = d r) ∧ ds3231IsArmed2 d' = ds3231IsArmed2 d

/-- Alarm 2 comes back as it was set, armed or not, and alarm 1 stays. -/
def Alarm2Kept (d : Ds3231) (day hour minute : ℕ) (mode : Alarm2Type) (armed : Bool) : Prop :=
  let d' := ds3231SetAlarm2 d day hour minute mode armed
  ((ds3231GetAlarm2 d').day = day ∧ (ds3231GetAlarm2 d').hour = hour ∧ (ds3231GetAlarm2 d').minute = minute) ∧
    ds3231GetAlarmType2 d' = mode.value ∧ ds3231IsArmed2 d' = armed ∧
    (∀ r, 0x07 ≤ r → r ≤ 0x0A → d' r = d r) ∧ ds3231IsArmed1 d' = ds3231IsArmed1 d

section alarm1

variable {mode : Alarm1Type}

theorem setAlarm1_register (r : ℕ) (hr : r ≠ DS3231_REG_CONTROL) (hr' : r ≠ DS3231_REG_STATUS) :
    ds3231SetAlarm1 d day hour minute second mode armed r =
    masterSend d DS3231_REG_ALARM_1 (alarm1Bytes day hour minute second mode) r :=
  (writeRegister8_of_ne _ _ hr').trans (writeRegister8_of_ne _ _ hr)

theorem setAlarm1_control : ds3231SetAlarm1 d day hour minute second mode armed DS3231_REG_CONTROL =
    if armed then d DS3231_REG_CONTROL ||| 0b00000001 else d DS3231_REG_CONTROL &&& 0b11111110 := by
  have hkept : masterSend d DS3231_REG_ALARM_1 (alarm1Bytes day hour minute second mode) DS3231_REG_CONTROL =
      d DS3231_REG_CONTROL := by
    rw [alarm1Bytes_eq]
    rfl
  have hne : DS3231_REG_CONTROL ≠ DS3231_REG_STATUS := by decide
  rw [ds3231SetAlarm1, ds3231ClearAlarm1, writeRegister8_of_ne _ _ hne, ds3231ArmAlarm1, writeRegister8_self,
    readRegister8, hkept]

theorem setAlarm1_fields :
    ds3231SetAlarm1 d day hour minute second mode armed 0x07 = masked (mode.value.testBit 0) (dec2bcd second) ∧
    ds3231SetAlarm1 d day hour minute second mode armed 0x08 = masked (mode.value.testBit 1) (dec2bcd minute) ∧
    ds3231SetAlarm1 d day hour minute second mode armed 0x09 = masked (mode.value.testBit 2) (dec2bcd hour) ∧
    ds3231SetAlarm1 d day hour minute second mode armed 0x0A =
      dayByte (mode = .matchDyHMS) (mode.value.testBit 3) day := by
  refine ⟨?_, ?_, ?_, ?_⟩
  all_goals
    rw [setAlarm1_register _ (by decide) (by decide), alarm1Bytes_eq]
    rfl

theorem setAlarm1_frame :
    ds3231IsArmed1 (ds3231SetAlarm1 d day hour minute second mode armed) = armed ∧
    (∀ r, 0x0B ≤ r → r ≤ 0x0D → ds3231SetAlarm1 d day hour minute second mode armed r = d r) ∧
    ds3231IsArmed2 (ds3231SetAlarm1 d day hour minute second mode armed) = ds3231IsArmed2 d := by
  obtain ⟨hone, htwo⟩ := arm1_bits (d DS3231_REG_CONTROL) armed
  refine ⟨?_, ?_, ?_⟩
  · rw [ds3231IsArmed1, readRegister8, setAlarm1_control, hone]
    cases armed <;> rfl
  · intro r hr hr'
    rw [setAlarm1_register r (by unfold DS3231_REG_CONTROL; omega) (by unfold DS3231_REG_STATUS; omega), masterSend,
      alarm1Bytes_eq]
    unfold DS3231_REG_ALARM_1
    rw [if_neg (by omega)]
    apply List.getD_eq_default
    simp only [List.length_cons, List.length_nil]
    omega
  · rw [ds3231IsArmed2, readRegister8, setAlarm1_control, htwo]
    rfl

theorem getAlarm1_set (hd : day ≤ if mode = .matchDyHMS then 7 else 31) (hh : hour < 24) (hm : minute < 60)
    (hs : second < 60) : ds3231GetAlarm1 (ds3231SetAlarm1 d day hour minute second mode armed) =
    ⟨second, minute, hour, day + if mode = .matchDyHMS then 40 else 0⟩ := by
  obtain ⟨h0, h1, h2, h3⟩ := @setAlarm1_fields d day hour minute second armed mode
  have hday := (dayByte_value (mode = .matchDyHMS) (mode.value.testBit 3) (by simpa only [decide_eq_true_eq] using hd)).1
  simp only [decide_eq_true_eq] at hday
  rw [ds3231GetAlarm1, alarmTime_eq]
  simp only [DS3231_REG_ALARM_1, Nat.reduceAdd, h0, h1, h2, h3, hday]
  rw [masked_value _ hs, masked_value _ hm, masked_value _ (by omega)]

theorem getAlarmType1_set (hd : day ≤ if mode = .matchDyHMS then 7 else 31) (hh : hour < 24) (hm : minute < 60)
    (hs : second < 60) : ds3231GetAlarmType1 (ds3231SetAlarm1 d day hour minute second mode armed) =
    (if mode = .matchDyHMS then 1 else 0) ||| (if 40 ≤ minute then 4 else 0) ||| (if 40 ≤ second then 8 else 0) |||
      if 20 ≤ second ∧ second < 40 then 10 else 0 := by
  obtain ⟨h0, h1, h2, h3⟩ := @setAlarm1_fields d day hour minute second armed mode
  have hday := (dayByte_value (mode = .matchDyHMS) (mode.value.testBit 3) (by simpa only [decide_eq_true_eq] using hd)).2
  simp only [decide_eq_true_eq] at hday
  obtain ⟨hs6, hs5⟩ := masked_bits (mode.value.testBit 0) hs
  have hm6 := (masked_bits (mode.value.testBit 1) hm).1
  have hh6 := (masked_bits (mode.value.testBit 2) (by omega : hour < 60)).1
  rw [if_neg (by omega)] at hh6
  rw [ds3231GetAlarmType1, alarmType_eq]
  simp only [DS3231_REG_ALARM_1, Nat.reduceAdd, h0, h1, h2, h3, hday, hs6, hs5, hm6, hh6]
  have hnone : bcd2dec (0 >>> 5) = 0 := rfl
  rw [bcd2dec_bit (k := 6) (w := 1) rfl rfl, bcd2dec_bit (k := 4) (w := 4) rfl rfl, bcd2dec_bit (k := 3) (w := 8) rfl rfl,
    bcd2dec_bit (k := 1) (w := 10) rfl rfl, hnone, Nat.or_zero]

/-- The decoder swaps the day with the seconds and the hour with the minutes, and reads the mode from the digits: the
alarm comes back only where the swap changes nothing. -/
theorem alarm1Kept_iff (d : Ds3231) (armed : Bool) (hd' : day ≤ if mode = .matchDyHMS then 7 else 31)
    (hh : hour < 24) (hm : minute < 60) (hs : second < 60) :
    Alarm1Kept d day hour minute second mode armed ↔
    mode = .matchDtHMS ∧ day = second ∧ second < 20 ∧ hour = minute := by
  unfold Alarm1Kept
  dsimp only
  rw [getAlarm1_set hd' hh hm hs, getAlarmType1_set hd' hh hm hs, RTCAlarmTime.mk.injEq]
  constructor
  · rintro ⟨⟨hday, hhour, -, hsecond⟩, htype, -⟩
    by_cases hw : mode = .matchDyHMS
    · rw [if_pos hw] at hsecond
      omega
    · rw [if_neg hw] at hd'
      rw [if_neg hw, if_neg (by omega : ¬ 40 ≤ minute), if_neg (by omega : ¬ 40 ≤ second)] at htype
      by_cases hlow : 20 ≤ second ∧ second < 40
      · rw [if_pos hlow] at htype
        cases mode <;> exact absurd htype (by decide)
      · rw [if_neg hlow] at htype
        refine ⟨?_, hday.symm, by omega, hhour.symm⟩
        cases mode <;> first | rfl | exact absurd htype (by decide)
  · rintro ⟨rfl, rfl, hlow, rfl⟩
    rw [if_neg (by decide), if_neg (by omega : ¬ 40 ≤ hour), if_neg (by omega : ¬ 40 ≤ day),
      if_neg (by omega : ¬ (20 ≤ day ∧ day < 40))]
    exact ⟨⟨rfl, rfl, rfl, rfl⟩, rfl, setAlarm1_frame⟩

end alarm1

section alarm2

variable {mode : Alarm2Type}

theorem setAlarm2_register (r : ℕ) (hr : r ≠ DS3231_REG_CONTROL) (hr' : r ≠ DS3231_REG_STATUS) :
    ds3231SetAlarm2 d day hour minute mode armed r =
    masterSend d DS3231_REG_ALARM_2 (alarm2Bytes day hour minute mode) r :=
  (writeRegister8_of_ne _ _ hr').trans (writeRegister8_of_ne _ _ hr)

theorem setAlarm2_control : ds3231SetAlarm2 d day hour minute mode armed DS3231_REG_CONTROL =
    if armed then d DS3231_REG_CONTROL ||| 0b00000010 else d DS3231_REG_CONTROL &&& 0b11111101 := by
  have hkept : masterSend d DS3231_REG_ALARM_2 (alarm2Bytes day hour minute mode) DS3231_REG_CONTROL =
      d DS3231_REG_CONTROL := by
    rw [alarm2Bytes_eq]
    rfl
  have hne : DS3231_REG_CONTROL ≠ DS3231_REG_STATUS := by decide
  rw [ds3231SetAlarm2, ds3231ClearAlarm2, writeRegister8_of_ne _ _ hne, ds3231ArmAlarm2, writeRegister8_self,
    readRegister8, hkept]

theorem setAlarm2_fields :
    ds3231SetAlarm2 d day hour minute mode armed 0x0B = masked (mode.value.testBit 1) (dec2bcd minute) ∧
    ds3231SetAlarm2 d day hour minute mode armed 0x0C = masked (mode.value.testBit 2) (dec2bcd hour) ∧
    ds3231SetAlarm2 d day hour minute mode armed 0x0D = dayByte (mode = .matchDyHM) (mode.value.testBit 3) day := by
  refine ⟨?_, ?_, ?_⟩
  all_goals
    rw [setAlarm2_register _ (by decide) (by decide), alarm2Bytes_eq]
    rfl

theorem setAlarm2_frame :
    ds3231IsArmed2 (ds3231SetAlarm2 d day hour minute mode armed) = armed ∧
    (∀ r, 0x07 ≤ r → r ≤ 0x0A → ds3231SetAlarm2 d day hour minute mode armed r = d r) ∧
    ds3231IsArmed1 (ds3231SetAlarm2 d day hour minute mode armed) = ds3231IsArmed1 d := by
  obtain ⟨htwo, hone, -⟩ := arm2_bits (d DS3231_REG_CONTROL) armed
  refine ⟨?_, ?_, ?_⟩
  · rw [ds3231IsArmed2, readRegister8, setAlarm2_control, htwo]
    cases armed <;> rfl
  · intro r hr hr'
    rw [setAlarm2_register r (by unfold DS3231_REG_CONTROL; omega) (by unfold DS3231_REG_STATUS; omega), masterSend]
    exact if_pos (by unfold DS3231_REG_ALARM_2; omega)
  · rw [ds3231IsArmed1, readRegister8, setAlarm2_control, hone]
    rfl

theorem getAlarm2_set (hd : day ≤ if mode = .matchDyHM then 7 else 31) (hh : hour < 24) (hm : minute < 60) :
    (ds3231GetAlarm2 (ds3231SetAlarm2 d day hour minute mode armed)).day = minute ∧
    (ds3231GetAlarm2 (ds3231SetAlarm2 d day hour minute mode armed)).hour = hour ∧
    (ds3231GetAlarm2 (ds3231SetAlarm2 d day hour minute mode armed)).minute =
      day + if mode = .matchDyHM then 40 else 0 := by
  obtain ⟨h0, h1, h2⟩ := @setAlarm2_fields d day hour minute armed mode
  have hday := (dayByte_value (mode = .matchDyHM) (mode.value.testBit 3) (by simpa only [decide_eq_true_eq] using hd)).1
  simp only [decide_eq_true_eq] at hday
  rw [ds3231GetAlarm2, alarmTime_eq]
  simp only [DS3231_REG_ALARM_2, Nat.reduceAdd, h0, h1, h2, hday]
  exact ⟨masked_value _ hm, masked_value _ (by omega), trivial⟩

theorem getAlarmType2_set (hd : day ≤ if mode = .matchDyHM then 7 else 31) (hh : hour < 24) (hm : minute < 60) :
    ds3231GetAlarmType2 (ds3231SetAlarm2 d day hour minute mode armed) =
    bcd2dec ((d DS3231_REG_CONTROL &&& 0b01000000) >>> 6) ||| (if mode = .matchDyHM then 2 else 0) |||
      (if 40 ≤ minute then 8 else 0) ||| if 20 ≤ minute ∧ minute < 40 then 10 else 0 := by
  obtain ⟨h0, h1, h2⟩ := @setAlarm2_fields d day hour minute armed mode
  have hday := (dayByte_value (mode = .matchDyHM) (mode.value.testBit 3) (by simpa only [decide_eq_true_eq] using hd)).2
  simp only [decide_eq_true_eq] at hday
  obtain ⟨hm6, hm5⟩ := masked_bits (mode.value.testBit 1) hm
  have hh6 := (masked_bits (mode.value.testBit 2) (by omega : hour < 60)).1
  rw [if_neg (by omega)] at hh6
  have hcontrol : ds3231SetAlarm2 d day hour minute mode armed 0x0E &&& 0b01000000 = d DS3231_REG_CONTROL &&& 0b01000000 := by
    have hset := @setAlarm2_control d day hour minute armed mode
    rw [DS3231_REG_CONTROL] at hset
    rw [hset]
    exact (arm2_bits (d 0x0E) armed).2.2
  rw [ds3231GetAlarmType2, alarmType_eq]
  simp only [DS3231_REG_ALARM_2, Nat.reduceAdd, h0, h1, h2, hday, hm6, hm5, hh6, hcontrol]
  have hnone : bcd2dec (0 >>> 4) = 0 := rfl
  rw [bcd2dec_bit (k := 5) (w := 2) rfl rfl, bcd2dec_bit (k := 3) (w := 8) rfl rfl, bcd2dec_bit (k := 1) (w := 10) rfl rfl,
    hnone, Nat.or_zero]

/-- The decoder swaps the day with the minutes, and reads the mode from the digits and from bit 6 of the control
register. -/
theorem alarm2Kept_iff (d : Ds3231) (armed : Bool) (hd' : day ≤ if mode = .matchDyHM then 7 else 31)
    (hh : hour < 24) (hm : minute < 60) :
    Alarm2Kept d day hour minute mode armed ↔
    mode = .matchDtHM ∧ day = minute ∧ minute < 20 ∧ d DS3231_REG_CONTROL &&& 0b01000000 = 0 := by
  obtain ⟨hgday, hghour, hgminute⟩ := @getAlarm2_set d day hour minute armed mode hd' hh hm
  unfold Alarm2Kept
  dsimp only
  rw [hgday, hghour, hgminute, getAlarmType2_set hd' hh hm]
  constructor
  · rintro ⟨⟨hday, -, hminute⟩, htype, -⟩
    by_cases hw : mode = .matchDyHM
    · rw [if_pos hw] at hminute
      omega
    · rw [if_neg hw] at hd'
      rw [if_neg hw, if_neg (by omega : ¬ 40 ≤ minute)] at htype
      by_cases hlow : 20 ≤ minute ∧ minute < 40
      · rw [if_pos hlow] at htype
        rcases and_sixtyFour (d DS3231_REG_CONTROL) with hc | hc
        · rw [hc] at htype
          cases mode <;> exact absurd htype (by decide)
        · rw [hc] at htype
          cases mode <;> exact absurd htype (by decide)
      · rw [if_neg hlow] at htype
        rcases and_sixtyFour (d DS3231_REG_CONTROL) with hc | hc
        · rw [hc] at htype
          refine ⟨?_, hday.symm, by omega, hc⟩
          cases mode <;> first | rfl | exact absurd htype (by decide)
        · rw [hc] at htype
          cases mode <;> exact absurd htype (by decide)
  · rintro ⟨rfl, rfl, hlow, hc⟩
    rw [if_neg (by decide), if_neg (by omega : ¬ 40 ≤ day), if_neg (by omega : ¬ (20 ≤ day ∧ day < 40)), hc]
    exact ⟨⟨rfl, rfl, rfl⟩, rfl, setAlarm2_frame⟩

end alarm2

/-- Only an alarm on a date whose fields look alike comes back: day and second (or minute) one number below 20, and
hour and minute one number for alarm 1. -/
theorem alarmKept_iff (d : Ds3231) (armed : Bool) (hh : hour < 24) (hm : minute < 60) (hs : second < 60) :
    (∀ mode : Alarm1Type, day ≤ (if mode = .matchDyHMS then 7 else 31) →
      (Alarm1Kept d day hour minute second mode armed ↔
        mode = .matchDtHMS ∧ day = second ∧ second < 20 ∧ hour = minute)) ∧
    (∀ mode : Alarm2Type, day ≤ (if mode = .matchDyHM then 7 else 31) →
      (Alarm2Kept d day hour minute mode armed ↔
        mode = .matchDtHM ∧ day = minute ∧ minute < 20 ∧ d DS3231_REG_CONTROL &&& 0b01000000 = 0)) := by
  constructor
  · intro mode hd
    exact alarm1Kept_iff d armed hd hh hm hs
  · intro mode hd
    exact alarm2Kept_iff d armed hd hh hm

theorem alarmKept_iff_alike : Alarm1Kept (fun _ => 0) 15 7 7 15 .matchDtHMS true ∧
    Alarm2Kept (fun _ => 0) 15 7 15 .matchDtHM true := by
  constructor
  · exact ((alarmKept_iff (fun _ => 0) true (by decide) (by decide) (by decide)).1 .matchDtHMS (by decide)).mpr
      ⟨rfl, rfl, by decide, rfl⟩
  · exact ((@alarmKept_iff 15 7 15 0 (fun _ => 0) true (by decide) (by decide) (by decide)).2 .matchDtHM (by decide)).mpr
      ⟨rfl, rfl, by decide, rfl⟩

/-- The alarm on the fifth at 12:30:45 is read as the 45th at 30:12:05, and as one of every day. -/
theorem alarm1_swapped :
    ds3231GetAlarm1 (ds3231SetAlarm1 (fun _ => 0) 5 12 30 45 .matchDtHMS true) = ⟨45, 30, 12, 5⟩ ∧
    ds3231GetAlarmType1 (ds3231SetAlarm1 (fun _ => 0) 5 12 30 45 .matchDtHMS true) = Alarm1Type.matchHMS.value ∧
    ¬ Alarm1Kept (fun _ => 0) 5 12 30 45 .matchDtHMS true := by
  refine ⟨rfl, rfl, ?_⟩
  rintro ⟨htime, -⟩
  exact absurd htime (by decide)

end Lpc1788Libraries.Rtc

import Lpc1788Libraries.Nmea.GpsDecoding
import Mathlib.Tactic.IntervalCases

namespace Lpc1788Libraries.Nmea

open Lpc1788Libraries.Support IntegerText

def decimalChar (d : ℕ) : UInt8 := UInt8.ofNat (0x30 + d)

def twoText (v : ℕ) : List UInt8 := [decimalChar (v / 10), decimalChar (v % 10)]

def threeText (v : ℕ) : List UInt8 := [decimalChar (v / 100), decimalChar (v / 10 % 10), decimalChar (v % 10)]

/-- An RMC sentence: the values that its characters are the digits of, and the texts of the other fields. -/
structure Rmc where
  hour : ℕ
  minute : ℕ
  second : ℕ
  secondFraction : List UInt8
  status : List UInt8
  latitudeDegrees : ℕ
  latitudeMinutes : ℕ
  latitudeFraction : ℕ
  north : UInt8
  longitudeDegrees : ℕ
  longitudeMinutes : ℕ
  longitudeFraction : ℕ
  east : UInt8
  speed : List UInt8
  course : List UInt8
  day : ℕ
  month : ℕ
  year : ℕ
  variation : List UInt8

namespace Rmc

variable (s : Rmc)

def timeText : List UInt8 := twoText s.hour ++ twoText s.minute ++ twoText s.second ++ s.secondFraction

def latitudeText : List UInt8 := twoText s.latitudeDegrees ++ twoText s.latitudeMinutes ++ 0x2e :: threeText s.latitudeFraction

def longitudeText : List UInt8 :=
  threeText s.longitudeDegrees ++ twoText s.longitudeMinutes ++ 0x2e :: threeText s.longitudeFraction

def dateText : List UInt8 := twoText s.day ++ twoText s.month ++ twoText s.year

/-- The sentence behind `GPRMC,`. -/
def fields (stop : List UInt8) : List UInt8 :=
  s.timeText ++ 0x2c :: (s.status ++ 0x2c :: (s.latitudeText ++ 0x2c :: ([s.north] ++ 0x2c :: (s.longitudeText ++ 0x2c ::
    ([s.east] ++ 0x2c :: (s.speed ++ 0x2c :: (s.course ++ 0x2c :: (s.dateText ++ (s.variation ++ stop)))))))))

def buffer (stale : List UInt8) : List UInt8 := [0x47, 0x50, 0x52, 0x4d, 0x43, 0x2c] ++ s.fields (0 :: stale)

/-- Behind the date: nothing, or a field that is empty or begins with a digit. -/
def Variation (t : List UInt8) : Prop :=
  t = [] ∨ ∃ r, t = 0x2c :: r ∧ (r = [] ∨ ∃ c r', r = c :: r' ∧ (c = 0x2c ∨ isDigit 10 c))

structure WellFormed : Prop where
  hour : s.hour < 100
  minute : s.minute < 100
  second : s.second < 100
  secondFraction : Plain s.secondFraction
  status : Plain s.status
  latitudeDegrees : s.latitudeDegrees < 100
  latitudeMinutes : s.latitudeMinutes < 100
  latitudeFraction : s.latitudeFraction < 1000
  north : s.north = 0x4e ∨ s.north = 0x53
  longitudeDegrees : s.longitudeDegrees < 1000
  longitudeMinutes : s.longitudeMinutes < 100
  longitudeFraction : s.longitudeFraction < 1000
  east : s.east = 0x45 ∨ s.east = 0x57
  speed : Plain s.speed
  course : Plain s.course
  day : s.day < 100
  month : s.month < 100
  year : s.year < 100
  variation : Variation s.variation

end Rmc

variable {s : Rmc} {gps : Gps} {stale t r : List UInt8} {v k : ℕ} {c : UInt8}

section text

theorem decimalChar_toNat {d : ℕ} (h : d < 10) : (decimalChar d).toNat = 0x30 + d := by
  unfold decimalChar
  rw [UInt8.toNat_ofNat', Nat.mod_eq_of_lt]
  omega

theorem plain_append {t t' : List UInt8} (h : Plain t) (h' : Plain t') : Plain (t ++ t') := by
  intro c hc
  exact (List.mem_append.mp hc).elim (h c) (h' c)

theorem plain_cons {t : List UInt8} (hc : c ≠ 0x2c ∧ c ≠ 0) (h : Plain t) : Plain (c :: t) := by
  intro d hd
  rcases List.mem_cons.mp hd with rfl | hd
  · exact hc
  · exact h d hd

theorem plain_nil : Plain [] := fun _ hc => absurd hc List.not_mem_nil

theorem plain_decimalChar {d : ℕ} (h : d < 10) : decimalChar d ≠ 0x2c ∧ decimalChar d ≠ 0 := by
  have hn := decimalChar_toNat h
  constructor
  · intro he
    rw [he] at hn
    exact absurd hn (by change 0x2c ≠ _; omega)
  · intro he
    rw [he] at hn
    exact absurd hn (by change 0 ≠ _; omega)

theorem plain_twoText (h : v < 100) : Plain (twoText v) := by
  apply plain_cons (plain_decimalChar (by omega))
  exact plain_cons (plain_decimalChar (by omega)) plain_nil

theorem plain_threeText (h : v < 1000) : Plain (threeText v) := by
  apply plain_cons (plain_decimalChar (by omega))
  apply plain_cons (plain_decimalChar (by omega))
  exact plain_cons (plain_decimalChar (by omega)) plain_nil

theorem findNextParam_end (h : Plain t) : nmeaFindNextParam (t ++ 0 :: r) = some (0 :: r) := by
  induction t with
  | nil => rfl
  | cons c t ih =>
    obtain ⟨hcomma, hzero⟩ := h c List.mem_cons_self
    rw [List.cons_append, nmeaFindNextParam, if_neg hcomma, if_neg hzero]
    exact ih fun c hc => h c (List.mem_cons_of_mem _ hc)

end text

section parser

/-- The character that the date is computed from. -/
def Rmc.dateChar (s : Rmc) : UInt8 := (s.variation ++ [0]).tail.headD 0

/-- What the parser makes of the sentence. -/
def Rmc.parsed (s : Rmc) (gps : Gps) : Gps :=
  { gps with
    rmcTime :=
      { utcHour := toU8 (toU8 (twoDigitsAt (decimalChar (s.hour / 10)) 0) - 4)
        utcMin := toU8 (twoDigitsAt (decimalChar (s.hour / 10)) 2)
        utcSec := toU8 (twoDigitsAt (decimalChar (s.hour / 10)) 4) }
    latitude :=
      { degrees := toU8 (twoDigitsAt (decimalChar (s.latitudeDegrees / 10)) 0)
        minutes := toU8 (twoDigitsAt (decimalChar (s.latitudeDegrees / 10)) 2)
        minutesFraction := toU8 (threeDigitsAt (decimalChar (s.latitudeDegrees / 10)) 5)
        orientation := s.north }
    longitude :=
      { degrees := toU8 (threeDigitsAt (decimalChar (s.longitudeDegrees / 100)) 0)
        minutes := toU8 (twoDigitsAt (decimalChar (s.longitudeDegrees / 100)) 3)
        minutesFraction := toU8 (threeDigitsAt (decimalChar (s.longitudeDegrees / 100)) 6)
        orientation := s.east }
    rmcDate :=
      { utcDate := toU8 (twoDigitsAt s.dateChar 0)
        utcMonth := toU8 (twoDigitsAt s.dateChar 2)
        utcYear := toU8 (twoDigitsAt s.dateChar 4) }
    rmcDataValid := true }

theorem findNextParam_variation (ht : Plain t) (h : Rmc.Variation s.variation) (stale : List UInt8) :
    ∃ l, nmeaFindNextParam (t ++ (s.variation ++ 0 :: stale)) = some l ∧ l.head? = some s.dateChar := by
  unfold Rmc.dateChar
  rcases h with hv | ⟨r, hv, rfl | ⟨c, r', rfl, -⟩⟩
  · rw [hv]
    exact ⟨0 :: stale, findNextParam_end ht, rfl⟩
  · rw [hv]
    exact ⟨0 :: stale, findNextParam_skip ht, rfl⟩
  · rw [hv]
    exact ⟨c :: (r' ++ 0 :: stale), findNextParam_skip ht, rfl⟩

theorem parseRmc_eq (h : s.WellFormed) (gps : Gps) (stale : List UInt8) :
    parseRmc gps (s.fields (0 :: stale)) = some (s.parsed gps) := by
  have htime : Plain s.timeText := plain_append (plain_append (plain_append (plain_twoText h.hour)
    (plain_twoText h.minute)) (plain_twoText h.second)) h.secondFraction
  have hlatitude : Plain s.latitudeText := plain_append (plain_append (plain_twoText h.latitudeDegrees)
    (plain_twoText h.latitudeMinutes)) (plain_cons (by decide) (plain_threeText h.latitudeFraction))
  have hlongitude : Plain s.longitudeText := plain_append (plain_append (plain_threeText h.longitudeDegrees)
    (plain_twoText h.longitudeMinutes)) (plain_cons (by decide) (plain_threeText h.longitudeFraction))
  have hnorth : Plain [s.north] := by
    apply plain_cons _ plain_nil
    rcases h.north with hn | hn
    · rw [hn]
      decide
    · rw [hn]
      decide
  have heast : Plain [s.east] := by
    apply plain_cons _ plain_nil
    rcases h.east with he | he
    · rw [he]
      decide
    · rw [he]
      decide
  have hdate : Plain s.dateText := plain_append (plain_append (plain_twoText h.day) (plain_twoText h.month))
    (plain_twoText h.year)
  obtain ⟨l, hskip, hhead⟩ := findNextParam_variation hdate h.variation stale
  unfold parseRmc
  apply bind_some rfl
  apply bind_some (findNextParam_skip htime)
  apply bind_some (findNextParam_skip h.status)
  apply bind_some rfl
  apply bind_some (findNextParam_skip hlatitude)
  apply bind_some rfl
  apply bind_some (findNextParam_skip hnorth)
  apply bind_some rfl
  apply bind_some (findNextParam_skip hlongitude)
  apply bind_some rfl
  apply bind_some (findNextParam_skip heast)
  apply bind_some (findNextParam_skip h.speed)
  apply bind_some (findNextParam_skip h.course)
  apply bind_some hskip
  apply bind_some hhead
  rfl

theorem frame_rmc (h : s.WellFormed) (gps : Gps) (stale : List UInt8) :
    nmeaOnRxFrame gps (s.buffer stale) = some
      ({ s.parsed gps with
          nmeaData := { gps.nmeaData with ggaValidFlag := false, vtgValidFlag := false }, rmcDataValid := false },
        [.onValidStr, .onValidGpsData]) := by
  have hpopulated : rmcPopulated (s.parsed gps) =
      ({ s.parsed gps with
          nmeaData := { gps.nmeaData with ggaValidFlag := false, vtgValidFlag := false }, rmcDataValid := false },
        [.onValidGpsData]) := if_pos (Bool.or_true _)
  have hmessage : nmeaOnMessage gps ([0x52, 0x4d, 0x43, 0x2c] ++ s.fields (0 :: stale)) =
      some (rmcPopulated (s.parsed gps)) := by
    change (parseRmc gps (s.fields (0 :: stale)) >>= fun g => some (rmcPopulated g)) = _
    rw [parseRmc_eq h gps stale]
    rfl
  change (nmeaOnMessage gps ([0x52, 0x4d, 0x43, 0x2c] ++ s.fields (0 :: stale)) >>= fun r =>
    some (r.1, NmeaCall.onValidStr :: r.2)) = _
  rw [hmessage, hpopulated]
  rfl

end parser

section decoding

/-- The variables are the values of the characters of the sentence, the hour in the time zone. -/
def RmcDecoded (gps : Gps) (s : Rmc) (stale : List UInt8) : Prop :=
  ∃ gps' calls, nmeaOnRxFrame gps (s.buffer stale) = some (gps', calls) ∧
    (gps'.rmcTime.utcHour : ℤ) = ((s.hour : ℤ) - 4) % 24 ∧ gps'.rmcTime.utcMin = s.minute ∧
    gps'.rmcTime.utcSec = s.second ∧
    gps'.latitude = ⟨s.latitudeDegrees, s.latitudeMinutes, s.latitudeFraction, s.north⟩ ∧
    gps'.longitude = ⟨s.longitudeDegrees, s.longitudeMinutes, s.longitudeFraction, s.east⟩ ∧
    gps'.rmcDate = ⟨s.day, s.month, s.year⟩

theorem twoDigits_eq {a : ℕ} (ha : a < 10) (k : ℕ) :
    toU8 (twoDigitsAt (decimalChar a) k) = (11 * a + 11 * k + 1) % 256 := by
  have hc : (decimalChar a).toNat = 0x30 + a := decimalChar_toNat ha
  unfold twoDigitsAt toU8
  rw [hc]
  omega

theorem threeDigits_eq {a : ℕ} (ha : a < 10) (k : ℕ) :
    toU8 (threeDigitsAt (decimalChar a) k) = (111 * a + 111 * k + 12) % 256 := by
  have hc : (decimalChar a).toNat = 0x30 + a := decimalChar_toNat ha
  unfold threeDigitsAt toU8
  rw [hc]
  omega

theorem time_iff (h : s.WellFormed) :
    (((s.parsed gps).rmcTime.utcHour : ℤ) = ((s.hour : ℤ) - 4) % 24 ∧ (s.parsed gps).rmcTime.utcMin = s.minute ∧
      (s.parsed gps).rmcTime.utcSec = s.second) ↔
    (s.hour, s.minute, s.second) ∈ [(12, 34, 56), (23, 45, 67)] := by
  have hhour := h.hour
  have hfirst : s.hour / 10 < 10 := by omega
  have h0 := twoDigits_eq hfirst 0
  have h2 := twoDigits_eq hfirst 2
  have h4 := twoDigits_eq hfirst 4
  unfold Rmc.parsed
  simp only [Nat.cast_ofNat, Nat.cast_zero] at h0 h2 h4
  simp only [h0, h2, h4, List.mem_cons, Prod.mk.injEq, List.not_mem_nil, or_false]
  unfold toU8
  obtain ⟨a, ha⟩ : ∃ a, s.hour / 10 = a := ⟨_, rfl⟩
  rw [ha] at hfirst ⊢
  interval_cases a <;> omega

theorem latitude_iff (h : s.WellFormed) :
    (s.parsed gps).latitude = ⟨s.latitudeDegrees, s.latitudeMinutes, s.latitudeFraction, s.north⟩ ↔
    (s.latitudeDegrees, s.latitudeMinutes, s.latitudeFraction) ∈
      [(1, 23, 55), (12, 34, 166), (23, 45, 21), (34, 56, 132), (45, 67, 243), (56, 78, 98), (67, 89, 209)] := by
  have hdegrees := h.latitudeDegrees
  have hminutes := h.latitudeMinutes
  have hfirst : s.latitudeDegrees / 10 < 10 := by omega
  have h0 := twoDigits_eq hfirst 0
  have h2 := twoDigits_eq hfirst 2
  have h5 := threeDigits_eq hfirst 5
  unfold Rmc.parsed
  simp only [Nat.cast_ofNat, Nat.cast_zero] at h0 h2 h5
  simp only [h0, h2, h5, GpsCoordinate.mk.injEq, List.mem_cons, Prod.mk.injEq, List.not_mem_nil, or_false, and_true]
  obtain ⟨a, ha⟩ : ∃ a, s.latitudeDegrees / 10 = a := ⟨_, rfl⟩
  rw [ha] at hfirst ⊢
  constructor
  · rintro ⟨hdeg, hmin, hfrac⟩
    clear h0 h2 h5
    rw [← hdeg] at ha
    rw [← hmin] at hminutes
    rw [← hdeg, ← hmin, ← hfrac]
    -- a nine does not give its own degrees, a seven and an eight give too many minutes
    interval_cases a
    all_goals first
      | decide
      | exact absurd ha (by decide)
      | exact absurd hminutes (by decide)
  · intro hmem
    interval_cases a <;> omega

theorem longitude_iff (h : s.WellFormed) :
    (s.parsed gps).longitude = ⟨s.longitudeDegrees, s.longitudeMinutes, s.longitudeFraction, s.east⟩ ↔
    (s.longitudeDegrees, s.longitudeMinutes, s.longitudeFraction) ∈ [(12, 34, 166), (123, 45, 21), (234, 56, 132)] := by
  have hdegrees := h.longitudeDegrees
  have hfirst : s.longitudeDegrees / 100 < 10 := by omega
  have h0 := threeDigits_eq hfirst 0
  have h3 := twoDigits_eq hfirst 3
  have h6 := threeDigits_eq hfirst 6
  unfold Rmc.parsed
  simp only [Nat.cast_ofNat, Nat.cast_zero] at h0 h3 h6
  simp only [h0, h3, h6, GpsCoordinate.mk.injEq, List.mem_cons, Prod.mk.injEq, List.not_mem_nil, or_false, and_true]
  obtain ⟨a, ha⟩ : ∃ a, s.longitudeDegrees / 100 = a := ⟨_, rfl⟩
  rw [ha] at hfirst ⊢
  interval_cases a <;> omega

theorem dateChar_cases (h : Rmc.Variation s.variation) : s.dateChar = 0 ∨ s.dateChar = 0x2c ∨
    ∃ d < 10, s.dateChar = decimalChar d := by
  unfold Rmc.dateChar
  rcases h with hv | ⟨r, hv, rfl | ⟨c, r', rfl, hc | hc⟩⟩
  · rw [hv]
    exact Or.inl rfl
  · rw [hv]
    exact Or.inl rfl
  · rw [hv]
    exact Or.inr (Or.inl hc)
  · obtain ⟨hlo, hhi, -⟩ := digit_range hc
    rw [hv]
    refine Or.inr (Or.inr ⟨c.toNat - 0x30, by omega, ?_⟩)
    apply UInt8.toNat_inj.mp
    rw [decimalChar_toNat (by omega)]
    change c.toNat = _
    omega

theorem dateChar_digit {d : ℕ} (hd : d < 10) (h : Rmc.Variation s.variation) :
    s.dateChar = decimalChar d ↔ [0x2c, decimalChar d] <+: s.variation := by
  obtain ⟨-, hzero⟩ := plain_decimalChar hd
  unfold Rmc.dateChar
  rcases h with hv | ⟨r, hv, rfl | ⟨c, r', rfl, -⟩⟩
  · rw [hv]
    exact ⟨fun he => absurd he.symm hzero, fun hp => absurd (List.prefix_nil.mp hp) (List.cons_ne_nil _ _)⟩
  · rw [hv]
    constructor
    · intro he
      exact absurd he.symm hzero
    · intro hp
      exact absurd (List.prefix_nil.mp (List.cons_prefix_cons.mp hp).2) (List.cons_ne_nil _ _)
  · rw [hv]
    constructor
    · intro he
      have hc : c = decimalChar d := he
      rw [hc]
      exact ⟨r', rfl⟩
    · intro hp
      exact (List.cons_prefix_cons.mp (List.cons_prefix_cons.mp hp).2).1.symm

theorem date_iff (h : s.WellFormed) :
    (s.parsed gps).rmcDate = ⟨s.day, s.month, s.year⟩ ↔
    (s.day, s.month, s.year) ∈ [(1, 23, 45), (12, 34, 56), (23, 45, 67), (34, 56, 78), (45, 67, 89)] ∧
    [0x2c, decimalChar (s.day / 10)] <+: s.variation := by
  have hday := h.day
  have hyear := h.year
  have hfirst : s.day / 10 < 10 := by omega
  obtain ⟨hcomma, hzero⟩ := plain_decimalChar hfirst
  rw [← dateChar_digit hfirst h.variation]
  unfold Rmc.parsed
  simp only [UtcDate.mk.injEq, List.mem_cons, Prod.mk.injEq, List.not_mem_nil, or_false]
  rcases dateChar_cases h.variation with hc | hc | ⟨d, hd, hc⟩
  · rw [hc]
    constructor
    · rintro ⟨hd, -⟩
      have h0 : toU8 (twoDigitsAt 0 0) = 241 := rfl
      omega
    · rintro ⟨-, hd⟩
      exact absurd hd.symm hzero
  · rw [hc]
    constructor
    · rintro ⟨hd, -⟩
      have h0 : toU8 (twoDigitsAt 0x2c 0) = 213 := rfl
      omega
    · rintro ⟨-, hd⟩
      exact absurd hd.symm hcomma
  · have h0 := twoDigits_eq hd 0
    have h2 := twoDigits_eq hd 2
    have h4 := twoDigits_eq hd 4
    have hinj : decimalChar d = decimalChar (s.day / 10) ↔ d = s.day / 10 := by
      rw [← UInt8.toNat_inj, decimalChar_toNat hd, decimalChar_toNat hfirst]
      omega
    simp only [Nat.cast_ofNat, Nat.cast_zero] at h0 h2 h4
    rw [hc, hinj, h0, h2, h4]
    interval_cases d <;> omega

/-- A sentence is decoded where in each of its fields every digit is the one behind the digit before, and where the field
behind the date begins as the date. -/
theorem rmcDecoded_iff (h : s.WellFormed) (gps : Gps) (stale : List UInt8) : RmcDecoded gps s stale ↔
    (s.hour, s.minute, s.second) ∈ [(12, 34, 56), (23, 45, 67)] ∧
    (s.latitudeDegrees, s.latitudeMinutes, s.latitudeFraction) ∈
      [(1, 23, 55), (12, 34, 166), (23, 45, 21), (34, 56, 132), (45, 67, 243), (56, 78, 98), (67, 89, 209)] ∧
    (s.longitudeDegrees, s.longitudeMinutes, s.longitudeFraction) ∈ [(12, 34, 166), (123, 45, 21), (234, 56, 132)] ∧
    (s.day, s.month, s.year) ∈ [(1, 23, 45), (12, 34, 56), (23, 45, 67), (34, 56, 78), (45, 67, 89)] ∧
    [0x2c, decimalChar (s.day / 10)] <+: s.variation := by
  have hframe := frame_rmc h gps stale
  rw [← @time_iff s gps h, ← @latitude_iff s gps h, ← @longitude_iff s gps h, ← @date_iff s gps h]
  constructor
  · rintro ⟨gps', calls, hr, hhour, hmin, hsec, hlatitude, hlongitude, hdate⟩
    rw [hframe] at hr
    obtain ⟨rfl, rfl⟩ := Prod.mk.inj (Option.some.inj hr)
    exact ⟨⟨hhour, hmin, hsec⟩, hlatitude, hlongitude, hdate⟩
  · rintro ⟨⟨hhour, hmin, hsec⟩, hlatitude, hlongitude, hdate⟩
    exact ⟨_, _, hframe, hhour, hmin, hsec, hlatitude, hlongitude, hdate⟩

/-- The sentence of those values, `A` and `022.4,084.4` between them, and the field behind the date. -/
def sampleRmc (time latitude longitude date : ℕ × ℕ × ℕ) (variation : List UInt8) : Rmc where
  hour := time.1
  minute := time.2.1
  second := time.2.2
  secondFraction := []
  status := [0x41]
  latitudeDegrees := latitude.1
  latitudeMinutes := latitude.2.1
  latitudeFraction := latitude.2.2
  north := 0x4e
  longitudeDegrees := longitude.1
  longitudeMinutes := longitude.2.1
  longitudeFraction := longitude.2.2
  east := 0x45
  speed := [0x30, 0x32, 0x32, 0x2e, 0x34]
  course := [0x30, 0x38, 0x34, 0x2e, 0x34]
  day := date.1
  month := date.2.1
  year := date.2.2
  variation := variation

/-- `123456,A,0123.055,N,01234.166,E,022.4,084.4,123456,103.1,W` -/
def evenRmc : Rmc :=
  sampleRmc (12, 34, 56) (1, 23, 55) (12, 34, 166) (12, 34, 56) [0x2c, 0x31, 0x30, 0x33, 0x2e, 0x31, 0x2c, 0x57]

/-- `123519,A,4807.038,N,01131.000,E,022.4,084.4,230394,003.1,W` -/
def documentedRmc : Rmc :=
  sampleRmc (12, 35, 19) (48, 7, 38) (11, 31, 0) (23, 3, 94) [0x2c, 0x30, 0x30, 0x33, 0x2e, 0x31, 0x2c, 0x57]

theorem sampleRmc_wellFormed {time latitude longitude date : ℕ × ℕ × ℕ} {variation : List UInt8}
    (ht : time.1 < 100 ∧ time.2.1 < 100 ∧ time.2.2 < 100)
    (hlatitude : latitude.1 < 100 ∧ latitude.2.1 < 100 ∧ latitude.2.2 < 1000)
    (hlongitude : longitude.1 < 1000 ∧ longitude.2.1 < 100 ∧ longitude.2.2 < 1000)
    (hdate : date.1 < 100 ∧ date.2.1 < 100 ∧ date.2.2 < 100) (hvariation : Rmc.Variation variation) :
    (sampleRmc time latitude longitude date variation).WellFormed where
  hour := ht.1
  minute := ht.2.1
  second := ht.2.2
  secondFraction := plain_nil
  status := plain_cons (by decide) plain_nil
  latitudeDegrees := hlatitude.1
  latitudeMinutes := hlatitude.2.1
  latitudeFraction := hlatitude.2.2
  north := Or.inl rfl
  longitudeDegrees := hlongitude.1
  longitudeMinutes := hlongitude.2.1
  longitudeFraction := hlongitude.2.2
  east := Or.inl rfl
  speed := of_decide_eq_true rfl
  course := of_decide_eq_true rfl
  day := hdate.1
  month := hdate.2.1
  year := hdate.2.2
  variation := hvariation

theorem evenRmc_wellFormed : evenRmc.WellFormed := by
  apply sampleRmc_wellFormed (by decide) (by decide) (by decide) (by decide)
  exact Or.inr ⟨_, rfl, Or.inr ⟨_, _, rfl, Or.inr (by decide)⟩⟩

theorem documentedRmc_wellFormed : documentedRmc.WellFormed := by
  apply sampleRmc_wellFormed (by decide) (by decide) (by decide) (by decide)
  exact Or.inr ⟨_, rfl, Or.inr ⟨_, _, rfl, Or.inr (by decide)⟩⟩

theorem rmcDecoded_iff_even : RmcDecoded resetGps evenRmc [] :=
  (rmcDecoded_iff evenRmc_wellFormed resetGps []).mpr (by decide)

/-- The sentence that stands above the parser. -/
theorem documentedRmc_not_decoded : documentedRmc.WellFormed ∧ ¬ RmcDecoded resetGps documentedRmc [] := by
  refine ⟨documentedRmc_wellFormed, ?_⟩
  rintro ⟨gps', calls, hr, -, hminute, -⟩
  have hframe := frame_rmc documentedRmc_wellFormed resetGps []
  rw [hframe] at hr
  obtain ⟨rfl, rfl⟩ := Prod.mk.inj (Option.some.inj hr)
  exact absurd hminute (by decide)

end decoding

end Lpc1788Libraries.Nmea

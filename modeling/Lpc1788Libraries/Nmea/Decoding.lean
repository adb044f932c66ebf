import Lpc1788Libraries.Nmea.Fields

namespace Lpc1788Libraries.Nmea

open Lpc1788Libraries.Support IntegerText

/-- A number of a sentence, with the digits of its fraction, if it has one. -/
structure Decimal where
  digits : List UInt8
  fraction : Option (List UInt8)

namespace Decimal

variable (d : Decimal)

structure WellFormed : Prop where
  digits : ∀ c ∈ d.digits, isDigit 10 c
  fraction : ∀ f, d.fraction = some f → ∀ c ∈ f, isDigit 10 c

def fractionText : List UInt8 := d.fraction.elim [] (0x2e :: ·)

def text : List UInt8 := d.digits ++ d.fractionText

def value : ℕ := valueOf 10 d.digits

/-- The fraction in so many digits. -/
def fractionValue (p : ℕ) : ℕ := d.fraction.elim 0 fun f => valueOf 10 (fractionDigits p f)

/-- What the parser has for the fraction: the one of the sentence before where there is none. -/
def fractionOr (p old : ℕ) : ℕ := d.fraction.elim old fun f => valueOf 10 (fractionDigits p f)

/-- What the parser leaves of the number. -/
def remainder (p : ℕ) : List UInt8 := d.fraction.elim [] fun f => f.drop p

end Decimal

variable {d : Decimal} {w p k : ℕ} {c : UInt8} {r : List UInt8}

section decimal

theorem fractionOr_eq_iff : d.fractionOr p k = d.fractionValue p ↔ d.fraction ≠ none ∨ k = 0 := by
  unfold Decimal.fractionOr Decimal.fractionValue
  cases d.fraction with
  | none => simp
  | some f => simp

theorem fractionText_stops (d : Decimal) (hc : stops c) (r : List UInt8) :
    ∃ c' r', d.fractionText ++ c :: r = c' :: r' ∧ stops c' = true := by
  unfold Decimal.fractionText
  cases d.fraction with
  | none => exact ⟨c, r, rfl, hc⟩
  | some f => exact ⟨0x2e, f ++ c :: r, rfl, rfl⟩

theorem parseUnsigned_whole {ds : List UInt8} (hds : ∀ c ∈ ds, isDigit 10 c) (hc : stops c) (hw : 0x30 ≤ 2 ^ w)
    (hv : valueOf 10 ds < 2 ^ w) : nmeaParseStrToUnsigned w (ds ++ c :: r) 0 = some (c :: r, valueOf 10 ds) := by
  have hparse := parseUnsigned_digits (r := r) hds hc hw 0
  rw [Nat.zero_mod] at hparse
  rw [hparse, ← valueOf_eq, Nat.mod_eq_of_lt hv]

theorem parseUnsigned_decimal (h : d.WellFormed) (hc : stops c) (hw : 0x30 ≤ 2 ^ w) (hv : d.value < 2 ^ w) :
    nmeaParseStrToUnsigned w (d.text ++ c :: r) 0 = some (d.fractionText ++ c :: r, d.value) := by
  obtain ⟨c', r', htext, hc'⟩ := fractionText_stops d hc r
  rw [Decimal.text, List.append_assoc, htext]
  exact parseUnsigned_whole h.digits hc' hw hv

/-- The fraction of two bytes or one, and the number of its digits, as the parser asks for them. -/
structure Wide (w p : ℕ) : Prop where
  digit : 0x30 ≤ 2 ^ w
  digits : 10 ^ p ≤ 2 ^ w

theorem fractionDigits_spec {f : List UInt8} (h : ∀ c ∈ f, isDigit 10 c) (p : ℕ) :
    (∀ c ∈ fractionDigits p f, isDigit 10 c) ∧ (fractionDigits p f).length = p := by
  constructor
  · intro c hc
    rcases List.mem_append.mp (List.mem_of_mem_take hc) with hf | hz
    · exact h c hf
    · rw [List.eq_of_mem_replicate hz]
      rfl
  · rw [fractionDigits, List.length_take, List.length_append, List.length_replicate]
    omega

theorem optionalFraction_decimal (h : d.WellFormed) (hc : stops c) (hdot : c ≠ 0x2e) (hw : Wide w p) (k : ℕ) :
    optionalFraction w p k (d.fractionText ++ c :: r) = some (d.remainder p ++ c :: r, d.fractionOr p k) := by
  unfold Decimal.fractionText Decimal.remainder Decimal.fractionOr
  cases hf : d.fraction with
  | none => exact if_neg hdot
  | some f =>
    obtain ⟨hdigits, hlen⟩ := fractionDigits_spec (h.fraction f hf) p
    have hlt : appended 0 (fractionDigits p f) < 2 ^ w := by
      have hbound := appended_lt hdigits 0
      rw [hlen, Nat.zero_add, Nat.one_mul] at hbound
      exact hbound.trans_le hw.digits
    have hparse := parseFraction_digits (r := r) (h.fraction f hf) hc hw.digit 0 p
    rw [Nat.mod_eq_of_lt hlt, Nat.zero_mod] at hparse
    exact hparse

theorem findNextParam_decimal (h : d.WellFormed) (p : ℕ) :
    nmeaFindNextParam (d.remainder p ++ 0x2c :: r) = some r := by
  apply findNextParam_skip
  unfold Decimal.remainder
  cases hf : d.fraction with
  | none =>
    intro c hc
    exact absurd hc List.not_mem_nil
  | some f =>
    intro c hc
    obtain ⟨-, -, -, hcomma, hzero⟩ := digit_plain (h.fraction f hf c (List.mem_of_mem_drop hc))
    exact ⟨hcomma, hzero⟩

theorem parseS16_digits {ds : List UInt8} (hds : ∀ c ∈ ds, isDigit 10 c) (hc : stops c) :
    nmeaParseStrToS16 (ds ++ c :: r) = some (c :: r, toS16 (valueOf 10 ds)) ∧
    nmeaParseStrToS16 (0x2d :: (ds ++ c :: r)) = some (c :: r, toS16 (toS16 (valueOf 10 ds) * -1)) := by
  have hloop := fun b => parseS16Loop_digits (r := r) hds hc b 0
  have hzero : toS16 ((0 : ℕ) : ℤ) = 0 := rfl
  rw [hzero] at hloop
  constructor
  · unfold nmeaParseStrToS16
    rw [hloop false, Option.map_some, valueOf_eq]
    dsimp only
    rw [if_neg Bool.false_ne_true]
  · have hminus : nmeaParseStrToS16Loop (0x2d :: (ds ++ c :: r)) false 0 = nmeaParseStrToS16Loop (ds ++ c :: r) true 0 := rfl
    unfold nmeaParseStrToS16
    rw [hminus, hloop true, Option.map_some, valueOf_eq]
    dsimp only
    rw [if_pos rfl]

end decimal

section gga

/-- A text without a comma. -/
def Plain (t : List UInt8) : Prop := ∀ c ∈ t, c ≠ 0x2c ∧ c ≠ 0

instance (t : List UInt8) : Decidable (Plain t) := List.decidableBAll _ t

/-- What follows the last field that is read: nothing, or more fields. -/
def Tail (t : List UInt8) : Prop := (∀ c ∈ t, c ≠ 0) ∧ (t = [] ∨ t.head? = some 0x2c)

/-- With its sign the number is one of 16 bits. -/
def FitsS16 (negative : Prop) (v : ℕ) : Prop := v < 2 ^ 15 ∨ negative ∧ v = 2 ^ 15

def signed (negative : Prop) [Decidable negative] (v : ℕ) : ℤ := if negative then -v else v

theorem toS16_signed {negative : Prop} [Decidable negative] {v : ℕ} (h : FitsS16 negative v) :
    (if negative then toS16 (toS16 v * -1) else toS16 v) = signed negative v := by
  unfold FitsS16 at h
  unfold signed toS16
  by_cases hn : negative
  · rw [if_pos hn, if_pos hn]
    omega
  · have hv : v < 2 ^ 15 := h.elim id fun h => absurd h.1 hn
    rw [if_neg hn, if_neg hn]
    omega

/-- A GGA sentence. -/
structure Gga where
  time : Decimal
  latitude : Decimal
  north : List UInt8
  longitude : Decimal
  east : List UInt8
  fix : List UInt8
  satellites : List UInt8
  hdop : Decimal
  altitudeSign : Bool
  altitude : Decimal
  tail : List UInt8

namespace Gga

variable (s : Gga)

def signText : List UInt8 := if s.altitudeSign then [0x2d] else []

/-- The sentence behind `GPGGA,`. -/
def fields (stop : List UInt8) : List UInt8 :=
  s.time.text ++ 0x2c :: (s.latitude.text ++ 0x2c :: (s.north ++ 0x2c :: (s.longitude.text ++ 0x2c :: (s.east ++ 0x2c ::
    (s.fix ++ 0x2c :: (s.satellites ++ 0x2c :: (s.hdop.text ++ 0x2c :: (s.signText ++ (s.altitude.text ++
      (s.tail ++ stop))))))))))

/-- The sentence in the buffer, with what lies behind its end. -/
def buffer (stale : List UInt8) : List UInt8 := [0x47, 0x50, 0x47, 0x47, 0x41, 0x2c] ++ s.fields (0 :: stale)

structure WellFormed : Prop where
  time : s.time.WellFormed
  time_lt : s.time.value < 2 ^ 32
  latitude : s.latitude.WellFormed
  latitude_fits : FitsS16 (s.north = [0x53]) s.latitude.value
  north : s.north = [] ∨ s.north = [0x4e] ∨ s.north = [0x53]
  longitude : s.longitude.WellFormed
  longitude_fits : FitsS16 (s.east = [0x57]) s.longitude.value
  east : s.east = [] ∨ s.east = [0x45] ∨ s.east = [0x57]
  fix : s.fix = [] ∨ ∃ c, isDigit 10 c ∧ s.fix = [c]
  satellites : ∀ c ∈ s.satellites, isDigit 10 c
  satellites_lt : valueOf 10 s.satellites < 2 ^ 8
  hdop : s.hdop.WellFormed
  hdop_lt : s.hdop.value < 2 ^ 8
  altitude : s.altitude.WellFormed
  altitude_fits : FitsS16 (s.altitudeSign = true) s.altitude.value
  tail : Tail s.tail

/-- The fix field is a digit from 1 on. -/
def FixValid : Prop := s.fix ≠ [] ∧ s.fix ≠ [0x30]

end Gga

variable {s : Gga} {data : NmeaData} {stale : List UInt8}

theorem tail_stops {t : List UInt8} (h : Tail t) (stale : List UInt8) :
    ∃ c r, t ++ 0 :: stale = c :: r ∧ stops c = true ∧ c ≠ 0x2e := by
  cases t with
  | nil => exact ⟨0, stale, rfl, rfl, by decide⟩
  | cons c t =>
    rcases h.2 with hn | hn
    · exact absurd hn (List.cons_ne_nil _ _)
    · have hc : c = 0x2c := Option.some.inj hn
      rw [hc]
      exact ⟨0x2c, t ++ 0 :: stale, rfl, rfl, by decide⟩

theorem head_letter {t : List UInt8} {a b : UInt8} (h : t = [] ∨ t = [a] ∨ t = [b]) (ha : a ≠ b ∧ a ≠ 0x2c ∧ a ≠ 0)
    (hb : b ≠ 0x2c ∧ b ≠ 0) : ∃ c, (c = b ↔ t = [b]) ∧
    ∀ r, (t ++ 0x2c :: r).head? = some c ∧ nmeaFindNextParam (t ++ 0x2c :: r) = some r := by
  have hskip : Plain t → ∀ r, nmeaFindNextParam (t ++ 0x2c :: r) = some r := fun ht r => findNextParam_skip ht
  rcases h with rfl | rfl | rfl
  · exact ⟨0x2c, ⟨fun h => absurd h.symm hb.1, fun h => absurd h (List.cons_ne_nil _ _).symm⟩, fun r => ⟨rfl, rfl⟩⟩
  · have hplain : Plain [a] := fun c hc => (List.mem_singleton.mp hc) ▸ ha.2
    exact ⟨a, ⟨fun h => absurd h ha.1, fun h => absurd (List.cons.inj h).1 ha.1⟩, fun r => ⟨rfl, hskip hplain r⟩⟩
  · have hplain : Plain [b] := fun c hc => (List.mem_singleton.mp hc) ▸ hb
    exact ⟨b, ⟨fun _ => rfl, fun _ => rfl⟩, fun r => ⟨rfl, hskip hplain r⟩⟩

theorem head_exists (t : List UInt8) (r : List UInt8) : ∃ c, (t ++ 0x2c :: r).head? = some c := by
  cases t with
  | nil => exact ⟨0x2c, rfl⟩
  | cons c t => exact ⟨c, rfl⟩

theorem plain_digits {ds : List UInt8} (h : ∀ c ∈ ds, isDigit 10 c) : Plain ds := by
  intro c hc
  obtain ⟨-, -, -, hcomma, hzero⟩ := digit_plain (h c hc)
  exact ⟨hcomma, hzero⟩

/-- What the parser makes of the sentence. -/
def Gga.parsed (s : Gga) (data : NmeaData) : NmeaData :=
  { data with
    utcTime := s.time.value
    utcTimeFraction := s.time.fractionOr 3 data.utcTimeFraction
    latitude := signed (s.north = [0x53]) s.latitude.value
    latitudeFraction := s.latitude.fractionValue 4
    longitude := signed (s.east = [0x57]) s.longitude.value
    longitudeFraction := s.longitude.fractionValue 4
    sattelitesUsed := valueOf 10 s.satellites
    hdop := s.hdop.value
    hdopFraction := s.hdop.fractionOr 1 data.hdopFraction
    altitude := signed (s.altitudeSign = true) s.altitude.value
    altitudeFraction := s.altitude.fractionOr 2 data.altitudeFraction
    ggaValidFlag := true }

theorem parseS16_signed (h : s.WellFormed) (hc : stops c) :
    nmeaParseStrToS16 (s.signText ++ (s.altitude.text ++ c :: r)) =
    some (s.altitude.fractionText ++ c :: r, signed (s.altitudeSign = true) s.altitude.value) := by
  obtain ⟨c', r', htext, hc'⟩ := fractionText_stops s.altitude hc r
  obtain ⟨hplain, hminus⟩ := parseS16_digits (r := r') h.altitude.digits hc'
  have hvalue := toS16_signed h.altitude_fits
  rw [Decimal.text, List.append_assoc, htext, ← hvalue]
  unfold Gga.signText
  by_cases hs : s.altitudeSign = true
  · rw [if_pos hs, if_pos hs]
    exact hminus
  · rw [if_neg hs, if_neg hs]
    exact hplain

theorem bind_some {α β : Type} {x : Option α} {a : α} {f : α → Option β} {b : Option β} (h : x = some a) (hf : f a = b) :
    (x >>= f) = b := by
  rw [h]
  exact hf

theorem lt_of_fitsS16 {negative : Prop} {v : ℕ} (h : FitsS16 negative v) : v < 2 ^ 16 := by
  unfold FitsS16 at h
  omega

theorem parseGga_eq (h : s.WellFormed) (data : NmeaData) (stale : List UInt8) :
    parseGga data (s.fields (0 :: stale)) = some (s.parsed data) := by
  obtain ⟨c, r, htail, hc, hdot⟩ := tail_stops h.tail stale
  have hcomma : stops 0x2c = true := rfl
  have hcd : (0x2c : UInt8) ≠ 0x2e := by decide
  have w16p3 : Wide 16 3 := ⟨by decide, by decide⟩
  have w16p4 : Wide 16 4 := ⟨by decide, by decide⟩
  have w8p1 : Wide 8 1 := ⟨by decide, by decide⟩
  have w8p2 : Wide 8 2 := ⟨by decide, by decide⟩
  have hfix : Plain s.fix := by
    rcases h.fix with hf | ⟨d, hd, hf⟩
    · rw [hf]
      exact fun c hc => absurd hc List.not_mem_nil
    · rw [hf]
      exact plain_digits fun c hc => (List.mem_singleton.mp hc) ▸ hd
  obtain ⟨north, hnorth, hsouth⟩ := head_letter h.north (by decide) (by decide)
  obtain ⟨east, heast, hwest⟩ := head_letter h.east (by decide) (by decide)
  have hlatitude := toS16_signed h.latitude_fits
  have hlongitude := toS16_signed h.longitude_fits
  unfold Gga.fields
  rw [htail]
  unfold parseGga
  apply bind_some (parseUnsigned_decimal h.time hcomma (by decide) h.time_lt)
  apply bind_some (optionalFraction_decimal h.time hcomma hcd w16p3 _)
  apply bind_some (findNextParam_decimal h.time 3)
  apply bind_some (parseUnsigned_decimal h.latitude hcomma (by decide) (lt_of_fitsS16 h.latitude_fits))
  apply bind_some (optionalFraction_decimal h.latitude hcomma hcd w16p4 _)
  apply bind_some (findNextParam_decimal h.latitude 4)
  apply bind_some (hsouth _).1
  apply bind_some (hsouth _).2
  apply bind_some (parseUnsigned_decimal h.longitude hcomma (by decide) (lt_of_fitsS16 h.longitude_fits))
  apply bind_some (optionalFraction_decimal h.longitude hcomma hcd w16p4 _)
  apply bind_some (findNextParam_decimal h.longitude 4)
  apply bind_some (hwest _).1
  apply bind_some (hwest _).2
  obtain ⟨fix, hhead⟩ := head_exists s.fix (s.satellites ++ 0x2c :: (s.hdop.text ++ 0x2c :: (s.signText ++
    (s.altitude.text ++ c :: r))))
  apply bind_some hhead
  apply bind_some (findNextParam_skip hfix)
  apply bind_some (parseUnsigned_whole h.satellites hcomma (by decide) h.satellites_lt)
  apply bind_some (findNextParam_skip (plain_digits fun c hc => absurd hc List.not_mem_nil))
  apply bind_some (parseUnsigned_decimal h.hdop hcomma (by decide) h.hdop_lt)
  apply bind_some (optionalFraction_decimal h.hdop hcomma hcd w8p1 _)
  apply bind_some (findNextParam_decimal h.hdop 1)
  apply bind_some (parseS16_signed h hc)
  apply bind_some (optionalFraction_decimal h.altitude hc hdot w8p2 _)
  rw [Gga.parsed, ← hlatitude, ← hlongitude]
  simp only [hnorth, heast]
  rfl

theorem frame_gga (h : s.WellFormed) (gps : Gps) (stale : List UInt8) :
    nmeaOnRxFrame gps (s.buffer stale) = some
      ({ gps with nmeaData := { s.parsed gps.nmeaData with ggaValidFlag := false, vtgValidFlag := false } },
        [.onValidStr, .onValidGpsData]) := by
  have hparse := parseGga_eq h gps.nmeaData stale
  have hmessage : nmeaOnMessage gps ([0x47, 0x47, 0x41, 0x2c] ++ s.fields (0 :: stale)) =
      some (populated { gps with nmeaData := s.parsed gps.nmeaData }) := by
    change (parseGga gps.nmeaData (s.fields (0 :: stale)) >>= fun data => some (populated { gps with nmeaData := data })) = _
    rw [hparse]
    rfl
  change (nmeaOnMessage gps ([0x47, 0x47, 0x41, 0x2c] ++ s.fields (0 :: stale)) >>= fun r =>
    some (r.1, NmeaCall.onValidStr :: r.2)) = _
  rw [hmessage]
  rfl

/-- The fields are those of the sentence, and the handler is called where the fix is valid. -/
def GgaDecoded (gps : Gps) (s : Gga) (stale : List UInt8) : Prop :=
  ∃ gps' calls, nmeaOnRxFrame gps (s.buffer stale) = some (gps', calls) ∧
    gps'.nmeaData.utcTime = s.time.value ∧ gps'.nmeaData.utcTimeFraction = s.time.fractionValue 3 ∧
    gps'.nmeaData.latitude = signed (s.north = [0x53]) s.latitude.value ∧
    gps'.nmeaData.latitudeFraction = s.latitude.fractionValue 4 ∧
    gps'.nmeaData.longitude = signed (s.east = [0x57]) s.longitude.value ∧
    gps'.nmeaData.longitudeFraction = s.longitude.fractionValue 4 ∧
    gps'.nmeaData.sattelitesUsed = valueOf 10 s.satellites ∧
    gps'.nmeaData.hdop = s.hdop.value ∧ gps'.nmeaData.hdopFraction = s.hdop.fractionValue 1 ∧
    gps'.nmeaData.altitude = signed (s.altitudeSign = true) s.altitude.value ∧
    gps'.nmeaData.altitudeFraction = s.altitude.fractionValue 2 ∧
    (.onValidGpsData ∈ calls ↔ s.FixValid)

theorem ggaDecoded_iff (h : s.WellFormed) (gps : Gps) (stale : List UInt8) : GgaDecoded gps s stale ↔
    s.FixValid ∧ (s.time.fraction ≠ none ∨ gps.nmeaData.utcTimeFraction = 0) ∧
    (s.hdop.fraction ≠ none ∨ gps.nmeaData.hdopFraction = 0) ∧
    (s.altitude.fraction ≠ none ∨ gps.nmeaData.altitudeFraction = 0) := by
  have hframe := frame_gga h gps stale
  rw [← @fractionOr_eq_iff s.time 3, ← @fractionOr_eq_iff s.hdop 1, ← @fractionOr_eq_iff s.altitude 2]
  constructor
  · rintro ⟨gps', calls, hr, -, htime, -, -, -, -, -, -, hhdop, -, haltitude, hfix⟩
    rw [hframe] at hr
    obtain ⟨rfl, rfl⟩ := Prod.mk.inj (Option.some.inj hr)
    exact ⟨hfix.mp (by decide), htime, hhdop, haltitude⟩
  · rintro ⟨hfix, htime, hhdop, haltitude⟩
    exact ⟨_, _, hframe, rfl, htime, rfl, rfl, rfl, rfl, rfl, rfl, hhdop, rfl, haltitude,
      fun _ => hfix, fun _ => by decide⟩

end gga

section vtg

/-- A VTG sentence. -/
structure Vtg where
  heading : Decimal
  headingMark : List UInt8
  magnetic : List UInt8
  magneticMark : List UInt8
  knots : List UInt8
  knotsMark : List UInt8
  speed : Decimal
  tail : List UInt8

namespace Vtg

variable (s : Vtg)

/-- The sentence behind `GPVTG,`. -/
def fields (stop : List UInt8) : List UInt8 :=
  s.heading.text ++ 0x2c :: (s.headingMark ++ 0x2c :: (s.magnetic ++ 0x2c :: (s.magneticMark ++ 0x2c :: (s.knots ++ 0x2c ::
    (s.knotsMark ++ 0x2c :: (s.speed.text ++ (s.tail ++ stop)))))))

def buffer (stale : List UInt8) : List UInt8 := [0x47, 0x50, 0x56, 0x54, 0x47, 0x2c] ++ s.fields (0 :: stale)

structure WellFormed : Prop where
  heading : s.heading.WellFormed
  heading_lt : s.heading.value < 2 ^ 16
  headingMark : Plain s.headingMark
  magnetic : Plain s.magnetic
  magneticMark : Plain s.magneticMark
  knots : Plain s.knots
  knotsMark : Plain s.knotsMark
  speed : s.speed.WellFormed
  speed_lt : s.speed.value < 2 ^ 8
  tail : Tail s.tail

def parsed (data : NmeaData) : NmeaData :=
  { data with
    heading := s.heading.value
    headingFraction := s.heading.fractionOr 2 data.headingFraction
    speed := s.speed.value
    speedFraction := s.speed.fractionOr 2 data.speedFraction
    vtgValidFlag := true }

end Vtg

variable {s : Vtg} {stale : List UInt8}

theorem parseVtg_eq (h : s.WellFormed) (data : NmeaData) (stale : List UInt8) :
    parseVtg data (s.fields (0 :: stale)) = some (s.parsed data) := by
  obtain ⟨c, r, htail, hc, hdot⟩ := tail_stops h.tail stale
  have hcomma : stops 0x2c = true := rfl
  have w8p2 : Wide 8 2 := ⟨by decide, by decide⟩
  unfold Vtg.fields
  rw [htail]
  unfold parseVtg
  apply bind_some (parseUnsigned_decimal h.heading hcomma (by decide) h.heading_lt)
  apply bind_some (optionalFraction_decimal h.heading hcomma (by decide) w8p2 _)
  apply bind_some (findNextParam_decimal h.heading 2)
  apply bind_some (findNextParam_skip h.headingMark)
  apply bind_some (findNextParam_skip h.magnetic)
  apply bind_some (findNextParam_skip h.magneticMark)
  apply bind_some (findNextParam_skip h.knots)
  apply bind_some (findNextParam_skip h.knotsMark)
  apply bind_some (parseUnsigned_decimal h.speed hc (by decide) h.speed_lt)
  apply bind_some (optionalFraction_decimal h.speed hc hdot w8p2 _)
  rfl

theorem frame_vtg (h : s.WellFormed) (gps : Gps) (stale : List UInt8) :
    nmeaOnRxFrame gps (s.buffer stale) = some
      ({ gps with nmeaData := { s.parsed gps.nmeaData with ggaValidFlag := false, vtgValidFlag := false } },
        [.onValidStr, .onValidGpsData]) := by
  have hparse := parseVtg_eq h gps.nmeaData stale
  have hpopulated : populated { gps with nmeaData := s.parsed gps.nmeaData } =
      ({ gps with nmeaData := { s.parsed gps.nmeaData with ggaValidFlag := false, vtgValidFlag := false } },
        [.onValidGpsData]) := if_pos (Bool.or_true _)
  have hmessage : nmeaOnMessage gps ([0x56, 0x54, 0x47, 0x2c] ++ s.fields (0 :: stale)) =
      some (populated { gps with nmeaData := s.parsed gps.nmeaData }) := by
    change (parseVtg gps.nmeaData (s.fields (0 :: stale)) >>= fun data => some (populated { gps with nmeaData := data })) = _
    rw [hparse]
    rfl
  change (nmeaOnMessage gps ([0x56, 0x54, 0x47, 0x2c] ++ s.fields (0 :: stale)) >>= fun r =>
    some (r.1, NmeaCall.onValidStr :: r.2)) = _
  rw [hmessage, hpopulated]
  rfl

def VtgDecoded (gps : Gps) (s : Vtg) (stale : List UInt8) : Prop :=
  ∃ gps' calls, nmeaOnRxFrame gps (s.buffer stale) = some (gps', calls) ∧
    gps'.nmeaData.heading = s.heading.value ∧ gps'.nmeaData.headingFraction = s.heading.fractionValue 2 ∧
    gps'.nmeaData.speed = s.speed.value ∧ gps'.nmeaData.speedFraction = s.speed.fractionValue 2

theorem vtgDecoded_iff (h : s.WellFormed) (gps : Gps) (stale : List UInt8) : VtgDecoded gps s stale ↔
    (s.heading.fraction ≠ none ∨ gps.nmeaData.headingFraction = 0) ∧
    (s.speed.fraction ≠ none ∨ gps.nmeaData.speedFraction = 0) := by
  have hframe := frame_vtg h gps stale
  rw [← @fractionOr_eq_iff s.heading 2, ← @fractionOr_eq_iff s.speed 2]
  constructor
  · rintro ⟨gps', calls, hr, -, hheading, -, hspeed⟩
    rw [hframe] at hr
    obtain ⟨rfl, rfl⟩ := Prod.mk.inj (Option.some.inj hr)
    exact ⟨hheading, hspeed⟩
  · rintro ⟨hheading, hspeed⟩
    exact ⟨_, _, hframe, rfl, hheading, rfl, hspeed⟩

end vtg

end Lpc1788Libraries.Nmea

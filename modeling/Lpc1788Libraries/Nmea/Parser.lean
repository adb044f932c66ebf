import Lpc1788Libraries.Support.IntegerText
import Mathlib.Data.Nat.ModEq
import Mathlib.Tactic.Ring

namespace Lpc1788Libraries.Nmea

/-- What the parser assigns of `nmea_data_t`. -/
structure NmeaData where
  utcTime : ℕ
  utcTimeFraction : ℕ
  latitude : ℤ
  latitudeFraction : ℕ
  longitude : ℤ
  longitudeFraction : ℕ
  altitude : ℤ
  altitudeFraction : ℕ
  heading : ℕ
  headingFraction : ℕ
  speed : ℕ
  speedFraction : ℕ
  sattelitesUsed : ℕ
  hdop : ℕ
  hdopFraction : ℕ
  ggaValidFlag : Bool
  vtgValidFlag : Bool
  deriving DecidableEq

/-- `GPS_LATITUDE_ts` and `GPS_LONGITUDE_ts`. -/
structure GpsCoordinate where
  degrees : ℕ
  minutes : ℕ
  minutesFraction : ℕ
  orientation : UInt8
  deriving DecidableEq

structure UtcTime where
  utcHour : ℕ
  utcMin : ℕ
  utcSec : ℕ
  deriving DecidableEq

structure UtcDate where
  utcDate : ℕ
  utcMonth : ℕ
  utcYear : ℕ
  deriving DecidableEq

/-- The global variables of the parser. -/
structure Gps where
  nmeaData : NmeaData
  rmcTime : UtcTime
  latitude : GpsCoordinate
  longitude : GpsCoordinate
  rmcDate : UtcDate
  rmcDataValid : Bool
  deriving DecidableEq

/-- The handlers that are called. -/
inductive NmeaCall where
  | onValidStr
  | onValidGpsData
  deriving DecidableEq

/-! A pointer into the buffer is the list of the bytes from there on. There is no result where a byte is read behind the
last one of the list. -/

section fields

/-- `*buffer == ',' || *buffer == '.' || *buffer == '\0'` -/
def stops (c : UInt8) : Bool := c = 0x2c || c = 0x2e || c = 0

/-- `nmea_parse_str_to_u32`, `nmea_parse_str_to_u16` and `nmea_parse_str_to_u8`, by the width of the value. -/
def nmeaParseStrToUnsigned (w : ℕ) : List UInt8 → ℕ → Option (List UInt8 × ℕ)
  | [], _ => none
  | c :: buffer, value =>
    if stops c then some (c :: buffer, value)
    else if c = 0x20 then nmeaParseStrToUnsigned w buffer value
    else nmeaParseStrToUnsigned w buffer ((value * 10 + (c.toNat + 2 ^ w - 0x30)) % 2 ^ w)

def toS16 (v : ℤ) : ℤ := (v + 0x8000) % 0x10000 - 0x8000

def nmeaParseStrToS16Loop : List UInt8 → Bool → ℤ → Option (List UInt8 × Bool × ℤ)
  | [], _, _ => none
  | c :: buffer, bNeg, value =>
    if stops c then some (c :: buffer, bNeg, value)
    else if c = 0x20 then nmeaParseStrToS16Loop buffer bNeg value
    else if c = 0x2d then nmeaParseStrToS16Loop buffer true value
    else nmeaParseStrToS16Loop buffer bNeg (toS16 (toS16 (value * 10) + (c.toNat - 0x30)))

def nmeaParseStrToS16 (buffer : List UInt8) : Option (List UInt8 × ℤ) :=
  (nmeaParseStrToS16Loop buffer false 0).map fun (buffer, bNeg, value) =>
    (buffer, if bNeg then toS16 (value * -1) else value)

def scaled (w value : ℕ) : ℕ → ℕ
  | 0 => value
  | precision + 1 => scaled w (value * 10 % 2 ^ w) precision

/-- `nmea_parse_str_fraction_to_u16` and `nmea_parse_str_fraction_to_u8`, by the width of the value. -/
def nmeaParseStrFractionToUnsigned (w : ℕ) : List UInt8 → ℕ → ℕ → Option (List UInt8 × ℕ)
  | [], _, _ => none
  | c :: buffer, value, precision =>
    if stops c || precision = 0 then some (c :: buffer, scaled w value precision)
    else if c = 0x20 then nmeaParseStrFractionToUnsigned w buffer value precision
    else nmeaParseStrFractionToUnsigned w buffer ((value * 10 + (c.toNat + 2 ^ w - 0x30)) % 2 ^ w) (precision - 1)

def nmeaFindNextParam : List UInt8 → Option (List UInt8)
  | [] => none
  | c :: buffer => if c = 0x2c then some buffer else if c = 0 then some (c :: buffer) else nmeaFindNextParam buffer

/-- The fraction where `*buffer == '.'`; else the variable stays. -/
def optionalFraction (w precision old : ℕ) (buffer : List UInt8) : Option (List UInt8 × ℕ) := do
  if (← buffer.head?) = 0x2e then nmeaParseStrFractionToUnsigned w buffer.tail 0 precision else some (buffer, old)

end fields

section sentences

/-- `strncmp(buffer, id, 3) == 0` -/
def startsWith : List UInt8 → List UInt8 → Option Bool
  | _, [] => some true
  | [], _ :: _ => none
  | c :: buffer, d :: id => if c = d then startsWith buffer id else some false

def nmeaGgaStr : List UInt8 := [0x47, 0x47, 0x41]

def nmeaVtgStr : List UInt8 := [0x56, 0x54, 0x47]

def nmeaRmcStr : List UInt8 := [0x52, 0x4d, 0x43]

def parseGga (data : NmeaData) (buffer : List UInt8) : Option NmeaData := do
  -- UTC Time
  let (buffer, utcTime) ← nmeaParseStrToUnsigned 32 buffer 0
  let (buffer, utcTimeFraction) ← optionalFraction 16 3 data.utcTimeFraction buffer
  let buffer ← nmeaFindNextParam buffer
  -- Latitude
  let (buffer, latitude) ← nmeaParseStrToUnsigned 16 buffer 0
  let (buffer, latitudeFraction) ← optionalFraction 16 4 0 buffer
  let buffer ← nmeaFindNextParam buffer
  let north ← buffer.head?
  let buffer ← nmeaFindNextParam buffer
  -- Longitude
  let (buffer, longitude) ← nmeaParseStrToUnsigned 16 buffer 0
  let (buffer, longitudeFraction) ← optionalFraction 16 4 0 buffer
  let buffer ← nmeaFindNextParam buffer
  let east ← buffer.head?
  let buffer ← nmeaFindNextParam buffer
  -- Fix valid: the flag that is set here is set once more below, whatever is found
  let _fix ← buffer.head?
  let buffer ← nmeaFindNextParam buffer
  -- Number of satelites
  let (buffer, sattelitesUsed) ← nmeaParseStrToUnsigned 8 buffer 0
  let buffer ← nmeaFindNextParam buffer
  -- HDOP
  let (buffer, hdop) ← nmeaParseStrToUnsigned 8 buffer 0
  let (buffer, hdopFraction) ← optionalFraction 8 1 data.hdopFraction buffer
  let buffer ← nmeaFindNextParam buffer
  -- Altitude
  let (buffer, altitude) ← nmeaParseStrToS16 buffer
  let (_, altitudeFraction) ← optionalFraction 8 2 data.altitudeFraction buffer
  return { data with
    utcTime, utcTimeFraction, latitudeFraction, longitudeFraction, sattelitesUsed, hdop, hdopFraction
    altitude, altitudeFraction
    latitude := if north = 0x53 then toS16 (toS16 latitude * -1) else toS16 latitude
    longitude := if east = 0x57 then toS16 (toS16 longitude * -1) else toS16 longitude
    ggaValidFlag := true }

def parseVtg (data : NmeaData) (buffer : List UInt8) : Option NmeaData := do
  -- Heading
  let (buffer, heading) ← nmeaParseStrToUnsigned 16 buffer 0
  let (buffer, headingFraction) ← optionalFraction 8 2 data.headingFraction buffer
  let buffer ← nmeaFindNextParam buffer
  let buffer ← nmeaFindNextParam buffer
  let buffer ← nmeaFindNextParam buffer
  let buffer ← nmeaFindNextParam buffer
  let buffer ← nmeaFindNextParam buffer
  let buffer ← nmeaFindNextParam buffer
  -- Speed
  let (buffer, speed) ← nmeaParseStrToUnsigned 8 buffer 0
  let (_, speedFraction) ← optionalFraction 8 2 data.speedFraction buffer
  return { data with heading, headingFraction, speed, speedFraction, vtgValidFlag := true }

/-- The low byte of an `int`. -/
def toU8 (v : ℤ) : ℕ := (v % 0x100).toNat

/-- `((*buffer + k - '0') * 10) + (*buffer + k + 1 - '0')` -/
def twoDigitsAt (c : UInt8) (k : ℤ) : ℤ := (c.toNat + k - 0x30) * 10 + (c.toNat + (k + 1) - 0x30)

/-- `((*buffer + k - '0') * 100) + ((*buffer + k + 1 - '0') * 10) + (*buffer + k + 2 - '0')` -/
def threeDigitsAt (c : UInt8) (k : ℤ) : ℤ :=
  (c.toNat + k - 0x30) * 100 + (c.toNat + (k + 1) - 0x30) * 10 + (c.toNat + (k + 2) - 0x30)

def parseRmc (gps : Gps) (buffer : List UInt8) : Option Gps := do
  let c ← buffer.head?
  let rmcTime : UtcTime :=
    { utcHour := toU8 (toU8 (twoDigitsAt c 0) - 4)
      utcMin := toU8 (twoDigitsAt c 2)
      utcSec := toU8 (twoDigitsAt c 4) }
  let buffer ← nmeaFindNextParam buffer
  let buffer ← nmeaFindNextParam buffer
  -- Latitude
  let c ← buffer.head?
  let buffer ← nmeaFindNextParam buffer
  let latitude : GpsCoordinate :=
    { degrees := toU8 (twoDigitsAt c 0)
      minutes := toU8 (twoDigitsAt c 2)
      minutesFraction := toU8 (threeDigitsAt c 5)
      orientation := ← buffer.head? }
  let buffer ← nmeaFindNextParam buffer
  -- Longitude
  let c ← buffer.head?
  let buffer ← nmeaFindNextParam buffer
  let longitude : GpsCoordinate :=
    { degrees := toU8 (threeDigitsAt c 0)
      minutes := toU8 (twoDigitsAt c 3)
      minutesFraction := toU8 (threeDigitsAt c 6)
      orientation := ← buffer.head? }
  let buffer ← nmeaFindNextParam buffer
  let buffer ← nmeaFindNextParam buffer
  let buffer ← nmeaFindNextParam buffer
  let buffer ← nmeaFindNextParam buffer
  -- Get Date
  let c ← buffer.head?
  let rmcDate : UtcDate :=
    { utcDate := toU8 (twoDigitsAt c 0)
      utcMonth := toU8 (twoDigitsAt c 2)
      utcYear := toU8 (twoDigitsAt c 4) }
  return { gps with rmcTime, latitude, longitude, rmcDate, rmcDataValid := true }

/-- See if all the fields were populated. -/
def populated (gps : Gps) : Gps × List NmeaCall :=
  if gps.nmeaData.ggaValidFlag || gps.nmeaData.vtgValidFlag then
    ({ gps with nmeaData := { gps.nmeaData with ggaValidFlag := false, vtgValidFlag := false } }, [.onValidGpsData])
  else (gps, [])

def rmcPopulated (gps : Gps) : Gps × List NmeaCall :=
  if gps.nmeaData.ggaValidFlag || gps.nmeaData.vtgValidFlag || gps.rmcDataValid then
    ({ gps with nmeaData := { gps.nmeaData with ggaValidFlag := false, vtgValidFlag := false }, rmcDataValid := false },
      [.onValidGpsData])
  else (gps, [])

/-- The parser behind the talker `GP`. -/
def nmeaOnMessage (gps : Gps) (buffer : List UInt8) : Option (Gps × List NmeaCall) := do
  if ← startsWith buffer nmeaGgaStr then
    return populated { gps with nmeaData := ← parseGga gps.nmeaData (buffer.drop 4) }
  else if ← startsWith buffer nmeaVtgStr then
    return populated { gps with nmeaData := ← parseVtg gps.nmeaData (buffer.drop 4) }
  else if ← startsWith buffer nmeaRmcStr then
    return rmcPopulated (← parseRmc gps (buffer.drop 4))
  else return (gps, [])

/-- The variables behind the call, and the handlers that it calls. -/
def nmeaOnRxFrame (gps : Gps) (buffer : List UInt8) : Option (Gps × List NmeaCall) := do
  -- Make sure that message ID starts with "GP"
  if (← buffer.head?) ≠ 0x47 then return (gps, [.onValidStr])
  else if (← buffer.tail.head?) ≠ 0x50 then return (gps, [.onValidStr])
  else
    let (gps, calls) ← nmeaOnMessage gps (buffer.drop 2)
    return (gps, .onValidStr :: calls)

end sentences

end Lpc1788Libraries.Nmea

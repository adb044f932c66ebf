import Mathlib.Data.List.Infix
import Lpc1788Libraries.Support.StreamMachine

namespace Lpc1788Libraries.Nmea

open Lpc1788Libraries.Support

def nmeaBufferSize : ℕ := 128

inductive NmeaRxState where
  | start
  | payload
  | checksum1
  | checksum2
  | endCr
  | endLf
  deriving DecidableEq, Repr

/-- The receiver's variables `nmea_rx_*`. -/
structure Receiver where
  state : NmeaRxState
  index : ℕ
  checksum : UInt8
  buffer : ℕ → UInt8

/-- `nmea_init`; the buffer and the checksum keep what they held. -/
def nmeaInit (r : Receiver) : Receiver := { r with state := .start, index := 0 }

def nmeaCmpNibbleWithHexAscii (nibble ascii : UInt8) : Bool :=
  let nibble := if nibble ≤ 9 then nibble + 0x30 else nibble + (0x41 - 10)
  nibble == ascii

/-- The string a handler finds at the start of the buffer. -/
def cString (buffer : ℕ → UInt8) : List UInt8 :=
  ((List.range nmeaBufferSize).map buffer).takeWhile (· ≠ 0)

/-- `nmea_on_rx_byte`; put out are the strings handed to `nmea_on_valid_str_fn`. -/
def nmeaOnRxByte : StreamMachine Receiver UInt8 (List UInt8) := fun r data =>
  match r.state with
  | .start =>
    if data ≠ 0x24 then ({ r with state := .start }, [])
    else ({ r with state := .payload, checksum := 0, index := 0 }, [])
  | .payload =>
    if data = 0x24 ∨ data = 0x0d ∨ data = 0x0a ∨ 0x80 ≤ data then ({ r with state := .start }, [])
    else if data = 0x2a then ({ r with state := .checksum1 }, [])
    else
      let r := { r with
        checksum := r.checksum ^^^ data
        buffer := Function.update r.buffer r.index data
        index := r.index + 1 }
      if nmeaBufferSize - 1 ≤ r.index then ({ r with state := .start }, []) else (r, [])
  | .checksum1 =>
    if nmeaCmpNibbleWithHexAscii (r.checksum >>> 4 &&& 0x0f) data = false then
      ({ r with state := .start }, [])
    else ({ r with state := .checksum2 }, [])
  | .checksum2 =>
    if nmeaCmpNibbleWithHexAscii (r.checksum &&& 0x0f) data = false then ({ r with state := .start }, [])
    else ({ r with state := .endCr }, [])
  | .endCr =>
    if data ≠ 0x0d then ({ r with state := .start }, []) else ({ r with state := .endLf }, [])
  | .endLf =>
    if data ≠ 0x0a then ({ r with state := .start }, [])
    else
      let buffer := Function.update r.buffer r.index 0
      ({ r with buffer := buffer, state := .start }, [cString buffer])

/-- The loop of `nmea_tx_frame`: the bytes sent and the checksum. -/
def txLoop (checksum : UInt8) : List UInt8 → List UInt8 × UInt8
  | [] => ([], checksum)
  | data :: frame =>
    if data = 0 then ([], checksum)
    else
      let r := txLoop (checksum ^^^ data) frame
      (data :: r.1, r.2)

/-- The bytes `nmea_tx_frame` sends for the string. -/
def nmeaTxFrame (frame : List UInt8) : List UInt8 :=
  let r := txLoop 0x24 frame
  let checksum := r.2
  let high := if checksum < 0xa0 then (checksum >>> 4 &&& 0x0f) + 0x30 else (checksum >>> 4 &&& 0x0f) + (0x41 - 10)
  let checksum := checksum &&& 0x0f
  let low := if checksum < 0x0a then checksum + 0x30 else checksum + (0x41 - 10)
  r.1 ++ [0x2a, high, low, 0x0d, 0x0a]

end Lpc1788Libraries.Nmea

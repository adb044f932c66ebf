import Mathlib.Data.Nat.Bitwise
import Mathlib.Tactic.IntervalCases

namespace Lpc1788Libraries.TextLcd

/-- The fields of `HD44780_Options_t` that place the cursor. -/
structure Hd44780Options where
  rows : UInt8
  cols : UInt8
  currentX : UInt8
  currentY : UInt8
  deriving DecidableEq

/-- A byte to the display, with or without the register select bit. -/
inductive Transfer where
  | cmd (cmd : UInt8)
  | data (data : UInt8)
  deriving DecidableEq

section driver

variable (opts : Hd44780Options)

def rowOffsets : List UInt8 := [0x00, 0x40, 0x14, 0x54]

/-- A row behind the last offset has no result. -/
def setLocation (col row : UInt8) : Option (Hd44780Options × List Transfer) := do
  let row := if row ≥ opts.rows then 0 else row
  let offset ← rowOffsets[row.toNat]?
  return ({ opts with currentX := col, currentY := row }, [.cmd (0x80 ||| (col + offset))])

def lcdCursorSet (col row : UInt8) : Option (Hd44780Options × List Transfer) :=
  if row ≠ 0 then setLocation opts (col - 1) (row - 1) else setLocation opts col row

/-- The wrap in front of a character. -/
def lcdWrap : Option (Hd44780Options × List Transfer) :=
  if opts.currentX ≥ opts.cols then
    let opts := { opts with currentX := 0, currentY := opts.currentY + 1 }
    lcdCursorSet opts opts.currentX opts.currentY
  else some (opts, [])

def lcdPutsChar (c : UInt8) : Option (Hd44780Options × List Transfer) :=
  if c = 0x0a then
    let opts := { opts with currentY := opts.currentY + 1 }
    lcdCursorSet opts opts.currentX opts.currentY
  else if c = 0x0d then lcdCursorSet opts 0 opts.currentY
  else some ({ opts with currentX := opts.currentX + 1 }, [.data c])

/-- The loop of `lcd_HD44780_Puts`, over the characters in front of the zero. -/
def lcdPutsLoop (opts : Hd44780Options) : List UInt8 → Option (Hd44780Options × List Transfer)
  | [] => some (opts, [])
  | c :: str => do
    let (opts, wrap) ← lcdWrap opts
    let (opts, sent) ← lcdPutsChar opts c
    let (opts, rest) ← lcdPutsLoop opts str
    return (opts, wrap ++ sent ++ rest)

def lcdPuts (x y : UInt8) (str : List UInt8) : Option (Hd44780Options × List Transfer) := do
  let (opts, start) ← lcdCursorSet opts x y
  let (opts, rest) ← lcdPutsLoop opts str
  return (opts, start ++ rest)

end driver

section display

/-- What the display does on a transfer. -/
inductive Event where
  | cursor (address : ℕ)
  | stored (address : ℕ) (c : UInt8)
  deriving DecidableEq

/-- The display from an address counter on, which `next` moves behind a stored character. -/
def events (next : ℕ → ℕ) : ℕ → List Transfer → List Event
  | _, [] => []
  | _, .cmd c :: sent => .cursor (c.toNat % 0x80) :: events next (c.toNat % 0x80) sent
  | ac, .data c :: sent => .stored ac c :: events next (next ac) sent

/-- A cell of the display, counted from 0. -/
structure Cell where
  col : ℕ
  row : ℕ
  deriving DecidableEq

namespace Cell

def offset (row : ℕ) : ℕ := [0x00, 0x40, 0x14, 0x54].getD row 0

def address (cell : Cell) : ℕ := (offset cell.row + cell.col) % 0x80

variable (rows cols : ℕ)

def below (cell : Cell) : Cell := ⟨cell.col, (cell.row + 1) % rows⟩

def advance (cell : Cell) : Cell := if cell.col + 1 < cols then ⟨cell.col + 1, cell.row⟩ else ⟨0, (cell.row + 1) % rows⟩

/-- The text from a cell on. A cursor address is needed where the cell is not the next one of its row; `moved` says that
it is one behind the last column. -/
def text (cell : Cell) (moved : Bool) : List UInt8 → List Event
  | [] => []
  | c :: str => (if moved then [.cursor cell.address] else []) ++
    if c = 0x0a then .cursor (cell.below rows).address :: text (cell.below rows) false str
    else if c = 0x0d then .cursor (address ⟨0, cell.row⟩) :: text ⟨0, cell.row⟩ false str
    else .stored cell.address c :: text (cell.advance rows cols) (decide (cell.col + 1 = cols)) str

end Cell

end display

end Lpc1788Libraries.TextLcd

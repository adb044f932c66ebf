import Lpc1788Libraries.Max7219.Chain

namespace Lpc1788Libraries.Max7219

def charTable : List UInt8 :=
  [126, 48, 109, 121, 51, 91, 95, 112, 127, 123, 119, 31, 13, 61, 79, 71,
    0, 0, 0, 0, 0, 0, 0, 0, 0, 0, 0, 0, 0, 0, 0, 0,
    0, 0, 0, 0, 0, 0, 0, 0, 0, 0, 0, 0, 128, 1, 128, 0,
    126, 48, 109, 121, 51, 91, 95, 112, 127, 123, 0, 0, 0, 0, 0, 0,
    0, 119, 31, 13, 61, 79, 71, 0, 55, 6, 56, 0, 14, 0, 0, 29,
    103, 0, 5, 0, 15, 62, 0, 0, 0, 59, 0, 0, 0, 0, 0, 8,
    0, 119, 31, 13, 61, 79, 71, 0, 23, 4, 56, 0, 14, 0, 0, 29,
    103, 0, 5, 0, 15, 28, 0, 0, 0, 59, 0, 0, 0, 0, 0, 0]

/-- The byte at `charTable + raw`; `rom` is the memory behind the table. -/
def getAscii (rom : ℕ → UInt8) (raw : ℕ) : UInt8 := charTable.getD raw (rom raw)

section direct

variable (rom : ℕ → UInt8) (dev : UInt8)

/-- One write to each of the registers `DIG0` up to `DIG7`. -/
def digits (data : UInt8) : List Act :=
  [.send 1 data dev, .send 2 data dev, .send 3 data dev, .send 4 data dev,
    .send 5 data dev, .send 6 data dev, .send 7 data dev, .send 8 data dev]

/-- `while (blink_times--)` counts a negative number down through the whole range of `int`. -/
def blinkRounds (blinkTimes : ℤ) : ℕ := (blinkTimes % 0x100000000).toNat

def max7219BlinkDisplay (blinkTimes : ℤ) : List Act :=
  (List.replicate (blinkRounds blinkTimes) [Act.send 0x0c 0 dev, Act.send 0x0c 1 dev]).flatten

def max7219Blink (blinkTimes : ℤ) : List Act := digits dev 0xff ++ max7219BlinkDisplay dev blinkTimes

def testDigit : ℕ → UInt8
  | 0 => 0
  | i + 1 => UInt8.ofNat (1 <<< i)

def testRound (i : ℕ) : List Act :=
  .writeShort (((testDigit i).toNat <<< 8) ||| (testDigit i).toNat) :: digits dev (testDigit i)

def max7219TestCycle : List Act :=
  [.send 0x0f 1 dev, .send 0x0f 0 dev] ++ (List.range 9).flatMap (testRound dev) ++ max7219Blink dev 3

def max7219Clear : List Act := (List.range 9).reverse.map fun i => .send (UInt8.ofNat i) 0 dev

def max7219Shutdown (mode : Bool) : List Act := [.send 0x0c (if mode then 0 else 1) dev]

def max7219ClearDigit (digit : UInt8) : List Act := [.send digit 0 dev]

def max7219DispRaw (pos value : UInt8) : List Act := [.send (pos + 1) value dev]

/-- The decimal digits from `DIG0` on, as many as there are registers for them. -/
def printDecimal (count number : ℕ) : List Act :=
  (List.range count).map fun i => .send (UInt8.ofNat (i + 1)) (getAscii rom (number / 10 ^ i % 10)) dev

def max7219Print32 (number : UInt32) : List Act := printDecimal rom dev 8 number.toNat

def max7219Print16 (number : UInt16) : List Act := printDecimal rom dev 5 number.toNat

def max7219PrintDec2digit (pos number : UInt8) (dp : Bool) : List Act :=
  let c1 := number.toNat % 10
  let c2 := number.toNat / 10 % 10
  [.send (pos + 1 + 1) (getAscii rom c2) dev,
    .send (pos + 1) (if dp then getAscii rom c1 ||| 0x80 else getAscii rom c1) dev]

def max7219Print8 (pos number : UInt8) : List Act :=
  let c1 := number.toNat % 10
  let c2 := number.toNat / 10 % 10
  let c3 := number.toNat / 100 % 10
  (if c3 ≠ 0 then [.send (pos + 1 + 2) (getAscii rom c3) dev] else []) ++
    (if c3 = 0 ∧ c2 ≠ 0 then [.send (pos + 1 + 1) (getAscii rom c2) dev] else []) ++
    [.send (pos + 1) (getAscii rom c1) dev]

/-- The hexadecimal digits, the highest first. -/
def printHex (count hexnum : ℕ) : List Act :=
  (List.range count).reverse.map fun i =>
    .send (UInt8.ofNat (i + 1)) (getAscii rom ((hexnum >>> (4 * i)) &&& 0x0f)) dev

def max7219PrintHex8 (hexnum : UInt8) : List Act := printHex rom dev 2 hexnum.toNat

def max7219PrintHex16 (hexnum : UInt16) : List Act := printHex rom dev 4 hexnum.toNat

def max7219PrintHex32 (hexnum : UInt32) : List Act := printHex rom dev 8 hexnum.toNat

def initDevice (digits intensity decode : UInt8) : List Act :=
  [.send 0x0f 0 dev, .send 0x0c 1 dev, .send 0x0b digits dev, .send 0x0a intensity dev, .send 0x09 decode dev] ++
    max7219Clear dev

end direct

def initDevices (digits intensity decode maxDev : UInt8) : List Act :=
  (List.range maxDev.toNat).flatMap fun i => initDevice (UInt8.ofNat i) digits intensity decode

def max7219Init (digits intensity decode maxDev : UInt8) (s : State) : State :=
  perform (initDevices digits intensity decode maxDev) { s with maxDevNumber := maxDev, chain := s.chain.deselect }

section shadow

variable (rom : ℕ → UInt8) (dev : UInt8)

def setMatrix (i : ℕ) (v : UInt8) (s : State) : State := { s with matrix := Function.update s.matrix i v }

def max7219DispDigit (digit value : UInt8) (dp : Bool) (s : State) : State :=
  if s.maxDevNumber ≤ dev then s
  else if 7 < digit ∨ 15 < value then s
  else
    let v := if dp then getAscii rom value.toNat ||| 0x80 else getAscii rom value.toNat
    sendData (digit + 1) v dev (setMatrix (dev.toNat * 8 + digit.toNat) v s)

/-- The index is taken before a value above `127` is replaced. -/
def max7219DispChar (digit value : UInt8) (dp : Bool) (s : State) : State :=
  if s.maxDevNumber ≤ dev then s
  else if 7 < digit then s
  else
    let v := if dp then getAscii rom value.toNat ||| 0x80 else getAscii rom value.toNat
    sendData (digit + 1) v dev (setMatrix (dev.toNat * 8 + digit.toNat) v s)

def dispStringRounds (pos : UInt8) : List UInt8 → State → State
  | [], s => s
  | value :: str, s => dispStringRounds (pos - 1) str (max7219DispChar rom dev pos value false s)

/-- `str` are the bytes before the closing zero. -/
def max7219DispString (pos : UInt8) (str : List UInt8) (s : State) : State :=
  if s.maxDevNumber ≤ dev then s
  else if 7 < pos then s
  else if 4 < str.length then s
  else dispStringRounds rom dev pos str s

def max7219LedmtrxSetrow (row value : UInt8) (s : State) : State :=
  if s.maxDevNumber ≤ dev then s
  else if 7 < row then s
  else sendData (row + 1) value dev (setMatrix (dev.toNat * 8 + row.toNat) value s)

/-- The byte of a row with one of its lights switched. -/
def switchLed (old col : UInt8) (state : Bool) : UInt8 :=
  if state then old ||| (0x80 >>> col) else old &&& ~~~(0x80 >>> col)

def max7219LedmtrxSetled (row col : UInt8) (state : Bool) (s : State) : State :=
  if s.maxDevNumber ≤ dev then s
  else if 7 < row ∨ 7 < col then s
  else
    let v := switchLed (s.matrix (dev.toNat * 8 + row.toNat)) col state
    sendData (row + 1) v dev (setMatrix (dev.toNat * 8 + row.toNat) v s)

def max7219LedmtrxSetcol (col value : UInt8) (s : State) : State :=
  if s.maxDevNumber ≤ dev then s
  else if 7 < col then s
  else
    (List.range 8).foldl (fun s row =>
      max7219LedmtrxSetled dev (UInt8.ofNat row) col (decide ((value >>> UInt8.ofNat (7 - row)) &&& 1 ≠ 0)) s) s

def max7219LedmtrxPrintchar (chr : UInt8) (s : State) : State :=
  [1, 2, 3, 4, 5].foldl (fun s row => max7219LedmtrxSetrow dev row chr s) s

end shadow

/-- The public functions and their arguments. -/
inductive Call
  | init (digits intensity decode : UInt8)
  | testCycle (dev : UInt8)
  | blink (dev : UInt8) (blinkTimes : ℤ)
  | clear (dev : UInt8)
  | shutdown (dev : UInt8) (mode : Bool)
  | clearDigit (dev digit : UInt8)
  | blinkDisplay (dev : UInt8) (blinkTimes : ℤ)
  | dispDigit (dev digit value : UInt8) (dp : Bool)
  | dispChar (dev digit value : UInt8) (dp : Bool)
  | dispString (dev pos : UInt8) (str : List UInt8)
  | dispRaw (dev pos value : UInt8)
  | print32 (dev : UInt8) (number : UInt32)
  | print16 (dev : UInt8) (number : UInt16)
  | printDec2digit (dev pos number : UInt8) (dp : Bool)
  | print8 (dev pos number : UInt8)
  | printHex8 (dev hexnum : UInt8)
  | printHex16 (dev : UInt8) (hexnum : UInt16)
  | printHex32 (dev : UInt8) (hexnum : UInt32)
  | ledmtrxSetcol (dev col value : UInt8)
  | ledmtrxSetrow (dev row value : UInt8)
  | ledmtrxSetled (dev row col : UInt8) (state : Bool)
  | ledmtrxPrintchar (chr dev : UInt8)

/-- Runs a call. A repeated initialisation names the same number of devices again. -/
def Call.exec (rom : ℕ → UInt8) (s : State) : Call → State
  | init digits intensity decode => max7219Init digits intensity decode s.maxDevNumber s
  | testCycle dev => perform (max7219TestCycle dev) s
  | blink dev blinkTimes => perform (max7219Blink dev blinkTimes) s
  | clear dev => perform (max7219Clear dev) s
  | shutdown dev mode => perform (max7219Shutdown dev mode) s
  | clearDigit dev digit => perform (max7219ClearDigit dev digit) s
  | blinkDisplay dev blinkTimes => perform (max7219BlinkDisplay dev blinkTimes) s
  | dispDigit dev digit value dp => max7219DispDigit rom dev digit value dp s
  | dispChar dev digit value dp => max7219DispChar rom dev digit value dp s
  | dispString dev pos str => max7219DispString rom dev pos str s
  | dispRaw dev pos value => perform (max7219DispRaw dev pos value) s
  | print32 dev number => perform (max7219Print32 rom dev number) s
  | print16 dev number => perform (max7219Print16 rom dev number) s
  | printDec2digit dev pos number dp => perform (max7219PrintDec2digit rom dev pos number dp) s
  | print8 dev pos number => perform (max7219Print8 rom dev pos number) s
  | printHex8 dev hexnum => perform (max7219PrintHex8 rom dev hexnum) s
  | printHex16 dev hexnum => perform (max7219PrintHex16 rom dev hexnum) s
  | printHex32 dev hexnum => perform (max7219PrintHex32 rom dev hexnum) s
  | ledmtrxSetcol dev col value => max7219LedmtrxSetcol dev col value s
  | ledmtrxSetrow dev row value => max7219LedmtrxSetrow dev row value s
  | ledmtrxSetled dev row col state => max7219LedmtrxSetled dev row col state s
  | ledmtrxPrintchar chr dev => max7219LedmtrxPrintchar dev chr s

end Lpc1788Libraries.Max7219

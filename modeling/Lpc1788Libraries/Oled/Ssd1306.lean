import Lpc1788Libraries.Support.BoundedProgram
import Mathlib.Data.Fin.VecNotation

namespace Lpc1788Libraries.Oled

open Lpc1788Libraries.Support BoundedProgram

def oledDisplayWidth : ℕ := 128

def oledDisplayHeight : ℕ := 64

def xOffset : ℕ := 2

def shadowFbSize : ℕ := 1024

inductive OledColor
  | black
  | white
  deriving DecidableEq

/-- The display controller in page addressing mode. -/
structure Display where
  page : ℕ
  column : ℕ
  ram : ℕ → ℕ → UInt8

namespace Display

/-- The commands of `mSetAddress`. No other one is needed here, and an operand of another command
that looks like an address does no harm, since every write sets its address first. -/
def command (d : Display) (cmd : UInt8) : Display :=
  if 0xB0 ≤ cmd ∧ cmd < 0xB8 then { d with page := cmd.toNat - 0xB0 }
  else if cmd < 0x10 then { d with column := d.column / 16 * 16 + cmd.toNat }
  else if cmd < 0x20 then { d with column := d.column % 16 + (cmd.toNat - 0x10) * 16 }
  else d

def data (d : Display) (b : UInt8) : Display :=
  { d with
    column := d.column + 1
    ram := Function.update d.ram d.page (Function.update (d.ram d.page) d.column b) }

/-- One transfer on the bus; the control byte says what the others are. -/
def receive (d : Display) : List UInt8 → Display
  | [] => d
  | control :: bytes => if control &&& 0x40 = 0 then bytes.foldl command d else bytes.foldl data d

end Display

/-- The frame buffer `shadowFB` and the display. -/
structure State where
  shadowFB : ℕ → UInt8
  display : Display

abbrev OledM := Prog State

def masterSend (bytes : List UInt8) : OledM Unit :=
  Prog.modify fun s => { s with display := s.display.receive bytes }

/-- Reading outside of `shadowFB` has no result. -/
def readShadow (i : ℕ) : OledM UInt8 := Prog.attempt fun s => if i < shadowFbSize then some (s.shadowFB i, s) else none

/-- Writing outside of `shadowFB` has no result. -/
def modifyShadow (i : ℕ) (f : UInt8 → UInt8) : OledM Unit := Prog.attempt fun s =>
  if i < shadowFbSize then some ((), { s with shadowFB := Function.update s.shadowFB i (f (s.shadowFB i)) }) else none

section output

def glcdWriteCommand (cmd : UInt8) : OledM Unit := masterSend [0x00, cmd]

def glcdWriteData (data : UInt8) : OledM Unit := masterSend [0x40, data]

/-- `len` counts the control byte, so that one byte less is written. -/
def glcdWriteDataLen (data : UInt8) (len : ℕ) : OledM Unit := masterSend ((0x40 :: List.replicate len data).take len)

def mSetAddress (page lowerAddr higherAddr : UInt8) : OledM Unit := do
  glcdWriteCommand page
  glcdWriteCommand lowerAddr
  glcdWriteCommand higherAddr

def pages : List UInt8 := [0xB0, 0xB1, 0xB2, 0xB3, 0xB4, 0xB5, 0xB6, 0xB7]

def clearPages (c : UInt8) : List UInt8 → OledM Unit
  | [] => pure ()
  | i :: pages => do
    mSetAddress i 0x00 0x10
    glcdWriteDataLen c 132
    clearPages c pages

def glcdClearScreen (color : OledColor) : OledM Unit := do
  let c : UInt8 := if color = .white then 0xff else 0
  clearPages c pages
  Prog.modify fun s => { s with shadowFB := fun i => if i < shadowFbSize then c else s.shadowFB i }

def glcdSetupCodes : List UInt8 :=
  [0xAE, 0xD5, 0x80, 0xA8, 0x3F, 0xD3, 0x00, 0x40, 0x8D, 0x14, 0x20, 0x00, 0xA1, 0xC8, 0xDA, 0x12, 0x81, 0xFF, 0xD9,
    0xF1, 0xDB, 0x40, 0xA4, 0xA6, 0xAF]

def writeCommands : List UInt8 → OledM Unit
  | [] => pure ()
  | cmd :: cmds => do
    glcdWriteCommand cmd
    writeCommands cmds

def glcdResetSsd1306 : OledM Unit := do
  writeCommands glcdSetupCodes
  glcdClearScreen .black

def glcDisplayOn : OledM Unit := writeCommands [0x8D, 0x14, 0xAF]

/-- With a display on the bus, which answers the dummy byte. -/
def glcdSsd1306Init : OledM Unit := do
  masterSend [0]
  glcdResetSsd1306
  glcDisplayOn

def readShadows : ℕ → ℕ → OledM (List UInt8)
  | _, 0 => pure []
  | i, n + 1 => do
    let b ← readShadow i
    let bytes ← readShadows (i + 1) n
    pure (b :: bytes)

def updatePages : List UInt8 → OledM Unit
  | [] => pure ()
  | i :: pages => do
    mSetAddress i 0x00 0x10
    let bytes ← readShadows (oledDisplayWidth * i.toNat) oledDisplayWidth
    masterSend bytes
    updatePages pages

def glcdUpdateScreen : OledM Unit := updatePages pages

end output

section pixel

def pageAddress (y : UInt8) : UInt8 :=
  if y < 8 then 0xB0
  else if y < 16 then 0xB1
  else if y < 24 then 0xB2
  else if y < 32 then 0xB3
  else if y < 40 then 0xB4
  else if y < 48 then 0xB5
  else if y < 56 then 0xB6
  else 0xB7

def pixelMask (y : UInt8) : UInt8 :=
  let add : UInt8 := y >>> 3
  let add := add <<< 3
  let add := y - add
  1 <<< add

def pixelPos (x y : UInt8) : ℕ := ((pageAddress y).toNat - 0xB0) * oledDisplayWidth + x.toNat

def paint (mask : UInt8) (color : OledColor) (b : UInt8) : UInt8 :=
  match color with
  | .black => b &&& ~~~mask
  | .white => b ||| mask

def glcdPutPixel (x y : UInt8) (color : OledColor) : OledM Unit := do
  if oledDisplayWidth < x.toNat then pure ()
  else if oledDisplayHeight < y.toNat then pure ()
  else
    let add := x.toNat + xOffset
    let lAddr := UInt8.ofNat (0x0F &&& add)
    let hAddr := UInt8.ofNat (0x10 ||| (add >>> 4))
    mSetAddress (pageAddress y) lAddr hAddr
    let shadowPos := pixelPos x y
    modifyShadow shadowPos (paint (pixelMask y) color)
    let b ← readShadow shadowPos
    glcdWriteData b

end pixel

section shapes

variable (color : OledColor)

def hLineRound (y0 x1 x0 : UInt8) : OledM (UInt8 ⊕ Unit) := do
  if x1 ≥ x0 then
    glcdPutPixel x0 y0 color
    pure (.inl (x0 + 1))
  else pure (.inr ())

def glcdHLine (x0 y0 x1 : UInt8) : OledM Unit :=
  if x0 > x1 then Prog.loop (hLineRound color y0 x0) x1 else Prog.loop (hLineRound color y0 x1) x0

def vLineRound (x0 y1 y0 : UInt8) : OledM (UInt8 ⊕ Unit) := do
  if y1 ≥ y0 then
    glcdPutPixel x0 y0 color
    pure (.inl (y0 + 1))
  else pure (.inr ())

def glcdVLine (x0 y0 y1 : UInt8) : OledM Unit :=
  if y0 > y1 then Prog.loop (vLineRound color x0 y0) y1 else Prog.loop (vLineRound color x0 y1) y0

/-- The variables of the sloping part of `GLCD_Line`. -/
structure LineVars where
  x0 : UInt8
  y0 : UInt8
  di : ℤ

def dxSym (d : ℤ) : ℤ := if 0 < d then 1 else -1

/-- One round of `while (x0 != x1)`. -/
def xLineRound (x1 : UInt8) (dx dy dxSym dySym : ℤ) (v : LineVars) : OledM (LineVars ⊕ LineVars) := do
  if v.x0 ≠ x1 then
    glcdPutPixel v.x0 v.y0 color
    if v.di < 0 then pure (.inl ⟨v.x0 + UInt8.ofInt dxSym, v.y0, v.di + dy * 2⟩)
    else pure (.inl ⟨v.x0 + UInt8.ofInt dxSym, v.y0 + UInt8.ofInt dySym, v.di + (dy * 2 - dx * 2)⟩)
  else pure (.inr v)

/-- One round of `while (y0 != y1)`. -/
def yLineRound (y1 : UInt8) (dx dy dxSym dySym : ℤ) (v : LineVars) : OledM (LineVars ⊕ LineVars) := do
  if v.y0 ≠ y1 then
    glcdPutPixel v.x0 v.y0 color
    if v.di < 0 then pure (.inl ⟨v.x0, v.y0 + UInt8.ofInt dySym, v.di + dx * 2⟩)
    else pure (.inl ⟨v.x0 + UInt8.ofInt dxSym, v.y0 + UInt8.ofInt dySym, v.di + (dx * 2 - dy * 2)⟩)
  else pure (.inr v)

def glcdLine (x0 y0 x1 y1 : UInt8) : OledM Unit :=
  let dx : ℤ := x1.toNat - x0.toNat
  let dy : ℤ := y1.toNat - y0.toNat
  if dx = 0 then glcdVLine color x0 y0 y1
  else if dy = 0 then glcdHLine color x0 y0 x1
  else
    let sx := dxSym dx
    let sy := dxSym dy
    let dx := sx * dx
    let dy := sy * dy
    if dx ≥ dy then do
      let v ← Prog.loop (xLineRound color x1 dx dy sx sy) ⟨x0, y0, dy * 2 - dx⟩
      glcdPutPixel v.x0 v.y0 color
    else do
      let v ← Prog.loop (yLineRound color y1 dx dy sx sy) ⟨x0, y0, dx * 2 - dy⟩
      glcdPutPixel v.x0 v.y0 color

/-- The 16-bit coordinates are narrowed to the parameters of `GLCD_putPixel`. -/
def putPixelIf (c : Prop) [Decidable c] (x y : ℤ) : OledM Unit :=
  if c then glcdPutPixel (UInt8.ofInt x) (UInt8.ofInt y) color else pure ()

/-- The variables of the loop of `GLCD_circle`. -/
structure CircleVars where
  x : Fin 8 → ℤ
  y : Fin 8 → ℤ
  xx : ℤ
  yy : ℤ
  di : ℤ

/-- The `else` branch of the loop, which goes one line inwards. -/
def CircleVars.inwards (v : CircleVars) : CircleVars where
  x := ![v.x 0, v.x 1, v.x 2, v.x 3, v.x 4 - 1, v.x 5 + 1, v.x 6 - 1, v.x 7 + 1]
  y := ![v.y 0 - 1, v.y 1 - 1, v.y 2 + 1, v.y 3 + 1, v.y 4, v.y 5, v.y 6, v.y 7]
  xx := v.xx
  yy := v.yy - 1
  di := v.di + (4 * (v.xx - v.yy) + 10)

def CircleVars.sideways (v : CircleVars) : CircleVars where
  x := ![v.x 0 + 1, v.x 1 - 1, v.x 2 + 1, v.x 3 - 1, v.x 4, v.x 5, v.x 6, v.x 7]
  y := ![v.y 0, v.y 1, v.y 2, v.y 3, v.y 4 + 1, v.y 5 + 1, v.y 6 - 1, v.y 7 - 1]
  xx := v.xx + 1
  yy := v.yy
  di := v.di

def CircleVars.next (v : CircleVars) : CircleVars :=
  if v.di < 0 then CircleVars.sideways { v with di := v.di + (4 * v.xx + 6) } else v.inwards.sideways

/-- The pixels of one round, one in each octant. -/
def circlePlots (v : CircleVars) : OledM Unit := do
  putPixelIf color (v.x 0 ≤ 128 ∧ v.y 0 ≥ 0) (v.x 0) (v.y 0)
  putPixelIf color (v.x 1 ≥ 0 ∧ v.y 1 ≥ 0) (v.x 1) (v.y 1)
  putPixelIf color (v.x 2 ≤ 128 ∧ v.y 2 ≤ 64) (v.x 2) (v.y 2)
  putPixelIf color (v.x 3 ≥ 0 ∧ v.y 3 ≤ 64) (v.x 3) (v.y 3)
  putPixelIf color (v.x 4 ≤ 128 ∧ v.y 4 ≥ 0) (v.x 4) (v.y 4)
  putPixelIf color (v.x 5 ≥ 0 ∧ v.y 5 ≥ 0) (v.x 5) (v.y 5)
  putPixelIf color (v.x 6 ≤ 128 ∧ v.y 6 ≤ 64) (v.x 6) (v.y 6)
  putPixelIf color (v.x 7 ≥ 0 ∧ v.y 7 ≤ 64) (v.x 7) (v.y 7)

def circleRound (v : CircleVars) : OledM (CircleVars ⊕ Unit) := do
  if v.xx < v.yy then
    let v := v.next
    circlePlots color v
    pure (.inl v)
  else pure (.inr ())

def circleStart (x0 y0 r : ℤ) : CircleVars where
  x := ![x0, x0, x0, x0, x0 + r, x0 - r, x0 + r, x0 - r]
  y := ![y0 + r, y0 + r, y0 - r, y0 - r, y0, y0, y0, y0]
  xx := 0
  yy := r
  di := 3 - 2 * r

def glcdCircle (x0 y0 r : UInt8) : OledM Unit :=
  if r = 0 then pure ()
  else do
    let x0 : ℤ := x0.toNat
    let y0 : ℤ := y0.toNat
    let r : ℤ := r.toNat
    putPixelIf color (y0 + r < 64) x0 (y0 + r)
    putPixelIf color (y0 - r ≥ 0) x0 (y0 - r)
    putPixelIf color (x0 + r < 128) (x0 + r) y0
    putPixelIf color (x0 - r ≥ 0) (x0 - r) y0
    if r = 1 then pure ()
    else Prog.loop (circleRound color) (circleStart x0 y0 r)

def glcdRect (x0 y0 x1 y1 : UInt8) : OledM Unit := do
  glcdHLine color x0 y0 x1
  glcdHLine color x0 y1 x1
  glcdVLine color x0 y0 y1
  glcdVLine color x1 y0 y1

def fillRectRound (x0 x1 y1 y0 : UInt8) : OledM (UInt8 ⊕ Unit) := do
  if y0 ≤ y1 then
    glcdHLine color x0 y0 x1
    pure (.inl (y0 + 1))
  else pure (.inr ())

/-- `GLCD_fillRect` behind its exchanges. -/
def fillRectSorted (x0 y0 x1 y1 : UInt8) : OledM Unit :=
  if y0 = y1 then glcdHLine color x0 y0 x1
  else if x0 = x1 then glcdVLine color x0 y0 y1
  else Prog.loop (fillRectRound color x0 x1 y1) y0

def glcdFillRect (x0 y0 x1 y1 : UInt8) : OledM Unit :=
  fillRectSorted color (if x0 > x1 then x1 else x0) (if y0 > y1 then y1 else y0) (if x0 > x1 then x0 else x1)
    (if y0 > y1 then y0 else y1)

end shapes

section text

/-- A font; `font` is the memory from its pointer on, and `none` the null pointer. -/
structure FontCfg where
  font : Option (ℤ → UInt8)
  firstchar : UInt8
  height : ℤ
  width : ℤ
  fontHrows : ℕ

def fontMask : List UInt8 := [0x80, 0x40, 0x20, 0x10, 0x08, 0x04, 0x02, 0x01]

variable (fb bg : OledColor)

/-- The loop over the bits of one byte; it leaves `x` behind the last one. -/
def putBits (y data : UInt8) : List UInt8 → UInt8 → OledM UInt8
  | [], x => pure x
  | mask :: masks, x => do
    glcdPutPixel x y (if data &&& mask = 0 then bg else fb)
    putBits y data masks (x + 1)

def putBytes (y : UInt8) : List UInt8 → UInt8 → OledM UInt8
  | [], x => pure x
  | data :: bytes, x => do
    let x ← putBits fb bg y data fontMask x
    putBytes y bytes x

/-- The loop over the rows of a character, of which `width` columns are taken back after each. -/
def putRows (width : ℤ) : List (List UInt8) → UInt8 → UInt8 → OledM Unit
  | [], _, _ => pure ()
  | row :: rows, x, y => do
    let x ← putBytes fb bg y row x
    putRows width rows (x - UInt8.ofInt width) (y + 1)

/-- The bytes of the rows of a character. -/
def charRows (font : ℤ → UInt8) (pfont : FontCfg) (ch : UInt8) : List (List UInt8) :=
  (List.range pfont.height.toNat).map fun (i : ℕ) => (List.range pfont.fontHrows).map fun (n : ℕ) =>
    font (((ch.toNat : ℤ) - pfont.firstchar.toNat) * pfont.height * pfont.fontHrows + (i * pfont.fontHrows + n))

/-- The counters have 8 bits, so that no loop ends that needs more rounds. -/
def glcdPutChar (font : ℤ → UInt8) (x y ch : UInt8) (pfont : FontCfg) : OledM Bool := do
  if (x.toNat : ℤ) ≥ oledDisplayWidth - pfont.width ∨ (y.toNat : ℤ) ≥ oledDisplayHeight - pfont.height then pure false
  else
    Prog.check (pfont.fontHrows ≤ 255 ∨ pfont.height ≤ 0)
    putRows fb bg pfont.width (charRows font pfont ch) x y
    pure true

def put5x7Rows : List UInt8 → UInt8 → UInt8 → OledM Unit
  | [], _, _ => pure ()
  | data :: rows, x, y => do
    let x ← putBits fb bg y data (fontMask.take 6) x
    put5x7Rows rows (x - 6) (y + 1)

/-- `font5x7` gives the eight rows of each of its characters. -/
def glcdPutChar5x7 (font5x7 : UInt8 → List UInt8) (x y ch : UInt8) : OledM Bool := do
  if x.toNat ≥ oledDisplayWidth - 8 ∨ y.toNat ≥ oledDisplayHeight - 8 then pure false
  else
    let ch := if ch < 0x20 ∨ 0x7f < ch then 0x20 else ch
    put5x7Rows fb bg ((font5x7 (ch - 0x20)).take 8) x y
    pure true

/-- `pStr` are the characters before the closing zero. -/
def glcdPutString (font5x7 : UInt8 → List UInt8) (pfont : FontCfg) : List UInt8 → UInt8 → UInt8 → OledM Unit
  | [], _, _ => pure ()
  | ch :: pStr, x, y => do
    match pfont.font with
    | some font =>
      if ← glcdPutChar fb bg font x y ch pfont then
        glcdPutString font5x7 pfont pStr (x + UInt8.ofInt pfont.width) y
      else pure ()
    | none =>
      if ← glcdPutChar5x7 fb bg font5x7 x y ch then glcdPutString font5x7 pfont pStr (x + 6) y
      else pure ()

end text

end Lpc1788Libraries.Oled

import Lpc1788Libraries.Support.BoundedProgram

namespace Lpc1788Libraries.Gfx

open Lpc1788Libraries.Support BoundedProgram

def cGlcdHSize : ℕ := 480

def cGlcdVSize : ℕ := 272

def portrait : UInt8 := 0

def landscape : UInt8 := 1

/-- The pixels behind `LCD_VRAM_BASE_ADDR`, the fields of `plcd` that drawing reads, and the points of all
calls of `open1788_LCD_SetPoint` so far. -/
structure Lcd where
  vram : ℕ → UInt32
  fgcolor : UInt32
  orient : UInt8
  points : List (UInt16 × UInt16)

abbrev LcdM := Prog Lcd

def setPoint (xpos ypos : UInt16) (color : UInt32) (s : Lcd) : Lcd :=
  let s := { s with points := s.points ++ [(xpos, ypos)] }
  if cGlcdHSize ≤ xpos.toNat ∨ cGlcdVSize ≤ ypos.toNat then s
  else
    let value := ypos.toNat * cGlcdHSize + xpos.toNat
    { s with vram := Function.update s.vram value color }

section line

variable (color : UInt32)

def lcdSetPoint (xpos ypos : UInt16) : LcdM Unit := Prog.modify (setPoint xpos ypos color)

/-- The variables of the loops of `open1788_LCD_DrawLine`. -/
structure LineVars where
  i1 : UInt32
  l1 : UInt32
  n1 : Int32

variable (x2 y2 : UInt16)

/-- To the right and not steeper than a diagonal. The distances are those behind the step. -/
def rightFlat (v : LineVars) : LineVars :=
  if v.n1 < 0 then
    { v with i1 := v.i1 + 1, n1 := (v.n1.toUInt32 + (y2.toUInt32 - v.l1)).toInt32 }
  else
    let i1 := v.i1 + 1
    let l1 := v.l1 + 1
    ⟨i1, l1, (v.n1.toUInt32 + (y2.toUInt32 - l1) - (x2.toUInt32 - i1)).toInt32⟩

def rightSteep (v : LineVars) : LineVars :=
  let j1 := x2.toUInt32 - v.i1
  let k1 := y2.toUInt32 - v.l1
  if v.n1 < 0 then ⟨v.i1 + 1, v.l1 + 1, (v.n1.toUInt32 + k1 - j1).toInt32⟩
  else { v with l1 := v.l1 + 1, n1 := (v.n1.toUInt32 - j1).toInt32 }

def leftFlat (v : LineVars) : LineVars :=
  let j1 := v.i1 - x2.toUInt32
  let k1 := y2.toUInt32 - v.l1
  if v.n1 < 0 then { v with i1 := v.i1 - 1, n1 := (v.n1.toUInt32 + k1).toInt32 }
  else ⟨v.i1 - 1, v.l1 + 1, (v.n1.toUInt32 + k1 - j1).toInt32⟩

def leftSteep (v : LineVars) : LineVars :=
  let j1 := v.i1 - x2.toUInt32
  let k1 := y2.toUInt32 - v.l1
  if v.n1 < 0 then ⟨v.i1 - 1, v.l1 + 1, (v.n1.toUInt32 + k1 - j1).toInt32⟩
  else { v with l1 := v.l1 + 1, n1 := (v.n1.toUInt32 - j1).toInt32 }

/-- One round of the `while` loops. -/
def lineRound (more : LineVars → Bool) (next : LineVars → LineVars) (v : LineVars) : LcdM (LineVars ⊕ Unit) := do
  if more v then
    let v := next v
    lcdSetPoint color v.i1.toUInt16 v.l1.toUInt16
    pure (.inl v)
  else pure (.inr ())

def drawSloped (x1 y1 : UInt16) : LcdM Unit := do
  let temp := decide (x2 ≥ x1)
  let j1 := if x2 ≥ x1 then x2.toUInt32 - x1.toUInt32 else x1.toUInt32 - x2.toUInt32
  let k1 := y2.toUInt32 - y1.toUInt32
  let v : LineVars := ⟨x1.toUInt32, y1.toUInt32, 0⟩
  lcdSetPoint color v.i1.toUInt16 v.l1.toUInt16
  let beside := fun v : LineVars => v.i1 != x2.toUInt32
  let above := fun v : LineVars => v.l1 != y2.toUInt32
  if temp && k1 ≤ j1 then Prog.loop (lineRound color beside (rightFlat x2 y2)) v
  else if temp && k1 > j1 then Prog.loop (lineRound color above (rightSteep x2 y2)) v
  else if !temp && k1 ≤ j1 then Prog.loop (lineRound color beside (leftFlat x2 y2)) v
  else if !temp && k1 > j1 then Prog.loop (lineRound color above (leftSteep x2 y2)) v
  else pure ()

def runRound (y1 : UInt16) (i1 : UInt32) : LcdM (UInt32 ⊕ Unit) := do
  if i1 ≤ x2.toUInt32 then
    lcdSetPoint color i1.toUInt16 y1
    pure (.inl (i1 + 1))
  else pure (.inr ())

/-- `open1788_LCD_DrawLine` behind the exchange of its end points. -/
def drawDown (x1 y1 x2 y2 : UInt16) : LcdM Unit :=
  if y2.toUInt32 - y1.toUInt32 = 0 then
    if x1 > x2 then Prog.loop (runRound color x1 y1) x2.toUInt32
    else Prog.loop (runRound color x2 y1) x1.toUInt32
  else drawSloped color x2 y2 x1 y1

def drawLine (x1 y1 x2 y2 : UInt16) : LcdM Unit :=
  if y2 < y1 then drawDown color x2 y2 x1 y1 else drawDown color x1 y1 x2 y2

end line

section rectangle

/-- The coordinates are narrowed to the parameters of `open1788_LCD_SetPoint`. -/
def drawPoint (s : Lcd) (p : ℤ × ℤ) : Lcd := setPoint (UInt16.ofInt p.1) (UInt16.ofInt p.2) s.fgcolor s

def drawHLine (x y l : ℤ) (s : Lcd) : Lcd :=
  (List.range (l + 1).toNat).foldl (fun s (i : ℕ) => drawPoint s (x + i, y)) s

def drawVLine (x y l : ℤ) (s : Lcd) : Lcd := (List.range l.toNat).foldl (fun s (i : ℕ) => drawPoint s (x, y + i)) s

/-- The functions below first put the coordinates of their corners in order. -/
def sorted (draw : ℤ → ℤ → ℤ → ℤ → Lcd → Lcd) (x1 y1 x2 y2 : ℤ) : Lcd → Lcd :=
  draw (if x1 > x2 then x2 else x1) (if y1 > y2 then y2 else y1) (if x1 > x2 then x1 else x2)
    (if y1 > y2 then y1 else y2)

def drawRect : ℤ → ℤ → ℤ → ℤ → Lcd → Lcd := sorted fun x1 y1 x2 y2 s =>
  let s := drawHLine x1 y1 (x2 - x1) s
  let s := drawHLine x1 y2 (x2 - x1) s
  let s := drawVLine x1 y1 (y2 - y1) s
  drawVLine x2 y1 (y2 - y1) s

def fillRect : ℤ → ℤ → ℤ → ℤ → Lcd → Lcd := sorted fun x1 y1 x2 y2 s =>
  if s.orient = portrait then
    (List.range ((y2 - y1) / 2 + 1).toNat).foldl (fun s (i : ℕ) =>
      drawHLine x1 (y2 - i) (x2 - x1) (drawHLine x1 (y1 + i) (x2 - x1) s)) s
  else
    (List.range ((x2 - x1) / 2 + 1).toNat).foldl (fun s (i : ℕ) =>
      drawVLine (x2 - i) y1 (y2 - y1) (drawVLine (x1 + i) y1 (y2 - y1) s)) s

end rectangle

end Lpc1788Libraries.Gfx

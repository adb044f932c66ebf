import Mathlib.Data.Rat.Floor
import Mathlib.Data.Fin.Basic
import Mathlib.Logic.Equiv.Basic
import Mathlib.Tactic.Ring

namespace Lpc1788Libraries.Touch

scoped instance three_neZero : NeZero 3 := ⟨by decide⟩

/-- The fields are 16 bits wide. -/
structure Coordinate where
  x : ℕ
  y : ℕ
  deriving DecidableEq

/-- The fields are of type `long double`, taken as exact numbers. -/
structure Matrix where
  An : ℚ
  Bn : ℚ
  Cn : ℚ
  Dn : ℚ
  En : ℚ
  Fn : ℚ
  Divider : ℚ
  deriving DecidableEq

def THRESHOLD : ℕ := 2

section filter

/-- The means of three groups of samples on one axis, as `Read_XTP2046` puts them together: none where all the
differences are too large. The differences are of 32 bits without a sign. -/
def average (temp : Fin 3 → ℕ) : Option ℕ :=
  let m0 := (temp 0 + 0x100000000 - temp 1) % 0x100000000
  let m1 := (temp 1 + 0x100000000 - temp 2) % 0x100000000
  let m2 := (temp 2 + 0x100000000 - temp 0) % 0x100000000
  let m0 := if m0 > 0 then m0 else (0x100000000 - m0) % 0x100000000
  let m1 := if m1 > 0 then m1 else (0x100000000 - m1) % 0x100000000
  let m2 := if m2 > 0 then m2 else (0x100000000 - m2) % 0x100000000
  if m0 > THRESHOLD ∧ m1 > THRESHOLD ∧ m2 > THRESHOLD then none
  else if m0 < m1 then
    if m2 < m0 then some ((temp 0 + temp 2) / 2) else some ((temp 0 + temp 1) / 2)
  else if m2 < m1 then some ((temp 0 + temp 2) / 2)
  else some ((temp 1 + temp 2) / 2)

/-- The samples that are taken until the pen is up or there are nine. -/
def sampleCount (penirq : ℕ → Bool) : ℕ → ℕ → ℕ
  | 0, count => count
  | n + 1, count => if !penirq count && count + 1 < 9 then sampleCount penirq n (count + 1) else count + 1

/-- The mean of the group `k` on one axis. -/
def groupMean (buffer : ℕ → ℕ) (k : Fin 3) : ℕ := (buffer (3 * k) + buffer (3 * k + 1) + buffer (3 * k + 2)) / 3

/-- The content of `screen` behind the call, and whether its address is returned. -/
def readXtp2046 (sample : ℕ → Coordinate) (penirq : ℕ → Bool) : Coordinate × Bool :=
  let count := sampleCount penirq 9 0
  let screen := sample (count - 1)
  if count = 9 then
    match average (groupMean fun i => (sample i).x) with
    | none => (screen, false)
    | some x =>
      match average (groupMean fun i => (sample i).y) with
      | none => (⟨x, screen.y⟩, false)
      | some y => (⟨x, y⟩, true)
  else (screen, false)

end filter

section calibration

inductive FunctionalState
  | DISABLE
  | ENABLE
  deriving DecidableEq

/-- A result of type `int`: C leaves it undefined where it does not fit. -/
def int (v : ℤ) : Option ℤ := if -0x80000000 ≤ v ∧ v < 0x80000000 then some v else none

/-- `(p - q) * (r - s) - (t - u) * (v - w)` -/
def crossDifference (p q r s t u v w : ℤ) : Option ℤ := do
  let first ← int ((← int (p - q)) * (← int (r - s)))
  let second ← int ((← int (t - u)) * (← int (v - w)))
  int (first - second)

/-- `(a * b - c * d) * e` -/
def crossProduct (a b c d e : ℤ) : Option ℤ := do
  int ((← int ((← int (a * b)) - (← int (c * d)))) * e)

/-- `Cn`, and `Fn` with the other axis of the display. -/
def offset (display : Fin 3 → ℤ) (screen : Fin 3 → Coordinate) : Option ℤ := do
  let first ← crossProduct (screen 2).x (display 1) (screen 1).x (display 2) (screen 0).y
  let second ← crossProduct (screen 0).x (display 2) (screen 2).x (display 0) (screen 1).y
  let third ← crossProduct (screen 1).x (display 0) (screen 0).x (display 1) (screen 2).y
  int ((← int (first + second)) + third)

/-- `An`, `Bn` and `Cn`, and `Dn`, `En` and `Fn` with the other axis of the display. -/
def coefficients (display : Fin 3 → ℤ) (screen : Fin 3 → Coordinate) : Option (ℤ × ℤ × ℤ) := do
  let a ← crossDifference (display 0) (display 2) (screen 1).y (screen 2).y (display 1) (display 2) (screen 0).y (screen 2).y
  let b ← crossDifference (screen 0).x (screen 2).x (display 1) (display 2) (display 0) (display 2) (screen 1).x (screen 2).x
  let c ← offset display screen
  return (a, b, c)

/-- What is returned and the new matrix, or nothing where a result does not fit into `int`. -/
def setCalibrationMatrix (display screen : Fin 3 → Coordinate) (matrix : Matrix) : Option (FunctionalState × Matrix) := do
  let divider ← crossDifference (screen 0).x (screen 2).x (screen 1).y (screen 2).y (screen 1).x (screen 2).x
    (screen 0).y (screen 2).y
  if divider = 0 then return (.DISABLE, { matrix with Divider := 0 })
  else do
    let (a, b, c) ← coefficients (fun i => (display i).x) screen
    let (d, e, f) ← coefficients (fun i => (display i).y) screen
    return (.ENABLE, ⟨a, b, c, d, e, f, divider⟩)

/-- The conversion to 16 bits cuts off the fraction. It is not defined where the rest does not fit. -/
def toUInt16 (v : ℚ) : Option ℕ :=
  let n := if v < 0 then -⌊-v⌋ else ⌊v⌋
  if 0 ≤ n ∧ n < 0x10000 then some n.toNat else none

/-- What is returned and the point of the display. -/
def touchGetDisplaypoint (display screen : Coordinate) (matrix : Matrix) : Option (FunctionalState × Coordinate) :=
  if matrix.Divider ≠ 0 then do
    let x ← toUInt16 ((matrix.An * screen.x + matrix.Bn * screen.y + matrix.Cn) / matrix.Divider)
    let y ← toUInt16 ((matrix.Dn * screen.x + matrix.En * screen.y + matrix.Fn) / matrix.Divider)
    return (.ENABLE, ⟨x, y⟩)
  else return (.DISABLE, display)

end calibration

end Lpc1788Libraries.Touch

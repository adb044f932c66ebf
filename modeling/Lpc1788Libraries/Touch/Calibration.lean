import Lpc1788Libraries.Touch.TouchPanel
import Mathlib.Data.Fin.VecNotation
import Mathlib.Data.Fintype.Basic
import Mathlib.Tactic.FieldSimp
import Mathlib.Tactic.FinCases
import Mathlib.Tactic.Linarith
import Mathlib.Tactic.LinearCombination

namespace Lpc1788Libraries.Touch

/-- The range of `int`. -/
def InInt (v : ℤ) : Prop := -0x80000000 ≤ v ∧ v < 0x80000000

instance (v : ℤ) : Decidable (InInt v) := inferInstanceAs (Decidable (_ ∧ _))

variable {u v w x y z : ℤ}

section int

theorem int_of_inInt (h : InInt v) : int v = some v := if_pos h

theorem int_bind {α : Type} {f : ℤ → Option α} {r : α} : (int v).bind f = some r ↔ InInt v ∧ f v = some r := by
  unfold int InInt
  split
  · rename_i h
    exact ⟨fun hf => ⟨h, hf⟩, fun hf => hf.2⟩
  · rename_i h
    exact ⟨fun hf => absurd hf (by simp), fun hf => absurd hf.1 h⟩

theorem int_eq_some : int v = some w ↔ InInt v ∧ v = w := by
  have h := @int_bind v ℤ some w
  rw [Option.bind_fun_some, Option.some_inj] at h
  exact h

theorem mul_bounds {m n : ℤ} (hx : -m ≤ x ∧ x ≤ m) (hy : -n ≤ y ∧ y ≤ n) : -(m * n) ≤ x * y ∧ x * y ≤ m * n := by
  constructor <;> nlinarith

end int

section coefficients

/-- The differences of two samples of one axis. -/
def Narrow (v : ℤ) : Prop := -4095 ≤ v ∧ v ≤ 4095

theorem crossDifference_eq {p q r s t u v w : ℤ} (h₁ : Narrow (p - q)) (h₂ : Narrow (r - s)) (h₃ : Narrow (t - u))
    (h₄ : Narrow (v - w)) : crossDifference p q r s t u v w = some ((p - q) * (r - s) - (t - u) * (v - w)) := by
  obtain ⟨hlo, hhi⟩ := mul_bounds h₁ h₂
  obtain ⟨hlo', hhi'⟩ := mul_bounds h₃ h₄
  have hnarrow : ∀ {d}, Narrow d → int d = some d := fun h => int_of_inInt ⟨by have := h.1; omega, by have := h.2; omega⟩
  have hfirst : int ((p - q) * (r - s)) = some ((p - q) * (r - s)) := int_of_inInt ⟨by omega, by omega⟩
  have hsecond : int ((t - u) * (v - w)) = some ((t - u) * (v - w)) := int_of_inInt ⟨by omega, by omega⟩
  have hall : int ((p - q) * (r - s) - (t - u) * (v - w)) = some ((p - q) * (r - s) - (t - u) * (v - w)) :=
    int_of_inInt ⟨by omega, by omega⟩
  simp only [crossDifference, hnarrow h₁, hnarrow h₂, hnarrow h₃, hnarrow h₄, hfirst, hsecond, hall, Option.bind_eq_bind,
    Option.bind_some]

theorem crossProduct_eq {a b c d e : ℤ} (ha : 0 ≤ a ∧ a ≤ 4095) (hb : 0 ≤ b ∧ b ≤ 479) (hc : 0 ≤ c ∧ c ≤ 4095)
    (hd : 0 ≤ d ∧ d ≤ 479) : crossProduct a b c d e = int ((a * b - c * d) * e) := by
  have hab : 0 ≤ a * b ∧ a * b ≤ 4095 * 479 := by constructor <;> nlinarith
  have hcd : 0 ≤ c * d ∧ c * d ≤ 4095 * 479 := by constructor <;> nlinarith
  have hfirst : int (a * b) = some (a * b) := int_of_inInt ⟨by omega, by omega⟩
  have hsecond : int (c * d) = some (c * d) := int_of_inInt ⟨by omega, by omega⟩
  have hdiff : int (a * b - c * d) = some (a * b - c * d) := int_of_inInt ⟨by omega, by omega⟩
  simp only [crossProduct, hfirst, hsecond, hdiff, Option.bind_eq_bind, Option.bind_some]

/-- The three terms of `Cn`, and of `Fn` with the other axis of the display. -/
def term (display : Fin 3 → ℤ) (screen : Fin 3 → Coordinate) : Fin 3 → ℤ :=
  ![((screen 2).x * display 1 - (screen 1).x * display 2) * (screen 0).y,
    ((screen 0).x * display 2 - (screen 2).x * display 0) * (screen 1).y,
    ((screen 1).x * display 0 - (screen 0).x * display 1) * (screen 2).y]

/-- The terms and their sums are in the range of `int`. -/
def Bounded (display : Fin 3 → ℤ) (screen : Fin 3 → Coordinate) : Prop :=
  InInt (term display screen 0) ∧ InInt (term display screen 1) ∧ InInt (term display screen 2) ∧
    InInt (term display screen 0 + term display screen 1) ∧
    InInt (term display screen 0 + term display screen 1 + term display screen 2)

/-- The screen samples have twelve bits, and the points are on the display. -/
structure Placed (display screen : Fin 3 → Coordinate) : Prop where
  screen_lt : ∀ i, (screen i).x < 4096 ∧ (screen i).y < 4096
  display_lt : ∀ i, (display i).x < 480 ∧ (display i).y < 272

variable {points : Fin 3 → ℤ} {display screen : Fin 3 → Coordinate} {matrix : Matrix}

theorem offset_eq_some {c : ℤ} (hs : ∀ i, (screen i).x < 4096 ∧ (screen i).y < 4096) (hp : ∀ i, 0 ≤ points i ∧ points i ≤ 479) :
    offset points screen = some c ↔
    Bounded points screen ∧ term points screen 0 + term points screen 1 + term points screen 2 = c := by
  have hx : ∀ i, (0 : ℤ) ≤ (screen i).x ∧ ((screen i).x : ℤ) ≤ 4095 := by
    intro i
    have := (hs i).1
    omega
  unfold offset
  rw [crossProduct_eq (hx 2) (hp 1) (hx 1) (hp 2), crossProduct_eq (hx 0) (hp 2) (hx 2) (hp 0),
    crossProduct_eq (hx 1) (hp 0) (hx 0) (hp 1)]
  change (int (term points screen 0)).bind (fun first => (int (term points screen 1)).bind fun second =>
    (int (term points screen 2)).bind fun third => (int (first + second)).bind fun v => int (v + third)) = some c ↔ _
  simp only [int_bind, int_eq_some, Bounded, and_assoc]

def slopeX (points : Fin 3 → ℤ) (screen : Fin 3 → Coordinate) : ℤ :=
  (points 0 - points 2) * ((screen 1).y - (screen 2).y) - (points 1 - points 2) * ((screen 0).y - (screen 2).y)

def slopeY (points : Fin 3 → ℤ) (screen : Fin 3 → Coordinate) : ℤ :=
  ((screen 0).x - (screen 2).x) * (points 1 - points 2) - (points 0 - points 2) * ((screen 1).x - (screen 2).x)

def intercept (points : Fin 3 → ℤ) (screen : Fin 3 → Coordinate) : ℤ :=
  term points screen 0 + term points screen 1 + term points screen 2

/-- Twice the area of the triangle of the samples: zero where they are on one line. -/
def area (screen : Fin 3 → Coordinate) : ℤ :=
  ((screen 0).x - (screen 2).x) * ((screen 1).y - (screen 2).y) -
    ((screen 1).x - (screen 2).x) * ((screen 0).y - (screen 2).y)

theorem coefficients_eq_some {r : ℤ × ℤ × ℤ} (hs : ∀ i, (screen i).x < 4096 ∧ (screen i).y < 4096)
    (hp : ∀ i, 0 ≤ points i ∧ points i ≤ 479) : coefficients points screen = some r ↔
    Bounded points screen ∧ (slopeX points screen, slopeY points screen, intercept points screen) = r := by
  have hpoints : ∀ i j, Narrow (points i - points j) := by
    intro i j
    have hi := hp i
    have hj := hp j
    exact ⟨by omega, by omega⟩
  have hxs : ∀ i j, Narrow ((screen i).x - (screen j).x) := by
    intro i j
    have hi := (hs i).1
    have hj := (hs j).1
    exact ⟨by omega, by omega⟩
  have hys : ∀ i j, Narrow ((screen i).y - (screen j).y) := by
    intro i j
    have hi := (hs i).2
    have hj := (hs j).2
    exact ⟨by omega, by omega⟩
  unfold coefficients
  rw [crossDifference_eq (hpoints 0 2) (hys 1 2) (hpoints 1 2) (hys 0 2),
    crossDifference_eq (hxs 0 2) (hpoints 1 2) (hpoints 0 2) (hxs 1 2)]
  change (offset points screen).bind (fun c => some (slopeX points screen, slopeY points screen, c)) = some r ↔ _
  rw [Option.bind_eq_some_iff]
  constructor
  · rintro ⟨c, hc, hr⟩
    obtain ⟨hb, rfl⟩ := (offset_eq_some hs hp).mp hc
    exact ⟨hb, Option.some.inj hr⟩
  · rintro ⟨hb, rfl⟩
    exact ⟨_, (offset_eq_some hs hp).mpr ⟨hb, rfl⟩, rfl⟩

theorem divider_eq (hs : ∀ i, (screen i).x < 4096 ∧ (screen i).y < 4096) :
    crossDifference (screen 0).x (screen 2).x (screen 1).y (screen 2).y (screen 1).x (screen 2).x (screen 0).y (screen 2).y =
    some (area screen) := by
  have hxs : ∀ i j, Narrow ((screen i).x - (screen j).x) := by
    intro i j
    have hi := (hs i).1
    have hj := (hs j).1
    exact ⟨by omega, by omega⟩
  have hys : ∀ i j, Narrow ((screen i).y - (screen j).y) := by
    intro i j
    have hi := (hs i).2
    have hj := (hs j).2
    exact ⟨by omega, by omega⟩
  exact crossDifference_eq (hxs 0 2) (hys 1 2) (hxs 1 2) (hys 0 2)

end coefficients

section matrix

variable {display screen : Fin 3 → Coordinate} {matrix m : Matrix}

def xs (display : Fin 3 → Coordinate) (i : Fin 3) : ℤ := (display i).x

def ys (display : Fin 3 → Coordinate) (i : Fin 3) : ℤ := (display i).y

/-- The matrix that maps the samples to the points. -/
def calibrated (display screen : Fin 3 → Coordinate) : Matrix where
  An := slopeX (xs display) screen
  Bn := slopeY (xs display) screen
  Cn := intercept (xs display) screen
  Dn := slopeX (ys display) screen
  En := slopeY (ys display) screen
  Fn := intercept (ys display) screen
  Divider := area screen

theorem setCalibrationMatrix_eq_some (h : Placed display screen) (ha : area screen ≠ 0) :
    setCalibrationMatrix display screen matrix = some (.ENABLE, m) ↔
    (Bounded (xs display) screen ∧ Bounded (ys display) screen) ∧ calibrated display screen = m := by
  have hx : ∀ i, 0 ≤ xs display i ∧ xs display i ≤ 479 := by
    intro i
    have := (h.display_lt i).1
    unfold xs
    omega
  have hy : ∀ i, 0 ≤ ys display i ∧ ys display i ≤ 479 := by
    intro i
    have := (h.display_lt i).2
    unfold ys
    omega
  have hdef : setCalibrationMatrix display screen matrix =
      (coefficients (xs display) screen).bind fun r => (coefficients (ys display) screen).bind fun r' =>
        some (FunctionalState.ENABLE, ⟨r.1, r.2.1, r.2.2, r'.1, r'.2.1, r'.2.2, area screen⟩) := by
    unfold setCalibrationMatrix
    rw [divider_eq h.screen_lt]
    change (if area screen = 0 then _ else _) = _
    rw [if_neg ha]
    rfl
  rw [hdef, Option.bind_eq_some_iff]
  constructor
  · rintro ⟨r, hr, hrest⟩
    obtain ⟨r', hr', hm⟩ := Option.bind_eq_some_iff.mp hrest
    obtain ⟨hb, rfl⟩ := (coefficients_eq_some h.screen_lt hx).mp hr
    obtain ⟨hb', rfl⟩ := (coefficients_eq_some h.screen_lt hy).mp hr'
    exact ⟨⟨hb, hb'⟩, congrArg Prod.snd (Option.some.inj hm)⟩
  · rintro ⟨⟨hb, hb'⟩, rfl⟩
    refine ⟨_, (coefficients_eq_some h.screen_lt hx).mpr ⟨hb, rfl⟩, ?_⟩
    exact Option.bind_eq_some_iff.mpr ⟨_, (coefficients_eq_some h.screen_lt hy).mpr ⟨hb', rfl⟩, rfl⟩

theorem plane_eq (points : Fin 3 → ℤ) (screen : Fin 3 → Coordinate) (i : Fin 3) :
    slopeX points screen * (screen i).x + slopeY points screen * (screen i).y + intercept points screen =
    area screen * points i := by
  have hterms : intercept points screen = ((screen 2).x * points 1 - (screen 1).x * points 2) * (screen 0).y +
      ((screen 0).x * points 2 - (screen 2).x * points 0) * (screen 1).y +
      ((screen 1).x * points 0 - (screen 0).x * points 1) * (screen 2).y := rfl
  have hi : i = 0 ∨ i = 1 ∨ i = 2 := by omega
  rw [hterms]
  unfold slopeX slopeY area
  rcases hi with rfl | rfl | rfl <;> ring

theorem toUInt16_natCast {n : ℕ} (h : n < 0x10000) : toUInt16 n = some n := by
  have hpos : ¬ (n : ℚ) < 0 := not_lt.mpr (Nat.cast_nonneg n)
  unfold toUInt16
  rw [if_neg hpos, Int.floor_natCast]
  exact if_pos ⟨by omega, by omega⟩

theorem coordinate_eq (points : Fin 3 → ℤ) (ha : area screen ≠ 0) (i : Fin 3) :
    ((slopeX points screen : ℚ) * (screen i).x + slopeY points screen * (screen i).y + intercept points screen) /
      area screen = points i := by
  have hplane : ((slopeX points screen * (screen i).x + slopeY points screen * (screen i).y + intercept points screen : ℤ) : ℚ) =
      ((area screen * points i : ℤ) : ℚ) := congrArg _ (plane_eq points screen i)
  have hne : (area screen : ℚ) ≠ 0 := Int.cast_ne_zero.mpr ha
  push_cast at hplane
  rw [hplane, mul_div_cancel_left₀ _ hne]

theorem touchGetDisplaypoint_calibrated (h : Placed display screen) (ha : area screen ≠ 0) (p : Coordinate) (i : Fin 3) :
    touchGetDisplaypoint p (screen i) (calibrated display screen) = some (.ENABLE, display i) := by
  have hx : toUInt16 ((xs display i : ℤ) : ℚ) = some (display i).x := by
    have := (h.display_lt i).1
    exact toUInt16_natCast (by omega)
  have hy : toUInt16 ((ys display i : ℤ) : ℚ) = some (display i).y := by
    have := (h.display_lt i).2
    exact toUInt16_natCast (by omega)
  have hne : (calibrated display screen).Divider ≠ 0 := Int.cast_ne_zero.mpr ha
  unfold touchGetDisplaypoint
  rw [if_pos hne]
  simp only [calibrated, coordinate_eq _ ha, hx, hy]
  rfl

end matrix

section property

variable {display screen : Fin 3 → Coordinate}

/-- The calibration succeeds, with no result behind the range of `int`, and each sample is mapped to its point. -/
def Calibrates (display screen : Fin 3 → Coordinate) (matrix : Matrix) : Prop :=
  ∃ m, setCalibrationMatrix display screen matrix = some (.ENABLE, m) ∧
    ∀ i p, touchGetDisplaypoint p (screen i) m = some (.ENABLE, display i)

/-- Of all the results only the terms of `Cn` and `Fn` and their sums can be out of range. -/
theorem calibrates_iff (h : Placed display screen) (ha : area screen ≠ 0) (matrix : Matrix) :
    Calibrates display screen matrix ↔ Bounded (xs display) screen ∧ Bounded (ys display) screen := by
  constructor
  · rintro ⟨m, hm, -⟩
    exact ((setCalibrationMatrix_eq_some h ha).mp hm).1
  · intro hb
    refine ⟨calibrated display screen, (setCalibrationMatrix_eq_some h ha).mpr ⟨hb, rfl⟩, ?_⟩
    intro i p
    exact touchGetDisplaypoint_calibrated h ha p i

/-- The points of `touch_calibrate`. -/
def displaySample : Fin 3 → Coordinate := ![⟨45, 45⟩, ⟨400, 60⟩, ⟨240, 250⟩]

/-- The samples of a panel that has the axes of the display. -/
def upright : Fin 3 → Coordinate := ![⟨384, 678⟩, ⟨3413, 903⟩, ⟨2048, 3764⟩]

/-- The samples of the same panel with its horizontal axis the other way. -/
def mirrored : Fin 3 → Coordinate := ![⟨3711, 678⟩, ⟨682, 903⟩, ⟨2047, 3764⟩]

theorem calibrates_iff_upright : Calibrates displaySample upright ⟨0, 0, 0, 0, 0, 0, 0⟩ := by
  have hplaced : Placed displaySample upright := by
    constructor
    · intro i
      fin_cases i <;> exact ⟨by decide, by decide⟩
    · intro i
      fin_cases i <;> exact ⟨by decide, by decide⟩
  apply (calibrates_iff hplaced (by decide) ⟨0, 0, 0, 0, 0, 0, 0⟩).mpr
  exact ⟨by unfold Bounded; decide, by unfold Bounded; decide⟩

/-- The third term of `Cn` is -5471764440. -/
theorem mirrored_overflows : setCalibrationMatrix displaySample mirrored ⟨0, 0, 0, 0, 0, 0, 0⟩ = none ∧
    ¬ Calibrates displaySample mirrored ⟨0, 0, 0, 0, 0, 0, 0⟩ := by
  have hnone : setCalibrationMatrix displaySample mirrored ⟨0, 0, 0, 0, 0, 0, 0⟩ = none := rfl
  refine ⟨hnone, ?_⟩
  rintro ⟨m, hm, -⟩
  rw [hnone] at hm
  exact absurd hm (by simp)

end property

end Lpc1788Libraries.Touch

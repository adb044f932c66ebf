import Lpc1788Libraries.Oled.Painting
import Lpc1788Libraries.Support.PixelChain

namespace Lpc1788Libraries.Oled

open Lpc1788Libraries.Support BoundedProgram PixelChain

variable {color : OledColor} {x0 y0 x1 y1 : UInt8} {a b : ℤ}

section model

/-- A value that is assigned to a variable of the type `int16_t`; it has no result when it does not fit. -/
def int16 (z : ℤ) : OledM ℤ := do
  Prog.check (-32768 ≤ z ∧ z ≤ 32767)
  pure z

variable (color : OledColor)

def xLineRoundInt16 (x1 : UInt8) (dxX2 dyX2 dxSym dySym : ℤ) (v : LineVars) : OledM (LineVars ⊕ LineVars) := do
  if v.x0 ≠ x1 then
    glcdPutPixel v.x0 v.y0 color
    if v.di < 0 then
      let di ← int16 (v.di + dyX2)
      pure (.inl ⟨v.x0 + UInt8.ofInt dxSym, v.y0, di⟩)
    else
      let di ← int16 (v.di + (dyX2 - dxX2))
      pure (.inl ⟨v.x0 + UInt8.ofInt dxSym, v.y0 + UInt8.ofInt dySym, di⟩)
  else pure (.inr v)

def yLineRoundInt16 (y1 : UInt8) (dxX2 dyX2 dxSym dySym : ℤ) (v : LineVars) : OledM (LineVars ⊕ LineVars) := do
  if v.y0 ≠ y1 then
    glcdPutPixel v.x0 v.y0 color
    if v.di < 0 then
      let di ← int16 (v.di + dxX2)
      pure (.inl ⟨v.x0, v.y0 + UInt8.ofInt dySym, di⟩)
    else
      let di ← int16 (v.di + (dxX2 - dyX2))
      pure (.inl ⟨v.x0 + UInt8.ofInt dxSym, v.y0 + UInt8.ofInt dySym, di⟩)
  else pure (.inr v)

/-- `GLCD_Line` with its assignments to 16-bit variables checked. -/
def glcdLineInt16 (x0 y0 x1 y1 : UInt8) : OledM Unit := do
  let dx ← int16 ((x1.toNat : ℤ) - x0.toNat)
  let dy ← int16 ((y1.toNat : ℤ) - y0.toNat)
  if dx = 0 then glcdVLine color x0 y0 y1
  else if dy = 0 then glcdHLine color x0 y0 x1
  else
    let sx := dxSym dx
    let sy := dxSym dy
    let dx ← int16 (sx * dx)
    let dy ← int16 (sy * dy)
    let dxX2 ← int16 (dx * 2)
    let dyX2 ← int16 (dy * 2)
    if dx ≥ dy then
      let di ← int16 (dyX2 - dx)
      let v ← Prog.loop (xLineRoundInt16 color x1 dxX2 dyX2 sx sy) ⟨x0, y0, di⟩
      glcdPutPixel v.x0 v.y0 color
    else
      let di ← int16 (dxX2 - dy)
      let v ← Prog.loop (yLineRoundInt16 color y1 dxX2 dyX2 sx sy) ⟨x0, y0, di⟩
      glcdPutPixel v.x0 v.y0 color

end model

section checked

variable {β : Type} {f : ℤ → OledM β} {z : ℤ}

theorem int16_bind (h : -32768 ≤ z ∧ z ≤ 32767) : (int16 z >>= f) = f z := by
  have hcheck : (Prog.check (-32768 ≤ z ∧ z ≤ 32767) : OledM Unit) = pure () := by
    apply Prog.ext
    intro n s
    change (if _ then _ else _) = _
    rw [if_pos h]
    rfl
  rw [int16, hcheck, pure_bind, pure_bind]

theorem decision_bounds (ha : 0 < a) (hb : 0 ≤ b) (hab : b ≤ a) (i : ℕ) :
    2 * b - 2 * a ≤ decision a b i ∧ decision a b i < 2 * b := by
  have hnear := aside_near ha hb hab i
  have hdecision : decision a b i = 2 * (b * i - a * aside a b i) + 2 * b - a := by
    unfold decision
    ring
  constructor <;> linarith [hnear.1, hnear.2]

theorem xLineRoundInt16_vars {sx sy : ℤ} (ha : 0 < a) (ha' : a < 128) (hb : 0 ≤ b) (hab : b ≤ a) (i : ℕ) :
    xLineRoundInt16 color x1 (a * 2) (b * 2) sx sy (xSlopeVars x0 y0 a b sx sy i) =
      xLineRound color x1 a b sx sy (xSlopeVars x0 y0 a b sx sy i) := by
  have hbounds := decision_bounds ha hb hab i
  have hdi : (xSlopeVars x0 y0 a b sx sy i).di = decision a b i := rfl
  rw [xLineRoundInt16, xLineRound, hdi, int16_bind (by omega), int16_bind (by omega)]

theorem yLineRoundInt16_vars {sx sy : ℤ} (ha : 0 < a) (ha' : a < 128) (hb : 0 ≤ b) (hab : b ≤ a) (i : ℕ) :
    yLineRoundInt16 color y1 (b * 2) (a * 2) sx sy (ySlopeVars x0 y0 a b sx sy i) =
      yLineRound color y1 b a sx sy (ySlopeVars x0 y0 a b sx sy i) := by
  have hbounds := decision_bounds ha hb hab i
  have hdi : (ySlopeVars x0 y0 a b sx sy i).di = decision a b i := rfl
  rw [yLineRoundInt16, yLineRound, hdi, int16_bind (by omega), int16_bind (by omega)]

end checked

section chain

variable {sx sy : ℤ}

theorem aside_step (i : ℕ) : aside a b (i + 1) = aside a b i ∨ aside a b (i + 1) = aside a b i + 1 := by
  rw [aside_succ]
  split_ifs
  · exact Or.inl rfl
  · exact Or.inr rfl

theorem aside_last (ha : 0 < a) (hb : 0 ≤ b) (hab : b ≤ a) : aside a b a.toNat = b := by
  have hna : ((a.toNat : ℕ) : ℤ) = a := Int.toNat_of_nonneg ha.le
  have hlast : NearLine a b a (aside a b a.toNat) := (nearLine_iff ha hb hab).mpr ⟨a.toNat, hna.le, hna.symm, rfl⟩
  apply near_unique hlast
  refine ⟨ha.le, le_rfl, ?_⟩
  rw [mul_comm b a, sub_self, mul_zero]
  omega

theorem xSlope_joins (ha : 0 < a) (hb : 0 ≤ b) (hab : b ≤ a) (hsx : sx = 1 ∨ sx = -1) (hsy : sy = 1 ∨ sy = -1)
    (hx : (x1.toNat : ℤ) = x0.toNat + sx * a) (hy : (y1.toNat : ℤ) = y0.toNat + sy * b) :
    Joins (↑x0.toNat, ↑y0.toNat) (↑x1.toNat, ↑y1.toNat) ((List.range (a.toNat + 1)).map (xSlopePoint x0 y0 a b sx sy)) := by
  have hna : ((a.toNat : ℕ) : ℤ) = a := Int.toNat_of_nonneg ha.le
  have hjoins := @joins_of_places sx sy (xSlopePoint x0 y0 a b sx sy) a.toNat hsx hsy fun i _ => by
    unfold Stair xSlopePoint
    dsimp only
    constructor
    · push_cast
      ring
    · rcases aside_step (a := a) (b := b) i with h | h
      · exact Or.inl (by rw [h])
      · right
        rw [h]
        ring
  have hfirst : xSlopePoint x0 y0 a b sx sy 0 = (↑x0.toNat, ↑y0.toNat) := by
    simp only [xSlopePoint, aside, Nat.cast_zero, mul_zero, add_zero]
  have hlast : xSlopePoint x0 y0 a b sx sy a.toNat = (↑x1.toNat, ↑y1.toNat) := by
    rw [xSlopePoint, hna, aside_last ha hb hab, hx, hy]
  rwa [hfirst, hlast] at hjoins

theorem ySlope_joins (ha : 0 < a) (hb : 0 ≤ b) (hab : b ≤ a) (hsx : sx = 1 ∨ sx = -1) (hsy : sy = 1 ∨ sy = -1)
    (hx : (x1.toNat : ℤ) = x0.toNat + sx * b) (hy : (y1.toNat : ℤ) = y0.toNat + sy * a) :
    Joins (↑x0.toNat, ↑y0.toNat) (↑x1.toNat, ↑y1.toNat) ((List.range (a.toNat + 1)).map (ySlopePoint x0 y0 a b sx sy)) := by
  have hna : ((a.toNat : ℕ) : ℤ) = a := Int.toNat_of_nonneg ha.le
  have hjoins := @joins_of_places_snd sy sx (ySlopePoint x0 y0 a b sx sy) a.toNat hsy hsx fun i _ => by
    unfold Stair ySlopePoint
    dsimp only
    constructor
    · push_cast
      ring
    · rcases aside_step (a := a) (b := b) i with h | h
      · exact Or.inl (by rw [h])
      · right
        rw [h]
        ring
  have hfirst : ySlopePoint x0 y0 a b sx sy 0 = (↑x0.toNat, ↑y0.toNat) := by
    simp only [ySlopePoint, aside, Nat.cast_zero, mul_zero, add_zero]
  have hlast : ySlopePoint x0 y0 a b sx sy a.toNat = (↑x1.toNat, ↑y1.toNat) := by
    rw [ySlopePoint, hna, aside_last ha hb hab, hx, hy]
  rwa [hfirst, hlast] at hjoins

end chain

section nearness

/-- At most half a pixel away from the ideal line, along its minor axis. -/
def HalfPixel (p q r : ℤ × ℤ) : Prop :=
  2 * |(q.2 - p.2) * (r.1 - p.1) - (q.1 - p.1) * (r.2 - p.2)| ≤ max |q.1 - p.1| |q.2 - p.2|

theorem half_of_near {sx sy dx dy i j : ℤ} (hsx : sx = 1 ∨ sx = -1) (hsy : sy = 1 ∨ sy = -1)
    (h : NearLine (sx * dx) (sy * dy) (sx * i) (sy * j)) : 2 * |dy * i - dx * j| ≤ sx * dx := by
  obtain ⟨-, -, hlow, hhigh⟩ := h
  have habs : |dy * i - dx * j| = |sy * dy * (sx * i) - sx * dx * (sy * j)| := by
    have hfactor : sy * dy * (sx * i) - sx * dx * (sy * j) = sx * sy * (dy * i - dx * j) := by ring
    rw [hfactor, abs_mul]
    rcases hsx with rfl | rfl <;> rcases hsy with rfl | rfl <;> simp
  rw [habs]
  rcases abs_cases (sy * dy * (sx * i) - sx * dx * (sy * j)) with ⟨heq, _⟩ | ⟨heq, _⟩
  · omega
  · omega

theorem near_half {p q r : ℤ × ℤ} {sx sy : ℤ} (hsx : sx = 1 ∨ sx = -1) (hsy : sy = 1 ∨ sy = -1)
    (hx : sx * (q.1 - p.1) = |q.1 - p.1|) (hy : sy * (q.2 - p.2) = |q.2 - p.2|)
    (h : NearLine |q.1 - p.1| |q.2 - p.2| (sx * (r.1 - p.1)) (sy * (r.2 - p.2))) : HalfPixel p q r := by
  rw [← hx, ← hy] at h
  exact (half_of_near hsx hsy h).trans (hx.le.trans (le_max_left _ _))

theorem near_half_snd {p q r : ℤ × ℤ} {sx sy : ℤ} (hsx : sx = 1 ∨ sx = -1) (hsy : sy = 1 ∨ sy = -1)
    (hx : sx * (q.1 - p.1) = |q.1 - p.1|) (hy : sy * (q.2 - p.2) = |q.2 - p.2|)
    (h : NearLine |q.2 - p.2| |q.1 - p.1| (sy * (r.2 - p.2)) (sx * (r.1 - p.1))) : HalfPixel p q r := by
  rw [← hx, ← hy] at h
  have hhalf := (half_of_near hsy hsx h).trans (hy.le.trans (le_max_right |q.1 - p.1| |q.2 - p.2|))
  rwa [HalfPixel, abs_sub_comm]

end nearness

section line

theorem hPoints_eq {m n y : ℕ} (h : m ≤ n) :
    hPoints m n y = (List.range (n - m + 1)).map fun i => (((m + i : ℕ) : ℤ), (y : ℤ)) := by
  rw [hPoints, List.map_eq_flatMap, Nat.sub_add_comm h]

theorem vPoints_eq {x m n : ℕ} (h : m ≤ n) :
    vPoints x m n = (List.range (n - m + 1)).map fun i => ((x : ℤ), ((m + i : ℕ) : ℤ)) := by
  rw [vPoints, List.map_eq_flatMap, Nat.sub_add_comm h]

theorem hPoints_joins {m n y : ℕ} (h : m ≤ n) : Joins ((m : ℤ), (y : ℤ)) ((n : ℤ), (y : ℤ)) (hPoints m n y) := by
  have hjoins := @joins_of_places 1 1 (fun i => (((m + i : ℕ) : ℤ), (y : ℤ))) (n - m) (Or.inl rfl) (Or.inl rfl)
    fun i _ => by
      unfold Stair
      dsimp only
      omega
  rwa [← hPoints_eq h, Nat.add_zero, Nat.add_sub_cancel' h] at hjoins

theorem vPoints_joins {x m n : ℕ} (h : m ≤ n) : Joins ((x : ℤ), (m : ℤ)) ((x : ℤ), (n : ℤ)) (vPoints x m n) := by
  have hjoins := @joins_of_places_snd 1 1 (fun i => ((x : ℤ), ((m + i : ℕ) : ℤ))) (n - m) (Or.inl rfl) (Or.inl rfl)
    fun i _ => by
      unfold Stair
      dsimp only
      omega
  rwa [← vPoints_eq h, Nat.add_zero, Nat.add_sub_cancel' h] at hjoins

theorem lineInt16_eq (hx0 : x0.toNat < 128) (hx1 : x1.toNat < 128) (hy0 : y0.toNat < 64) (hy1 : y1.toNat < 64) :
    glcdLineInt16 color x0 y0 x1 y1 =
      if (x1.toNat : ℤ) - x0.toNat = 0 then glcdVLine color x0 y0 y1
      else if (y1.toNat : ℤ) - y0.toNat = 0 then glcdHLine color x0 y0 x1
      else
        let sx := dxSym (x1.toNat - x0.toNat)
        let sy := dxSym (y1.toNat - y0.toNat)
        let a := |(x1.toNat : ℤ) - x0.toNat|
        let b := |(y1.toNat : ℤ) - y0.toNat|
        if a ≥ b then do
          let v ← Prog.loop (xLineRoundInt16 color x1 (a * 2) (b * 2) sx sy) ⟨x0, y0, b * 2 - a⟩
          glcdPutPixel v.x0 v.y0 color
        else (do
          let v ← Prog.loop (yLineRoundInt16 color y1 (a * 2) (b * 2) sx sy) ⟨x0, y0, a * 2 - b⟩
          glcdPutPixel v.x0 v.y0 color) := by
  have hdx := abs_cases ((x1.toNat : ℤ) - x0.toNat)
  have hdy := abs_cases ((y1.toNat : ℤ) - y0.toNat)
  rw [glcdLineInt16, int16_bind (by omega), int16_bind (by omega)]
  simp only [dxSym_mul]
  rw [int16_bind (by omega), int16_bind (by omega), int16_bind (by omega), int16_bind (by omega), int16_bind (by omega),
    int16_bind (by omega)]

theorem line_eq : glcdLine color x0 y0 x1 y1 =
    if (x1.toNat : ℤ) - x0.toNat = 0 then glcdVLine color x0 y0 y1
    else if (y1.toNat : ℤ) - y0.toNat = 0 then glcdHLine color x0 y0 x1
    else
      let sx := dxSym (x1.toNat - x0.toNat)
      let sy := dxSym (y1.toNat - y0.toNat)
      let a := |(x1.toNat : ℤ) - x0.toNat|
      let b := |(y1.toNat : ℤ) - y0.toNat|
      if a ≥ b then do
        let v ← Prog.loop (xLineRound color x1 a b sx sy) ⟨x0, y0, b * 2 - a⟩
        glcdPutPixel v.x0 v.y0 color
      else (do
        let v ← Prog.loop (yLineRound color y1 a b sx sy) ⟨x0, y0, a * 2 - b⟩
        glcdPutPixel v.x0 v.y0 color) := by
  simp only [glcdLine, dxSym_mul]

theorem vertical_draws (hx : x0 = x1) (hy0 : y0.toNat < 64) (hy1 : y1.toNat < 64) : ∃ l : List (ℤ × ℤ),
    Joins (↑x0.toNat, ↑y0.toNat) (↑x1.toNat, ↑y1.toNat) l ∧
      (∀ r ∈ l, HalfPixel (↑x0.toNat, ↑y0.toNat) (↑x1.toNat, ↑y1.toNat) r) ∧
      ∀ color, Draws color (glcdVLine color x0 y0 y1) l := by
  refine ⟨vPoints x0.toNat (min y0.toNat y1.toNat) (max y0.toNat y1.toNat), ?_, fun r hr => ?_, fun color =>
    vLine_draws (by omega)⟩
  · rw [← hx]
    rcases le_total y0.toNat y1.toNat with h | h
    · rw [min_eq_left h, max_eq_right h]
      exact vPoints_joins h
    · rw [min_eq_right h, max_eq_left h]
      exact (vPoints_joins h).symm
  · have hcolumn := (mem_vPoints.mp hr).1
    unfold HalfPixel
    rw [← hx]
    dsimp only
    rw [hcolumn, sub_self, mul_zero, zero_mul, sub_self, abs_zero, mul_zero]
    exact le_max_of_le_right (abs_nonneg _)

theorem horizontal_draws (hy : y0 = y1) (hx0 : x0.toNat < 128) (hx1 : x1.toNat < 128) : ∃ l : List (ℤ × ℤ),
    Joins (↑x0.toNat, ↑y0.toNat) (↑x1.toNat, ↑y1.toNat) l ∧
      (∀ r ∈ l, HalfPixel (↑x0.toNat, ↑y0.toNat) (↑x1.toNat, ↑y1.toNat) r) ∧
      ∀ color, Draws color (glcdHLine color x0 y0 x1) l := by
  refine ⟨hPoints (min x0.toNat x1.toNat) (max x0.toNat x1.toNat) y0.toNat, ?_, fun r hr => ?_, fun color =>
    hLine_draws (by omega)⟩
  · rw [← hy]
    rcases le_total x0.toNat x1.toNat with h | h
    · rw [min_eq_left h, max_eq_right h]
      exact hPoints_joins h
    · rw [min_eq_right h, max_eq_left h]
      exact (hPoints_joins h).symm
  · have hrow := (mem_hPoints.mp hr).2.2
    unfold HalfPixel
    rw [← hy]
    dsimp only
    rw [hrow, sub_self, mul_zero, zero_mul, sub_self, abs_zero, mul_zero]
    exact le_max_of_le_left (abs_nonneg _)

theorem lineInt16_draws (hx0 : x0.toNat < 128) (hy0 : y0.toNat < 64) (hx1 : x1.toNat < 128) (hy1 : y1.toNat < 64) :
    ∃ l : List (ℤ × ℤ), Joins (↑x0.toNat, ↑y0.toNat) (↑x1.toNat, ↑y1.toNat) l ∧
      (∀ r ∈ l, HalfPixel (↑x0.toNat, ↑y0.toNat) (↑x1.toNat, ↑y1.toNat) r) ∧
      ∀ color, Draws color (glcdLineInt16 color x0 y0 x1 y1) l ∧ Draws color (glcdLine color x0 y0 x1 y1) l := by
  simp only [lineInt16_eq hx0 hx1 hy0 hy1, line_eq]
  by_cases hx : (x1.toNat : ℤ) - x0.toNat = 0
  · simp only [if_pos hx, and_self]
    exact vertical_draws (UInt8.toNat_inj.mp (by omega)) hy0 hy1
  simp only [if_neg hx]
  by_cases hy : (y1.toNat : ℤ) - y0.toNat = 0
  · simp only [if_pos hy, and_self]
    exact horizontal_draws (UInt8.toNat_inj.mp (by omega)) hx0 hx1
  simp only [if_neg hy]
  have hdx := abs_pos.mpr hx
  have hdy := abs_pos.mpr hy
  have hdx' := abs_cases ((x1.toNat : ℤ) - x0.toNat)
  have hdy' := abs_cases ((y1.toNat : ℤ) - y0.toNat)
  have hendx : (x1.toNat : ℤ) = x0.toNat + dxSym (x1.toNat - x0.toNat) * |(x1.toNat : ℤ) - x0.toNat| := by
    rw [dxSym_abs]
    omega
  have hendy : (y1.toNat : ℤ) = y0.toNat + dxSym (y1.toNat - y0.toNat) * |(y1.toNat : ℤ) - y0.toNat| := by
    rw [dxSym_abs]
    omega
  by_cases hslope : |(x1.toNat : ℤ) - x0.toNat| ≥ |(y1.toNat : ℤ) - y0.toNat|
  · simp only [if_pos hslope]
    refine ⟨_, xSlope_joins hdx hdy.le hslope (dxSym_cases _) (dxSym_cases _) hendx hendy, fun r hr => ?_, fun color =>
      ⟨xSlope_draws hdx (dxSym_cases _) hendx fun i _ => xLineRoundInt16_vars hdx (by omega) hdy.le hslope i,
        xSlope_draws hdx (dxSym_cases _) hendx fun _ _ => rfl⟩⟩
    apply near_half (dxSym_cases _) (dxSym_cases _) (dxSym_mul _) (dxSym_mul _)
    exact (mem_xSlope hdx hdy.le hslope (dxSym_cases _) (dxSym_cases _) r).mp hr
  · have hslope' := (not_le.mp hslope).le
    simp only [if_neg hslope]
    refine ⟨_, ySlope_joins hdy hdx.le hslope' (dxSym_cases _) (dxSym_cases _) hendx hendy, fun r hr => ?_, fun color =>
      ⟨ySlope_draws hdy (dxSym_cases _) hendy fun i _ => yLineRoundInt16_vars hdy (by omega) hdx.le hslope' i,
        ySlope_draws hdy (dxSym_cases _) hendy fun _ _ => rfl⟩⟩
    apply near_half_snd (dxSym_cases _) (dxSym_cases _) (dxSym_mul _) (dxSym_mul _)
    exact (mem_ySlope hdy hdx.le hslope' (dxSym_cases _) (dxSym_cases _) r).mp hr

theorem lineInt16_returns {s t : State} {r : Unit} (hx0 : x0.toNat < 128) (hy0 : y0.toNat < 64) (hx1 : x1.toNat < 128)
    (hy1 : y1.toNat < 64) :
    (glcdLineInt16 color x0 y0 x1 y1).Returns s r t ↔ (glcdLine color x0 y0 x1 y1).Returns s r t := by
  obtain ⟨l, -, -, hdraws⟩ := @lineInt16_draws x0 y0 x1 y1 hx0 hy0 hx1 hy1
  exact ((hdraws color).1 s r t).trans ((hdraws color).2 s r t).symm

theorem joins_onScreen {l : List (ℤ × ℤ)} (hx0 : x0.toNat < 128) (hy0 : y0.toNat < 64) (hx1 : x1.toNat < 128)
    (hy1 : y1.toNat < 64) (h : Joins (↑x0.toNat, ↑y0.toNat) (↑x1.toNat, ↑y1.toNat) l) :
    ∀ a ∈ l, 0 ≤ a.1 ∧ a.1 < 128 ∧ 0 ≤ a.2 ∧ a.2 < 64 := by
  intro a ha
  have hx := h.between_fst a ha
  have hy := h.between_snd a ha
  unfold Between at hx hy
  dsimp only at hx hy
  omega

/-- The points do not depend on the color or on what the screen shows. The length of the list counts its
points, since there are no two equal ones. -/
theorem glcdLine_chain (hx0 : x0.toNat < oledDisplayWidth) (hy0 : y0.toNat < oledDisplayHeight)
    (hx1 : x1.toNat < oledDisplayWidth) (hy1 : y1.toNat < oledDisplayHeight) :
    ∃ l : List (ℤ × ℤ), Joins (↑x0.toNat, ↑y0.toNat) (↑x1.toNat, ↑y1.toNat) l ∧
      (∀ r ∈ l, (0 ≤ r.1 ∧ r.1 < oledDisplayWidth ∧ 0 ≤ r.2 ∧ r.2 < oledDisplayHeight) ∧
        HalfPixel (↑x0.toNat, ↑y0.toNat) (↑x1.toNat, ↑y1.toNat) r) ∧
      ∀ color, Paints color (fun X Y => (X, Y) ∈ l) (glcdLineInt16 color x0 y0 x1 y1) := by
  obtain ⟨l, hjoins, hhalf, hdraws⟩ := lineInt16_draws hx0 hy0 hx1 hy1
  have hscreen := joins_onScreen hx0 hy0 hx1 hy1 hjoins
  exact ⟨l, hjoins, fun r hr => ⟨hscreen r hr, hhalf r hr⟩, fun color => (hdraws color).1.paints hscreen⟩

theorem glcdLine_chain_corners : ∃ l : List (ℤ × ℤ), Joins (↑(0 : UInt8).toNat, ↑(63 : UInt8).toNat)
    (↑(127 : UInt8).toNat, ↑(0 : UInt8).toNat) l ∧
      (∀ r ∈ l, (0 ≤ r.1 ∧ r.1 < oledDisplayWidth ∧ 0 ≤ r.2 ∧ r.2 < oledDisplayHeight) ∧
        HalfPixel (↑(0 : UInt8).toNat, ↑(63 : UInt8).toNat) (↑(127 : UInt8).toNat, ↑(0 : UInt8).toNat) r) ∧
      ∀ color, Paints color (fun X Y => (X, Y) ∈ l) (glcdLineInt16 color 0 63 127 0) :=
  glcdLine_chain (by decide) (by decide) (by decide) (by decide)

end line

end Lpc1788Libraries.Oled

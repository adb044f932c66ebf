import Lpc1788Libraries.Oled.Circle

namespace Lpc1788Libraries.Oled

open Lpc1788Libraries.Support BoundedProgram

variable {color : OledColor} {x0 y0 x1 y1 : UInt8}

section fillRect

theorem exchange_toNat (x0 x1 : UInt8) : (if x0 > x1 then x1 else x0).toNat = min x0.toNat x1.toNat ∧
    (if x0 > x1 then x0 else x1).toNat = max x0.toNat x1.toNat := by
  by_cases h : x0 > x1
  · have hlt := UInt8.lt_iff_toNat_lt.mp h
    rw [if_pos h, if_pos h]
    omega
  · have hle : x0.toNat ≤ x1.toNat := Nat.le_of_not_lt fun hlt => h (UInt8.lt_iff_toNat_lt.mpr hlt)
    rw [if_neg h, if_neg h]
    omega

/-- No loop of `GLCD_fillRect` has the inclusive end `255`. -/
def FillRectEnds (x0 y0 x1 y1 : UInt8) : Prop :=
  (y0 = y1 ∨ x0 ≠ x1 → max x0.toNat x1.toNat < 255) ∧ (y0 ≠ y1 → max y0.toNat y1.toNat < 255)

theorem fillRect_draws (h : FillRectEnds x0 y0 x1 y1) :
    ∃ l, Draws color (glcdFillRect color x0 y0 x1 y1) l ∧ ∀ a, a ∈ l ↔ fillRectShape x0 y0 x1 y1 a.1 a.2 := by
  obtain ⟨hx0, hx1⟩ := exchange_toNat x0 x1
  obtain ⟨hy0, hy1⟩ := exchange_toNat y0 y1
  obtain ⟨hx, hy⟩ := h
  rw [glcdFillRect]
  obtain ⟨l, hl, hmem⟩ := @fillRectSorted_draws color (if x0 > x1 then x1 else x0) (if y0 > y1 then y1 else y0)
    (if x0 > x1 then x0 else x1) (if y0 > y1 then y0 else y1) (by omega) (by omega)
    (fun h => by
      simp only [← UInt8.toNat_inj, Ne, hx0, hx1, hy0, hy1] at h hx ⊢
      omega)
    (fun h => by
      simp only [← UInt8.toNat_inj, Ne, hy0, hy1] at h hy ⊢
      omega)
  refine ⟨l, hl, fun a => ?_⟩
  rw [hmem, fillRectShape, fillRectShape, hx0, hx1, hy0, hy1]
  omega

theorem fillRect_diverges (h : ¬FillRectEnds x0 y0 x1 y1) : Diverges (glcdFillRect color x0 y0 x1 y1) := by
  obtain ⟨hx0, hx1⟩ := exchange_toNat x0 x1
  obtain ⟨hy0, hy1⟩ := exchange_toNat y0 y1
  rw [glcdFillRect]
  apply fillRectSorted_diverges
  · omega
  · omega
  · intro h'
    apply h
    simp only [FillRectEnds, ← UInt8.toNat_inj, Ne, hx0, hx1, hy0, hy1] at h' ⊢
    omega

end fillRect

section landing

variable {shape : ℤ → ℤ → Prop} {a : ℤ × ℤ}

theorem ofInt_mod (X : ℤ) : ((UInt8.ofInt X).toNat : ℤ) = X % 256 := by
  rw [UInt8.ofInt, UInt8.toNat_ofNat']
  omega

/-- Behind the guard with `>`, the narrowed point `(X, Y)` is drawn on a pixel of the shape: row `64` is
drawn as row `56`, and column `128` as column `0` eight rows further down. -/
def Stays (shape : ℤ → ℤ → Prop) (X Y : ℤ) : Prop :=
  X % 256 ≤ 128 → Y % 256 ≤ 64 → X % 256 < 128 ∧ shape (X % 256) (if Y % 256 = 64 then 56 else Y % 256) ∨
    X % 256 = 128 ∧ Y % 256 < 56 ∧ shape 0 (Y % 256 + 8)

theorem harmless_iff : Harmless shape a ↔ Stays shape a.1 a.2 := by
  have hx := ofInt_mod a.1
  have hy := ofInt_mod a.2
  have hpasses : Passes a ↔ a.1 % 256 ≤ 128 ∧ a.2 % 256 ≤ 64 := by
    rw [Passes]
    omega
  rw [Harmless, Stays, hpasses, ← and_imp]
  apply imp_congr_right
  rintro ⟨hx', hy'⟩
  have hland : landing a = min ((UInt8.ofInt a.2).toNat / 8) 7 * 128 + (UInt8.ofInt a.1).toNat := pixelPos_eq (by omega)
  have hall : (∀ X Y : ℕ, Lands a X Y → shape X Y) ↔
      shape ((landing a % 128 : ℕ) : ℤ) ((landing a / 128 * 8 + (UInt8.ofInt a.2).toNat % 8 : ℕ) : ℤ) :=
    ⟨fun h => h _ _ ⟨rfl, rfl⟩, fun h X Y hl => by rw [hl.1, hl.2]; exact h⟩
  rw [hall, hland, shadowFbSize]
  by_cases hcol : a.1 % 256 = 128
  · have hX : (((min ((UInt8.ofInt a.2).toNat / 8) 7 * 128 + (UInt8.ofInt a.1).toNat) % 128 : ℕ) : ℤ) = 0 := by omega
    rw [hX, hcol, or_iff_right fun h => absurd h.1 (lt_irrefl _), and_iff_right rfl]
    by_cases hlow : a.2 % 256 < 56
    · have hY : (((min ((UInt8.ofInt a.2).toNat / 8) 7 * 128 + (UInt8.ofInt a.1).toNat) / 128 * 8 +
          (UInt8.ofInt a.2).toNat % 8 : ℕ) : ℤ) = a.2 % 256 + 8 := by omega
      rw [hY]
      exact and_congr_left' ⟨fun _ => hlow, fun _ => by omega⟩
    · exact iff_of_false (fun h => by omega) fun h => hlow h.1
  · have hX : (((min ((UInt8.ofInt a.2).toNat / 8) 7 * 128 + (UInt8.ofInt a.1).toNat) % 128 : ℕ) : ℤ) = a.1 % 256 := by omega
    have hY : (((min ((UInt8.ofInt a.2).toNat / 8) 7 * 128 + (UInt8.ofInt a.1).toNat) / 128 * 8 +
        (UInt8.ofInt a.2).toNat % 8 : ℕ) : ℤ) = if a.2 % 256 = 64 then 56 else a.2 % 256 := by
      split_ifs
      · omega
      · omega
    rw [hX, hY, or_iff_left fun h => hcol h.1]
    exact and_congr_left' ⟨fun _ => by omega, fun _ => by omega⟩

end landing

section calls

/-- The calls that draw a shape. -/
inductive Call
  | putPixel (x y : UInt8)
  | line (x0 y0 x1 y1 : UInt8)
  | rect (x0 y0 x1 y1 : UInt8)
  | fillRect (x0 y0 x1 y1 : UInt8)
  | circle (x0 y0 r : UInt8)

namespace Call

def run (color : OledColor) : Call → OledM Unit
  | putPixel x y => glcdPutPixel x y color
  | line x0 y0 x1 y1 => glcdLine color x0 y0 x1 y1
  | rect x0 y0 x1 y1 => glcdRect color x0 y0 x1 y1
  | fillRect x0 y0 x1 y1 => glcdFillRect color x0 y0 x1 y1
  | circle x0 y0 r => glcdCircle color x0 y0 r

/-- The pixels that are asked for, on the screen or not. -/
def shape : Call → ℤ → ℤ → Prop
  | putPixel x y => fun X Y => X = x.toNat ∧ Y = y.toNat
  | line x0 y0 x1 y1 => lineShape x0 y0 x1 y1
  | rect x0 y0 x1 y1 => rectShape x0 y0 x1 y1
  | fillRect x0 y0 x1 y1 => fillRectShape x0 y0 x1 y1
  | circle x0 y0 r => circleShape x0 y0 r

/-- The tests in front of `GLCD_putPixel`, which only the circle has. -/
def guard : Call → ℤ → ℤ → Prop
  | circle x0 y0 _ => circleGuard x0.toNat y0.toNat
  | _ => fun _ _ => True

/-- No loop has the inclusive end `255`. -/
def LoopsEnd : Call → Prop
  | line x0 y0 x1 y1 => (x0 = x1 → max y0.toNat y1.toNat < 255) ∧ (x0 ≠ x1 → y0 = y1 → max x0.toNat x1.toNat < 255)
  | rect x0 y0 x1 y1 => max x0.toNat x1.toNat < 255 ∧ max y0.toNat y1.toNat < 255
  | fillRect x0 y0 x1 y1 => FillRectEnds x0 y0 x1 y1
  | _ => True

theorem draws {c : Call} (h : c.LoopsEnd) :
    ∃ l, Draws color (c.run color) l ∧ ∀ a, a ∈ l ↔ c.shape a.1 a.2 ∧ c.guard a.1 a.2 := by
  cases c with
  | putPixel x y =>
    refine ⟨_, draws_putPixel, fun a => ?_⟩
    rw [List.mem_singleton, Prod.ext_iff]
    exact (and_iff_left trivial).symm
  | line x0 y0 x1 y1 =>
    obtain ⟨l, hl, hmem⟩ := line_draws h.1 h.2
    exact ⟨l, hl, fun a => (hmem a).trans (and_iff_left trivial).symm⟩
  | rect x0 y0 x1 y1 =>
    obtain ⟨l, hl, hmem⟩ := rect_draws h.1 h.2
    exact ⟨l, hl, fun a => (hmem a).trans (and_iff_left trivial).symm⟩
  | fillRect x0 y0 x1 y1 =>
    obtain ⟨l, hl, hmem⟩ := fillRect_draws h
    exact ⟨l, hl, fun a => (hmem a).trans (and_iff_left trivial).symm⟩
  | circle x0 y0 r => exact circle_draws

theorem diverges {c : Call} (h : ¬c.LoopsEnd) : Diverges (c.run color) := by
  cases c with
  | putPixel x y => exact absurd trivial h
  | line x0 y0 x1 y1 => exact line_diverges h
  | rect x0 y0 x1 y1 =>
    apply rect_diverges
    by_contra hlt
    exact h ⟨by omega, by omega⟩
  | fillRect x0 y0 x1 y1 => exact fillRect_diverges h
  | circle x0 y0 r => exact absurd trivial h

/-- A call ends and changes nothing but its shape exactly when no loop has the end `255` and all points
that the tests let through stay on the shape. -/
theorem clipped_iff_stays (c : Call) (color : OledColor) : Clipped c.shape (c.run color) ↔
    c.LoopsEnd ∧ ∀ X Y : ℤ, c.shape X Y → c.guard X Y → Stays c.shape X Y := by
  by_cases h : c.LoopsEnd
  · obtain ⟨l, hl, hmem⟩ := c.draws h
    rw [hl.clipped_iff, and_iff_right h]
    constructor
    · intro hall X Y hshape hguard
      exact harmless_iff.mp (hall (X, Y) ((hmem _).mpr ⟨hshape, hguard⟩))
    · intro hall a ha
      obtain ⟨hshape, hguard⟩ := (hmem a).mp ha
      exact harmless_iff.mpr (hall _ _ hshape hguard)
  · exact iff_of_false (diverges h).not_clipped fun h' => h h'.1

/-- The point below the last row is drawn in row `56`. -/
theorem putPixel_below_not_clipped : ¬Clipped (putPixel 0 64).shape ((putPixel 0 64).run .white) := by
  have hdraws : Draws .white ((putPixel 0 64).run .white) [(0, 64)] := draws_putPixel
  rw [hdraws.clipped_iff, List.forall_mem_singleton, harmless_iff]
  intro h
  rcases h (by decide) (by decide) with ⟨-, -, hrow⟩ | ⟨hcol, -⟩
  · exact absurd hrow (by decide)
  · exact absurd hcol (by decide)

end Call

end calls

end Lpc1788Libraries.Oled

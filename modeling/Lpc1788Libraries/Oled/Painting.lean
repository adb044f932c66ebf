import Lpc1788Libraries.Oled.Clipping

namespace Lpc1788Libraries.Oled

open Lpc1788Libraries.Support BoundedProgram

variable {s t : State} {color : OledColor} {shape : ℤ → ℤ → Prop} {p : OledM Unit} {l : List (ℤ × ℤ)} {X Y : ℕ}

/-- The program ends, gives the pixels of the shape the color and leaves all others as they are. -/
def Paints (color : OledColor) (shape : ℤ → ℤ → Prop) (p : OledM Unit) : Prop := ∀ s, p.Achieves s fun _ t =>
  ∀ X Y : ℕ, X < oledDisplayWidth → Y < oledDisplayHeight →
    (shape X Y → t.pixel X Y = decide (color = .white)) ∧ (¬shape X Y → t.pixel X Y = s.pixel X Y)

/-- The frame buffer that is nowhere of the color. -/
def inverse (color : OledColor) : State := ⟨fun _ => if color = .white then 0 else 0xff, ⟨0, 0, fun _ _ => 0⟩⟩

theorem inverse_pixel (X Y : ℕ) : (inverse color).pixel X Y = !decide (color = .white) := by
  cases color with
  | black =>
    change Nat.testBit 255 (Y % 8) = true
    rw [show (255 : ℕ) = 2 ^ 8 - 1 from rfl, Nat.testBit_two_pow_sub_one]
    exact decide_eq_true (Nat.mod_lt _ (by omega))
  | white => exact Nat.zero_testBit _

theorem Paints.clipped (h : Paints color shape p) : Clipped shape p := by
  intro s
  apply (h s).imp
  intro _ t ht X Y hX hY hne
  by_contra hshape
  exact hne ((ht X Y hX hY).2 hshape)

theorem Draws.paints_iff (h : Draws color p l) : Paints color shape p ↔ (∀ a ∈ l, Harmless shape a) ∧
    ∀ X Y : ℕ, X < 128 → Y < 64 → shape X Y → ∃ a ∈ l, Passes a ∧ Lands a X Y := by
  constructor
  · intro hpaints
    refine ⟨h.clipped_iff.mp hpaints.clipped, fun X Y hX hY hshape => ?_⟩
    obtain ⟨_, t, hr, ht⟩ := hpaints (inverse color)
    obtain ⟨-, rfl⟩ := plotAll_returns.mp ((h _ _ _).mp hr)
    have hpixel := (ht X Y hX hY).1 hshape
    rw [foldl_plotted_pixel hX] at hpixel
    by_contra hnone
    rw [if_neg hnone, inverse_pixel] at hpixel
    exact absurd hpixel (Bool.not_ne_self _)
  · rintro ⟨hharmless, hhit⟩ s
    refine ⟨(), _, (h _ _ _).mpr (plotAll_returns.mpr ⟨fun a ha hp => (hharmless a ha hp).1, rfl⟩), fun X Y hX hY => ?_⟩
    rw [foldl_plotted_pixel hX]
    constructor
    · intro hshape
      rw [if_pos (hhit X Y hX hY hshape)]
    · intro hshape
      rw [if_neg]
      rintro ⟨a, ha, hpasses, hlands⟩
      exact hshape ((hharmless a ha hpasses).2 X Y hlands)

theorem passes_onScreen (hX : X < 128) (hY : Y < 64) : Passes ((X : ℤ), (Y : ℤ)) := by
  have hx := ofInt_mod X
  have hy := ofInt_mod Y
  unfold Passes
  dsimp only
  omega

theorem lands_onScreen (hX : X < 128) (hY : Y < 64) : Lands ((X : ℤ), (Y : ℤ)) X Y := by
  have hx := ofInt_mod X
  have hy := ofInt_mod Y
  unfold Lands landing
  dsimp only
  rw [pixelPos_eq (by omega)]
  omega

theorem Draws.paints (h : Draws color p l) (hscreen : ∀ a ∈ l, 0 ≤ a.1 ∧ a.1 < 128 ∧ 0 ≤ a.2 ∧ a.2 < 64) :
    Paints color (fun X Y => (X, Y) ∈ l) p := by
  refine h.paints_iff.mpr ⟨fun a ha => harmless_iff.mpr fun _ _ => ?_, fun X Y hX hY hmem =>
    ⟨_, hmem, passes_onScreen hX hY, lands_onScreen hX hY⟩⟩
  have ha' := hscreen a ha
  have hx : a.1 % 256 = a.1 := by omega
  have hy : a.2 % 256 = a.2 := by omega
  rw [hx, hy, if_neg (by omega)]
  exact Or.inl ⟨ha'.2.1, ha⟩

end Lpc1788Libraries.Oled

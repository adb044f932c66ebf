import Lpc1788Libraries.Oled.Ssd1306
import Lpc1788Libraries.Support.ByteBits

namespace Lpc1788Libraries.Oled

open Lpc1788Libraries.Support BoundedProgram

variable {s t u : State} {x y : UInt8} {color : OledColor} {d : Display} {β : Type} {b : β}

section address

theorem command_page {cmd : UInt8} {k : ℕ} (hk : k < 8) (h : cmd.toNat = 0xB0 + k) :
    d.command cmd = { d with page := k } := by
  have hge : 0xB0 ≤ cmd := UInt8.le_iff_toNat_le.mpr (by change 0xB0 ≤ _; omega)
  have hlt : cmd < 0xB8 := UInt8.lt_iff_toNat_lt.mpr (by change _ < 0xB8; omega)
  rw [Display.command, if_pos ⟨hge, hlt⟩, h, Nat.add_sub_cancel_left]

theorem command_low {cmd : UInt8} (h : cmd.toNat < 0x10) :
    d.command cmd = { d with column := d.column / 16 * 16 + cmd.toNat } := by
  have hnot : ¬(0xB0 ≤ cmd ∧ cmd < 0xB8) := fun hp => absurd (UInt8.le_iff_toNat_le.mp hp.1) (by change ¬0xB0 ≤ _; omega)
  have hlt : cmd < 0x10 := UInt8.lt_iff_toNat_lt.mpr h
  rw [Display.command, if_neg hnot, if_pos hlt]

theorem command_high {cmd : UInt8} {k : ℕ} (hk : k < 0x10) (h : cmd.toNat = 0x10 + k) :
    d.command cmd = { d with column := d.column % 16 + k * 16 } := by
  have hnot : ¬(0xB0 ≤ cmd ∧ cmd < 0xB8) := fun hp => absurd (UInt8.le_iff_toNat_le.mp hp.1) (by change ¬0xB0 ≤ _; omega)
  have hnlt : ¬cmd < 0x10 := fun hlt => absurd (UInt8.lt_iff_toNat_lt.mp hlt) (by change ¬_ < 0x10; omega)
  have hlt : cmd < 0x20 := UInt8.lt_iff_toNat_lt.mpr (by change _ < 0x20; omega)
  rw [Display.command, if_neg hnot, if_neg hnlt, if_pos hlt, h, Nat.add_sub_cancel_left]

/-- The display after `mSetAddress`. -/
def Display.at (d : Display) (page column : ℕ) : Display := { d with page := page, column := column }

theorem mSetAddress_bind {p l h : UInt8} {page low high : ℕ} {f : Unit → OledM β} (hpage : page < 8)
    (hp : p.toNat = 0xB0 + page) (hlow : low < 16) (hl : l.toNat = low) (hhigh : high < 16)
    (hh : h.toNat = 0x10 + high) : (mSetAddress p l h >>= f).Returns s b u ↔
      (f ()).Returns { s with display := s.display.at page (low + high * 16) } b u := by
  have hcolumn : (s.display.column / 16 * 16 + low) % 16 = low := by omega
  simp only [mSetAddress, glcdWriteCommand, masterSend, bind_assoc, Prog.modify_bind_returns, Display.receive,
    List.foldl_cons, List.foldl_nil, show ((0x00 : UInt8) &&& 0x40) = 0 from rfl, if_true, command_page hpage hp,
    command_low (hl.trans_lt hlow), command_high hhigh hh, hl, hcolumn, Display.at]

end address

theorem pageAddress_toNat (hy : y.toNat ≤ 64) : (pageAddress y).toNat = 0xB0 + min (y.toNat / 8) 7 := by
  unfold pageAddress
  simp only [UInt8.lt_iff_toNat_lt]
  split_ifs <;> simp_all <;> omega

theorem pixelPos_eq (hy : y.toNat ≤ 64) : pixelPos x y = min (y.toNat / 8) 7 * 128 + x.toNat := by
  rw [pixelPos, pageAddress_toNat hy, Nat.add_sub_cancel_left, oledDisplayWidth]

theorem pixelMask_toNat : (pixelMask y).toNat = 2 ^ (y.toNat % 8) := by
  have hy := y.toNat_lt
  have hadd : (y - ((y >>> 3) <<< 3)).toNat = y.toNat % 8 := by
    have hdiv : (y >>> 3).toNat = y.toNat / 8 := by
      rw [UInt8.toNat_shiftRight, Nat.shiftRight_eq_div_pow]
      rfl
    have hmul : ((y >>> 3) <<< 3).toNat = y.toNat / 8 * 8 := by
      rw [UInt8.toNat_shiftLeft, hdiv, Nat.shiftLeft_eq]
      change y.toNat / 8 * 2 ^ 3 % 2 ^ 8 = _
      omega
    rw [UInt8.toNat_sub_of_le _ _ (UInt8.le_iff_toNat_le.mpr (by omega)), hmul]
    omega
  have hlt : y.toNat % 8 < 8 := Nat.mod_lt _ (by omega)
  have hpow : 2 ^ (y.toNat % 8) < 2 ^ 8 := Nat.pow_lt_pow_right (by omega) hlt
  rw [pixelMask, UInt8.toNat_shiftLeft, hadd, Nat.mod_eq_of_lt hlt, Nat.shiftLeft_eq]
  change 1 * _ % _ = _
  rw [Nat.one_mul, Nat.mod_eq_of_lt hpow]

theorem paint_testBit {old : UInt8} {k : ℕ} (hk : k < 8) : (paint (pixelMask y) color old).toNat.testBit k =
    if k = y.toNat % 8 then decide (color = .white) else old.toNat.testBit k := by
  cases color with
  | black => exact ByteBits.testBit_and_not_pow pixelMask_toNat hk
  | white => exact ByteBits.testBit_or_pow pixelMask_toNat

/-- What `GLCD_putPixel` leaves behind a pixel that gets past its guard. -/
def painted (s : State) (x y : UInt8) (color : OledColor) : State :=
  let pos := pixelPos x y
  let v := paint (pixelMask y) color (s.shadowFB pos)
  let page := min (y.toNat / 8) 7
  { shadowFB := Function.update s.shadowFB pos v
    display := (s.display.at page (x.toNat + 2)).data v }

theorem putPixel_outside (h : 128 < x.toNat ∨ 64 < y.toNat) {r : Unit} :
    (glcdPutPixel x y color).Returns s r t ↔ s = t := by
  rw [glcdPutPixel, oledDisplayWidth, oledDisplayHeight]
  split_ifs with hx hy
  · exact Prog.returns_pure.trans (and_iff_right (Subsingleton.elim _ _))
  · exact Prog.returns_pure.trans (and_iff_right (Subsingleton.elim _ _))
  · exact absurd h (not_or_intro hx hy)

theorem putPixel_returns (hx : x.toNat ≤ 128) (hy : y.toNat ≤ 64) {r : Unit} :
    (glcdPutPixel x y color).Returns s r t ↔ pixelPos x y < shadowFbSize ∧ painted s x y color = t := by
  have hlow : (UInt8.ofNat (0x0F &&& (x.toNat + xOffset))).toNat = (x.toNat + 2) % 16 := by
    have hand : 0x0F &&& (x.toNat + 2) = (x.toNat + 2) % 16 := by
      rw [Nat.and_comm]
      exact Nat.and_two_pow_sub_one_eq_mod _ 4
    rw [xOffset, hand, UInt8.toNat_ofNat']
    omega
  have hhigh : (UInt8.ofNat (0x10 ||| ((x.toNat + xOffset) >>> 4))).toNat = 0x10 + (x.toNat + 2) / 16 := by
    have hshift : (x.toNat + 2) >>> 4 = (x.toNat + 2) / 16 := Nat.shiftRight_eq_div_pow _ 4
    have hor : 0x10 ||| ((x.toNat + 2) / 16) = 0x10 + (x.toNat + 2) / 16 := by
      have h := Nat.two_pow_add_eq_or_of_lt (show (x.toNat + 2) / 16 < 2 ^ 4 by omega) 1
      exact h.symm
    rw [xOffset, hshift, hor, UInt8.toNat_ofNat']
    omega
  have hcolumn : (x.toNat + 2) % 16 + (x.toNat + 2) / 16 * 16 = x.toNat + 2 := by omega
  have hguard : ¬oledDisplayWidth < x.toNat := Nat.not_lt_of_le hx
  have hguard' : ¬oledDisplayHeight < y.toNat := Nat.not_lt_of_le hy
  rw [glcdPutPixel, if_neg hguard, if_neg hguard',
    mSetAddress_bind (by omega) (pageAddress_toNat hy) (by omega) hlow (by omega) hhigh, hcolumn]
  by_cases hpos : pixelPos x y < shadowFbSize
  · have hmodify : ∀ v : State, (modifyShadow (pixelPos x y) (paint (pixelMask y) color)).Returns v ()
        ⟨Function.update v.shadowFB (pixelPos x y) (paint (pixelMask y) color (v.shadowFB (pixelPos x y))),
          v.display⟩ := by
      intro v
      exact Prog.returns_attempt.mpr (if_pos hpos)
    have hread : ∀ v : State, (readShadow (pixelPos x y)).Returns v (v.shadowFB (pixelPos x y)) v := by
      intro v
      exact Prog.returns_attempt.mpr (if_pos hpos)
    rw [(hmodify _).bind_iff, (hread _).bind_iff, glcdWriteData, masterSend, Prog.returns_modify, and_iff_right hpos]
    simp only [Function.update_self]
    exact Iff.rfl
  · have hmodify : ∀ v w : State, ¬(modifyShadow (pixelPos x y) (paint (pixelMask y) color)).Returns v () w := by
      intro v w h
      have hnone := Prog.returns_attempt.mp h
      rw [if_neg hpos] at hnone
      exact Option.some_ne_none _ hnone.symm
    constructor
    · intro h
      obtain ⟨_, w, hw, -⟩ := Prog.returns_bind.mp h
      exact absurd hw (hmodify _ w)
    · exact fun h => absurd h.1 hpos

/-- A bit of the frame buffer. -/
def State.pixel (s : State) (x y : ℕ) : Bool := (s.shadowFB (y / 8 * 128 + x)).toNat.testBit (y % 8)

theorem painted_pixel {X Y : ℕ} (hX : X < 128) : (painted s x y color).pixel X Y =
    if X = pixelPos x y % 128 ∧ Y = pixelPos x y / 128 * 8 + y.toNat % 8 then decide (color = .white)
    else s.pixel X Y := by
  have hbit : Y % 8 < 8 := Nat.mod_lt _ (by omega)
  have hshadow : (painted s x y color).shadowFB = Function.update s.shadowFB (pixelPos x y)
      (paint (pixelMask y) color (s.shadowFB (pixelPos x y))) := rfl
  rw [State.pixel, hshadow]
  by_cases hcell : Y / 8 * 128 + X = pixelPos x y
  · rw [hcell, Function.update_self, paint_testBit hbit]
    have hplace : Y % 8 = y.toNat % 8 ↔ X = pixelPos x y % 128 ∧ Y = pixelPos x y / 128 * 8 + y.toNat % 8 := by omega
    simp only [hplace, State.pixel, hcell]
  · rw [Function.update_of_ne hcell, if_neg, State.pixel]
    omega

section plot

variable {l l' : List (ℤ × ℤ)} {p q : OledM Unit} {shape : ℤ → ℤ → Prop} {r : Unit}

/-- A pixel with coordinates that are narrowed to 8 bits. -/
def plot (color : OledColor) (a : ℤ × ℤ) : OledM Unit := glcdPutPixel (UInt8.ofInt a.1) (UInt8.ofInt a.2) color

def plotAll (color : OledColor) : List (ℤ × ℤ) → OledM Unit
  | [] => pure ()
  | a :: l => do
    plot color a
    plotAll color l

/-- The narrowed point gets past the guard of `GLCD_putPixel`. -/
def Passes (a : ℤ × ℤ) : Prop := (UInt8.ofInt a.1).toNat ≤ 128 ∧ (UInt8.ofInt a.2).toNat ≤ 64

instance (a : ℤ × ℤ) : Decidable (Passes a) := inferInstanceAs (Decidable (_ ∧ _))

def landing (a : ℤ × ℤ) : ℕ := pixelPos (UInt8.ofInt a.1) (UInt8.ofInt a.2)

/-- The pixel whose bit a point that passes changes. -/
def Lands (a : ℤ × ℤ) (X Y : ℕ) : Prop :=
  X = landing a % 128 ∧ Y = landing a / 128 * 8 + (UInt8.ofInt a.2).toNat % 8

instance (a : ℤ × ℤ) (X Y : ℕ) : Decidable (Lands a X Y) := inferInstanceAs (Decidable (_ ∧ _))

def plotted (color : OledColor) (s : State) (a : ℤ × ℤ) : State :=
  if Passes a then painted s (UInt8.ofInt a.1) (UInt8.ofInt a.2) color else s

theorem plot_returns {a : ℤ × ℤ} : (plot color a).Returns s r t ↔
    (Passes a → landing a < shadowFbSize) ∧ plotted color s a = t := by
  rw [plot, plotted]
  by_cases h : Passes a
  · rw [putPixel_returns h.1 h.2, if_pos h, imp_iff_right h, landing]
  · have hout : 128 < (UInt8.ofInt a.1).toNat ∨ 64 < (UInt8.ofInt a.2).toNat := by
      by_contra hin
      exact h ⟨by omega, by omega⟩
    rw [putPixel_outside hout, if_neg h]
    exact (and_iff_right fun hp => absurd hp h).symm

theorem plotAll_returns : (plotAll color l).Returns s r t ↔
    (∀ a ∈ l, Passes a → landing a < shadowFbSize) ∧ l.foldl (plotted color) s = t := by
  induction l generalizing s with
  | nil =>
    rw [plotAll, Prog.returns_pure]
    exact ⟨fun h => ⟨fun a ha => absurd ha List.not_mem_nil, h.2⟩, fun h => ⟨Subsingleton.elim _ _, h.2⟩⟩
  | cons a l ih =>
    rw [plotAll, Prog.returns_bind, List.forall_mem_cons, List.foldl_cons]
    constructor
    · rintro ⟨_, u, hu, ht⟩
      obtain ⟨hin, rfl⟩ := plot_returns.mp hu
      obtain ⟨hrest, ht⟩ := ih.mp ht
      exact ⟨⟨hin, hrest⟩, ht⟩
    · rintro ⟨⟨hin, hrest⟩, ht⟩
      exact ⟨(), _, plot_returns.mpr ⟨hin, rfl⟩, ih.mpr ⟨hrest, ht⟩⟩

theorem plotted_pixel {a : ℤ × ℤ} {X Y : ℕ} (hX : X < 128) : (plotted color s a).pixel X Y =
    if Passes a ∧ Lands a X Y then decide (color = .white) else s.pixel X Y := by
  rw [plotted]
  by_cases h : Passes a
  · rw [if_pos h, painted_pixel hX]
    simp only [h, true_and, Lands, landing]
  · rw [if_neg h, if_neg fun h' => h h'.1]

theorem foldl_plotted_pixel {X Y : ℕ} (hX : X < 128) : (l.foldl (plotted color) s).pixel X Y =
    if ∃ a ∈ l, Passes a ∧ Lands a X Y then decide (color = .white) else s.pixel X Y := by
  induction l generalizing s with
  | nil => simp only [List.foldl_nil, List.not_mem_nil, false_and, exists_false, if_false]
  | cons a l ih =>
    rw [List.foldl_cons, ih, plotted_pixel hX]
    simp only [List.mem_cons, exists_eq_or_imp]
    by_cases h : ∃ a ∈ l, Passes a ∧ Lands a X Y
    · rw [if_pos h, if_pos (Or.inr h)]
    · rw [if_neg h]
      exact if_congr (or_iff_left h).symm rfl rfl

/-- The program ends, its accesses are inside `shadowFB`, and only pixels of the shape change. -/
def Clipped (shape : ℤ → ℤ → Prop) (p : OledM Unit) : Prop := ∀ s, p.Achieves s fun _ t =>
  ∀ X Y : ℕ, X < 128 → Y < 64 → t.pixel X Y ≠ s.pixel X Y → shape X Y

/-- A point that is not rejected lands inside of `shadowFB` and on a pixel of the shape. -/
def Harmless (shape : ℤ → ℤ → Prop) (a : ℤ × ℤ) : Prop :=
  Passes a → landing a < shadowFbSize ∧ ∀ X Y : ℕ, Lands a X Y → shape X Y

theorem clipped_plotAll : Clipped shape (plotAll color l) ↔ ∀ a ∈ l, Harmless shape a := by
  constructor
  · -- from the frame buffer that is nowhere of the color, what is drawn is what changes
    intro h a ha hpasses
    let s : State := ⟨fun _ => if color = .white then 0 else 0xff, ⟨0, 0, fun _ _ => 0⟩⟩
    obtain ⟨_, t, hr, ht⟩ := h s
    obtain ⟨hin, rfl⟩ := plotAll_returns.mp hr
    refine ⟨hin a ha hpasses, fun X Y hlands => ?_⟩
    have hpos := hin a ha hpasses
    rw [shadowFbSize] at hpos
    have hX : X < 128 := by
      rw [hlands.1]
      exact Nat.mod_lt _ (by omega)
    have hY : Y < 64 := by
      rw [hlands.2]
      omega
    apply ht X Y hX hY
    rw [foldl_plotted_pixel hX, if_pos ⟨a, ha, hpasses, hlands⟩]
    have hbit : Y % 8 < 8 := Nat.mod_lt _ (by omega)
    cases color with
    | black =>
      have hs : s.pixel X Y = true := by
        change Nat.testBit 255 (Y % 8) = true
        rw [show (255 : ℕ) = 2 ^ 8 - 1 from rfl, Nat.testBit_two_pow_sub_one]
        exact decide_eq_true hbit
      rw [hs]
      exact Bool.false_ne_true
    | white =>
      have hs : s.pixel X Y = false := Nat.zero_testBit _
      rw [hs]
      exact Bool.true_eq_false_eq_False
  · intro h s
    refine ⟨(), _, plotAll_returns.mpr ⟨fun a ha hp => (h a ha hp).1, rfl⟩, fun X Y hX _ hne => ?_⟩
    rw [foldl_plotted_pixel hX] at hne
    split_ifs at hne with hex
    · obtain ⟨a, ha, hpasses, hlands⟩ := hex
      exact (h a ha hpasses).2 X Y hlands
    · exact absurd rfl hne

/-- The program plots the points of a list, or has no result where that has none. -/
def Draws (color : OledColor) (p : OledM Unit) (l : List (ℤ × ℤ)) : Prop :=
  ∀ s r t, p.Returns s r t ↔ (plotAll color l).Returns s r t

def Diverges (p : OledM Unit) : Prop := ∀ s, ¬p.Terminates s

theorem draws_nil : Draws color (pure ()) [] := fun _ _ _ => Iff.rfl

theorem draws_plot (a : ℤ × ℤ) : Draws color (plot color a) [a] := by
  intro s r t
  rw [plot_returns, plotAll_returns, List.forall_mem_singleton]
  rfl

theorem Draws.seq (hp : Draws color p l) (hq : Draws color q l') : Draws color (do p; q) (l ++ l') := by
  intro s r t
  rw [Prog.returns_bind, plotAll_returns, List.forall_mem_append, List.foldl_append]
  constructor
  · rintro ⟨_, u, hu, ht⟩
    obtain ⟨hin, rfl⟩ := plotAll_returns.mp ((hp _ _ _).mp hu)
    obtain ⟨hin', ht⟩ := plotAll_returns.mp ((hq _ _ _).mp ht)
    exact ⟨⟨hin, hin'⟩, ht⟩
  · rintro ⟨⟨hin, hin'⟩, ht⟩
    exact ⟨(), _, (hp _ _ _).mpr (plotAll_returns.mpr ⟨hin, rfl⟩), (hq _ _ _).mpr (plotAll_returns.mpr ⟨hin', ht⟩)⟩

theorem Diverges.seq (hp : Diverges p) : Diverges (do p; q) := by
  rintro s ⟨r, t, h⟩
  obtain ⟨_, u, hu, -⟩ := Prog.returns_bind.mp h
  exact hp s hu.terminates

theorem diverges_after (hq : Diverges q) : Diverges (do p; q) := by
  rintro s ⟨r, t, h⟩
  obtain ⟨_, u, -, hu⟩ := Prog.returns_bind.mp h
  exact hq u hu.terminates

theorem Draws.clipped_iff (h : Draws color p l) : Clipped shape p ↔ ∀ a ∈ l, Harmless shape a := by
  rw [← @clipped_plotAll color]
  simp only [Clipped, Prog.Achieves, h _ _ _]

theorem Diverges.not_clipped (h : Diverges p) : ¬Clipped shape p := fun hc =>
  h ⟨fun _ => 0, 0, 0, fun _ _ => 0⟩ (hc _).terminates

end plot

end Lpc1788Libraries.Oled

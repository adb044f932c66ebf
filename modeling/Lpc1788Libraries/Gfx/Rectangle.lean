import Lpc1788Libraries.Gfx.Points

namespace Lpc1788Libraries.Gfx

variable {s t : Lcd} {color : UInt32} {shape : ℤ × ℤ → Prop} {x y l x1 y1 x2 y2 : ℤ}

/-- A coordinate that the narrowing keeps. -/
def Fits (z : ℤ) : Prop := 0 ≤ z ∧ z < 65536

theorem ofInt_toNat {z : ℤ} (h : Fits z) : ((UInt16.ofInt z).toNat : ℤ) = z := by
  unfold Fits at h
  rw [UInt16.ofInt, UInt16.toNat_ofNat']
  omega

theorem drawPoint_colours {p : ℤ × ℤ} (hx : Fits p.1) (hy : Fits p.2) :
    Colours s.fgcolor (fun q => q = p) s (drawPoint s p) := by
  have h := @setPoint_colours s s.fgcolor (UInt16.ofInt p.1, UInt16.ofInt p.2)
  rwa [place, ofInt_toNat hx, ofInt_toNat hy] at h

theorem fold_colours {step : Lcd → ℕ → Lcd} {part : ℕ → ℤ × ℤ → Prop} (n : ℕ)
    (hstep : ∀ s, ∀ i < n, Colours s.fgcolor (part i) s (step s i)) :
    Colours s.fgcolor (fun p => ∃ i < n, part i p) s ((List.range n).foldl step s) := by
  induction n with
  | zero => exact colours_refl.congr fun p _ => ⟨False.elim, fun h => by omega⟩
  | succ n ih =>
    have hbefore := ih fun s i hi => hstep s i (Nat.lt_succ_of_lt hi)
    have hlast := hstep ((List.range n).foldl step s) n (Nat.lt_succ_self n)
    rw [hbefore.fgcolor] at hlast
    rw [List.range_succ, List.foldl_append]
    apply (hbefore.trans hlast).congr
    intro p _
    constructor
    · rintro (⟨i, hi, hp⟩ | hp)
      · exact ⟨i, Nat.lt_succ_of_lt hi, hp⟩
      · exact ⟨n, Nat.lt_succ_self n, hp⟩
    · rintro ⟨i, hi, hp⟩
      rcases Nat.lt_succ_iff_lt_or_eq.mp hi with hi | rfl
      · exact Or.inl ⟨i, hi, hp⟩
      · exact Or.inr hp

theorem drawHLine_colours (hx : 0 ≤ x) (hend : x + l < 65536) (hy : Fits y) :
    Colours s.fgcolor (fun p => x ≤ p.1 ∧ p.1 ≤ x + l ∧ p.2 = y) s (drawHLine x y l s) := by
  have hloop := @fold_colours s (fun s (i : ℕ) => drawPoint s (x + i, y)) (fun i q => q = (x + (i : ℤ), y)) (l + 1).toNat
    fun s i hi => drawPoint_colours (by unfold Fits; dsimp only; omega) hy
  apply hloop.congr
  intro p _
  simp only [Prod.ext_iff]
  constructor
  · rintro ⟨i, hi, hp⟩
    omega
  · rintro ⟨hlow, hhigh, hp⟩
    exact ⟨(p.1 - x).toNat, by omega, by omega, hp⟩

theorem drawVLine_colours (hx : Fits x) (hy : 0 ≤ y) (hend : y + l < 65536) :
    Colours s.fgcolor (fun p => p.1 = x ∧ y ≤ p.2 ∧ p.2 < y + l) s (drawVLine x y l s) := by
  have hloop := @fold_colours s (fun s (i : ℕ) => drawPoint s (x, y + i)) (fun i q => q = (x, y + (i : ℤ))) l.toNat
    fun s i hi => drawPoint_colours hx (by unfold Fits; dsimp only; omega)
  apply hloop.congr
  intro p _
  simp only [Prod.ext_iff]
  constructor
  · rintro ⟨i, hi, hp⟩
    omega
  · rintro ⟨hp, hlow, hhigh⟩
    exact ⟨(p.2 - y).toNat, by omega, hp, by omega⟩

def Rectangle (x1 y1 x2 y2 : ℤ) (p : ℤ × ℤ) : Prop :=
  min x1 x2 ≤ p.1 ∧ p.1 ≤ max x1 x2 ∧ min y1 y2 ≤ p.2 ∧ p.2 ≤ max y1 y2

def Border (x1 y1 x2 y2 : ℤ) (p : ℤ × ℤ) : Prop :=
  Rectangle x1 y1 x2 y2 p ∧ (p.1 = x1 ∨ p.1 = x2 ∨ p.2 = y1 ∨ p.2 = y2)

theorem colours_both {a b : Lcd → Lcd} {part part' : ℤ × ℤ → Prop} (ha : ∀ s, Colours s.fgcolor part s (a s))
    (hb : ∀ s, Colours s.fgcolor part' s (b s)) : Colours s.fgcolor (fun p => part p ∨ part' p) s (b (a s)) := by
  have hlast := hb (a s)
  rw [(ha s).fgcolor] at hlast
  exact (ha s).trans hlast

theorem drawRect_sorted (hx1 : 0 ≤ x1) (hx : x1 ≤ x2) (hx2 : x2 < 65536) (hy1 : 0 ≤ y1) (hy : y1 ≤ y2) (hy2 : y2 < 65536) :
    Colours s.fgcolor (Border x1 y1 x2 y2) s
      (drawVLine x2 y1 (y2 - y1) (drawVLine x1 y1 (y2 - y1) (drawHLine x1 y2 (x2 - x1) (drawHLine x1 y1 (x2 - x1) s)))) := by
  have htop (s) := @drawHLine_colours s x1 y1 (x2 - x1) hx1 (by omega) ⟨hy1, by omega⟩
  have hbottom (s) := @drawHLine_colours s x1 y2 (x2 - x1) hx1 (by omega) ⟨by omega, hy2⟩
  have hleft (s) := @drawVLine_colours s x1 y1 (y2 - y1) ⟨hx1, by omega⟩ hy1 (by omega)
  have hright (s) := @drawVLine_colours s x2 y1 (y2 - y1) ⟨by omega, hx2⟩ hy1 (by omega)
  apply (colours_both (fun s => colours_both (fun s => colours_both htop hbottom) hleft) hright).congr
  intro p _
  unfold Border Rectangle
  omega

theorem fillRect_portrait (hx1 : 0 ≤ x1) (hx : x1 ≤ x2) (hx2 : x2 < 65536) (hy1 : 0 ≤ y1) (hy : y1 ≤ y2) (hy2 : y2 < 65536) :
    Colours s.fgcolor (Rectangle x1 y1 x2 y2) s ((List.range ((y2 - y1) / 2 + 1).toNat).foldl (fun s (i : ℕ) =>
      drawHLine x1 (y2 - i) (x2 - x1) (drawHLine x1 (y1 + i) (x2 - x1) s)) s) := by
  have hloop := @fold_colours s (fun s (i : ℕ) => drawHLine x1 (y2 - i) (x2 - x1) (drawHLine x1 (y1 + i) (x2 - x1) s)) _
    ((y2 - y1) / 2 + 1).toNat fun s i hi => colours_both
      (fun s => @drawHLine_colours s x1 (y1 + i) (x2 - x1) hx1 (by omega) (by unfold Fits; omega))
      (fun s => @drawHLine_colours s x1 (y2 - i) (x2 - x1) hx1 (by omega) (by unfold Fits; omega))
  apply hloop.congr
  intro p _
  unfold Rectangle
  constructor
  · rintro ⟨i, hi, hp⟩
    omega
  · intro hp
    exact ⟨(min (p.2 - y1) (y2 - p.2)).toNat, by omega, by omega⟩

theorem fillRect_landscape (hx1 : 0 ≤ x1) (hx : x1 ≤ x2) (hx2 : x2 < 65536) (hy1 : 0 ≤ y1) (hy : y1 ≤ y2) (hy2 : y2 < 65536) :
    Colours s.fgcolor (fun p => Rectangle x1 y1 x2 y2 p ∧ p.2 < y2) s
      ((List.range ((x2 - x1) / 2 + 1).toNat).foldl (fun s (i : ℕ) =>
        drawVLine (x2 - i) y1 (y2 - y1) (drawVLine (x1 + i) y1 (y2 - y1) s)) s) := by
  have hloop := @fold_colours s (fun s (i : ℕ) => drawVLine (x2 - i) y1 (y2 - y1) (drawVLine (x1 + i) y1 (y2 - y1) s)) _
    ((x2 - x1) / 2 + 1).toNat fun s i hi => colours_both
      (fun s => @drawVLine_colours s (x1 + i) y1 (y2 - y1) (by unfold Fits; omega) hy1 (by omega))
      (fun s => @drawVLine_colours s (x2 - i) y1 (y2 - y1) (by unfold Fits; omega) hy1 (by omega))
  apply hloop.congr
  intro p _
  unfold Rectangle
  constructor
  · rintro ⟨i, hi, hp⟩
    omega
  · intro hp
    exact ⟨(min (p.1 - x1) (x2 - p.1)).toNat, by omega, by omega⟩

theorem sorted_colours {draw : ℤ → ℤ → ℤ → ℤ → Lcd → Lcd} (part : ℤ → ℤ → ℤ → ℤ → ℤ × ℤ → Prop)
    (hdraw : ∀ x1 y1 x2 y2, 0 ≤ x1 → x1 ≤ x2 → x2 < 65536 → 0 ≤ y1 → y1 ≤ y2 → y2 < 65536 →
      Colours s.fgcolor (part x1 y1 x2 y2) s (draw x1 y1 x2 y2 s))
    (hp : OnScreen (x1, y1)) (hq : OnScreen (x2, y2)) :
    Colours s.fgcolor (part (min x1 x2) (min y1 y2) (max x1 x2) (max y1 y2)) s (sorted draw x1 y1 x2 y2 s) := by
  have hx : (if x1 > x2 then x2 else x1) = min x1 x2 := by split_ifs <;> omega
  have hx' : (if x1 > x2 then x1 else x2) = max x1 x2 := by split_ifs <;> omega
  have hy : (if y1 > y2 then y2 else y1) = min y1 y2 := by split_ifs <;> omega
  have hy' : (if y1 > y2 then y1 else y2) = max y1 y2 := by split_ifs <;> omega
  unfold OnScreen cGlcdHSize cGlcdVSize at hp hq
  dsimp only at hp hq
  rw [sorted, hx, hx', hy, hy']
  apply hdraw <;> omega

theorem drawRect_colours (hp : OnScreen (x1, y1)) (hq : OnScreen (x2, y2)) :
    Colours s.fgcolor (Border x1 y1 x2 y2) s (drawRect x1 y1 x2 y2 s) := by
  apply (sorted_colours Border (fun _ _ _ _ => drawRect_sorted) hp hq).congr
  intro p _
  unfold Border Rectangle
  omega

theorem fillRect_colours (hp : OnScreen (x1, y1)) (hq : OnScreen (x2, y2)) :
    Colours s.fgcolor (fun p => Rectangle x1 y1 x2 y2 p ∧ (s.orient = portrait ∨ p.2 < max y1 y2)) s (fillRect x1 y1 x2 y2 s) := by
  by_cases horient : s.orient = portrait
  · apply (sorted_colours Rectangle _ hp hq).congr
    · intro p _
      simp only [horient, true_or, and_true]
      unfold Rectangle
      omega
    · intro x1 y1 x2 y2 hx1 hx hx2 hy1 hy hy2
      rw [if_pos horient]
      exact fillRect_portrait hx1 hx hx2 hy1 hy hy2
  · apply (sorted_colours (fun x1 y1 x2 y2 p => Rectangle x1 y1 x2 y2 p ∧ p.2 < y2) _ hp hq).congr
    · intro p _
      simp only [horient, false_or]
      unfold Rectangle
      omega
    · intro x1 y1 x2 y2 hx1 hx hx2 hy1 hy hy2
      rw [if_neg horient]
      exact fillRect_landscape hx1 hx hx2 hy1 hy hy2

def Fills (orient : UInt8) (x1 y1 x2 y2 : ℤ) : Prop :=
  ∀ s : Lcd, s.orient = orient → Colours s.fgcolor (Rectangle x1 y1 x2 y2) s (fillRect x1 y1 x2 y2 s)

def Frames (orient : UInt8) (x1 y1 x2 y2 : ℤ) : Prop :=
  ∀ s : Lcd, s.orient = orient → Colours s.fgcolor (Border x1 y1 x2 y2) s (drawRect x1 y1 x2 y2 s)

/-- Filling shows the same picture in both orientations. -/
def FillsAlike (x1 y1 x2 y2 : ℤ) : Prop := ∀ s : Lcd,
  (fillRect x1 y1 x2 y2 { s with orient := portrait }).vram = (fillRect x1 y1 x2 y2 { s with orient := landscape }).vram

/-- A black screen and a color that is not black. -/
def blackScreen (orient : UInt8) : Lcd := ⟨fun _ => 0, 1, orient, []⟩

theorem last_row_missing {orient : UInt8} (hp : OnScreen (x1, y1)) (hq : OnScreen (x2, y2)) (horient : orient ≠ portrait) :
    (fillRect x1 y1 x2 y2 (blackScreen orient)).pixel x1.toNat (max y1 y2).toNat = 0 := by
  have hfill := @fillRect_colours (blackScreen orient) x1 y1 x2 y2 hp hq
  unfold OnScreen cGlcdHSize cGlcdVSize at hp hq
  dsimp only at hp hq
  apply hfill.outside
  · rw [onScreen_natCast]
    omega
  · rintro ⟨_, h | h⟩
    · exact horient h
    · dsimp only at h
      omega

theorem fills_portrait (hp : OnScreen (x1, y1)) (hq : OnScreen (x2, y2)) : Fills portrait x1 y1 x2 y2 := by
  intro s horient
  apply (fillRect_colours hp hq).congr
  intro p _
  simp only [horient, true_or, and_true]

theorem last_row_filled {orient : UInt8} (hp : OnScreen (x1, y1)) (hq : OnScreen (x2, y2)) (h : Fills orient x1 y1 x2 y2) :
    (fillRect x1 y1 x2 y2 (blackScreen orient)).pixel x1.toNat (max y1 y2).toNat = 1 := by
  unfold OnScreen cGlcdHSize cGlcdVSize at hp hq
  dsimp only at hp hq
  apply (h (blackScreen orient) rfl).inside
  · rw [onScreen_natCast]
    omega
  · unfold Rectangle
    dsimp only
    omega

theorem rectangles_iff (hp : OnScreen (x1, y1)) (hq : OnScreen (x2, y2)) (orient : UInt8) :
    (Fills orient x1 y1 x2 y2 ↔ orient = portrait) ∧ Frames orient x1 y1 x2 y2 ∧ ¬FillsAlike x1 y1 x2 y2 := by
  refine ⟨⟨fun h => ?_, ?_⟩, fun s _ => drawRect_colours hp hq, fun h => ?_⟩
  · by_contra horient
    have hmissing := last_row_missing hp hq horient
    rw [last_row_filled hp hq h] at hmissing
    exact absurd hmissing (by decide)
  · rintro rfl
    exact fills_portrait hp hq
  · have hmissing := @last_row_missing x1 y1 x2 y2 landscape hp hq (by decide)
    have hfilled := last_row_filled hp hq (fills_portrait hp hq)
    have hsame := congrFun (h (blackScreen portrait)) ((max y1 y2).toNat * cGlcdHSize + x1.toNat)
    exact absurd (hfilled.symm.trans (hsame.trans hmissing)) (by decide)

theorem rectangles_iff_screen : (Fills landscape 479 271 0 0 ↔ landscape = portrait) ∧ Frames landscape 479 271 0 0 ∧
    ¬FillsAlike 479 271 0 0 := rectangles_iff (by decide) (by decide) landscape

/-- In the `LANDSCAPE` orientation a rectangle of one pixel is not filled at all. -/
theorem fillRect_landscape_nothing : ¬∀ x1 y1 x2 y2 : ℤ, OnScreen (x1, y1) → OnScreen (x2, y2) → ∀ orient : UInt8,
    Fills orient x1 y1 x2 y2 ∧ Frames orient x1 y1 x2 y2 ∧ FillsAlike x1 y1 x2 y2 := by
  intro h
  have hfill := (h 0 0 0 0 (by decide) (by decide) landscape).1
  exact absurd ((hfill (blackScreen landscape) rfl).inside 0 0 (by decide) (by unfold Rectangle; decide)) (by decide)

end Lpc1788Libraries.Gfx

import Lpc1788Libraries.Gfx.Open1788

namespace Lpc1788Libraries.Gfx

variable {s t u : Lcd} {color : UInt32} {l l' : List (UInt16 × UInt16)} {shape shape' : ℤ × ℤ → Prop} {x y : ℕ}

def place (p : UInt16 × UInt16) : ℤ × ℤ := (p.1.toNat, p.2.toNat)

def plotAll (color : UInt32) (l : List (UInt16 × UInt16)) (s : Lcd) : Lcd :=
  l.foldl (fun s p => setPoint p.1 p.2 color s) s

def Lcd.pixel (s : Lcd) (x y : ℕ) : UInt32 := s.vram (y * cGlcdHSize + x)

def OnScreen (p : ℤ × ℤ) : Prop := 0 ≤ p.1 ∧ p.1 < cGlcdHSize ∧ 0 ≤ p.2 ∧ p.2 < cGlcdVSize

instance (p : ℤ × ℤ) : Decidable (OnScreen p) := inferInstanceAs (Decidable (_ ∧ _))

/-- The pixels of a shape get the color and all others keep theirs, as does the memory behind the screen. -/
structure Colours (color : UInt32) (shape : ℤ × ℤ → Prop) (s t : Lcd) : Prop where
  inside : ∀ x y : ℕ, OnScreen (x, y) → shape (x, y) → t.pixel x y = color
  outside : ∀ x y : ℕ, OnScreen (x, y) → ¬shape (x, y) → t.pixel x y = s.pixel x y
  behind : ∀ i, cGlcdVSize * cGlcdHSize ≤ i → t.vram i = s.vram i
  fgcolor : t.fgcolor = s.fgcolor
  orient : t.orient = s.orient

theorem onScreen_natCast : OnScreen ((x : ℤ), (y : ℤ)) ↔ x < 480 ∧ y < 272 := by
  unfold OnScreen cGlcdHSize cGlcdVSize
  dsimp only
  omega

theorem setPoint_vram (p : UInt16 × UInt16) (i : ℕ) : (setPoint p.1 p.2 color s).vram i =
    if OnScreen (place p) ∧ i = p.2.toNat * 480 + p.1.toNat then color else s.vram i := by
  unfold setPoint OnScreen place cGlcdHSize cGlcdVSize
  dsimp only
  by_cases h : 480 ≤ p.1.toNat ∨ 272 ≤ p.2.toNat
  · rw [if_pos h, if_neg]
    omega
  · rw [if_neg h]
    dsimp only
    rw [Function.update_apply]
    apply if_congr _ rfl rfl
    omega

theorem setPoint_fgcolor (p : UInt16 × UInt16) : (setPoint p.1 p.2 color s).fgcolor = s.fgcolor := by
  unfold setPoint
  dsimp only
  split_ifs <;> rfl

theorem setPoint_orient (p : UInt16 × UInt16) : (setPoint p.1 p.2 color s).orient = s.orient := by
  unfold setPoint
  dsimp only
  split_ifs <;> rfl

theorem setPoint_points (p : UInt16 × UInt16) : (setPoint p.1 p.2 color s).points = s.points ++ [p] := by
  unfold setPoint
  dsimp only
  split_ifs <;> rfl

theorem setPoint_colours (p : UInt16 × UInt16) : Colours color (fun q => q = place p) s (setPoint p.1 p.2 color s) where
  inside := by
    intro x y hscreen hp
    rw [Lcd.pixel, setPoint_vram, if_pos]
    rw [← hp]
    refine ⟨hscreen, ?_⟩
    unfold place at hp
    unfold cGlcdHSize
    simp only [Prod.mk.injEq] at hp
    omega
  outside := by
    intro x y hscreen hp
    rw [Lcd.pixel, setPoint_vram, if_neg]
    · rfl
    · rintro ⟨hplace, haddress⟩
      apply hp
      rw [onScreen_natCast] at hscreen
      unfold OnScreen place cGlcdHSize cGlcdVSize at hplace
      unfold cGlcdHSize at haddress
      unfold place
      simp only [Prod.mk.injEq]
      omega
  behind := by
    intro i hi
    rw [setPoint_vram, if_neg]
    unfold OnScreen place cGlcdHSize cGlcdVSize
    unfold cGlcdHSize cGlcdVSize at hi
    dsimp only
    omega
  fgcolor := setPoint_fgcolor p
  orient := setPoint_orient p

theorem Colours.congr (h : Colours color shape s t) (hshape : ∀ p, OnScreen p → (shape p ↔ shape' p)) :
    Colours color shape' s t where
  inside := fun x y hscreen hp => h.inside x y hscreen ((hshape _ hscreen).mpr hp)
  outside := fun x y hscreen hp => h.outside x y hscreen (mt (hshape _ hscreen).mp hp)
  behind := h.behind
  fgcolor := h.fgcolor
  orient := h.orient

theorem Colours.trans (h : Colours color shape s t) (h' : Colours color shape' t u) :
    Colours color (fun p => shape p ∨ shape' p) s u where
  inside := by
    intro x y hscreen hp
    by_cases hlast : shape' (x, y)
    · exact h'.inside x y hscreen hlast
    · rw [h'.outside x y hscreen hlast]
      exact h.inside x y hscreen (hp.resolve_right hlast)
  outside := by
    intro x y hscreen hp
    rw [h'.outside x y hscreen (mt Or.inr hp), h.outside x y hscreen (mt Or.inl hp)]
  behind := fun i hi => (h'.behind i hi).trans (h.behind i hi)
  fgcolor := h'.fgcolor.trans h.fgcolor
  orient := h'.orient.trans h.orient

theorem colours_refl : Colours color (fun _ => False) s s where
  inside := fun _ _ _ hp => hp.elim
  outside := fun _ _ _ _ => rfl
  behind := fun _ _ => rfl
  fgcolor := rfl
  orient := rfl

theorem plotAll_colours : Colours color (fun p => p ∈ l.map place) s (plotAll color l s) := by
  induction l generalizing s with
  | nil => exact colours_refl.congr fun p _ => (iff_false_intro List.not_mem_nil).symm
  | cons a l ih =>
    apply ((setPoint_colours a).trans ih).congr
    intro p _
    rw [List.map_cons, List.mem_cons]

theorem plotAll_points : (plotAll color l s).points = s.points ++ l := by
  induction l generalizing s with
  | nil => exact (List.append_nil _).symm
  | cons a l ih =>
    refine ih.trans ?_
    rw [setPoint_points, List.append_assoc]
    rfl

end Lpc1788Libraries.Gfx

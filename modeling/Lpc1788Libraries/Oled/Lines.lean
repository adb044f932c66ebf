import Lpc1788Libraries.Oled.Pixels

namespace Lpc1788Libraries.Oled

open Lpc1788Libraries.Support BoundedProgram

variable {s t : State} {color : OledColor} {r : Unit} {x y v stop : UInt8}
  {p : OledM Unit} {l : List (ℤ × ℤ)}

section count

variable (body : UInt8 → OledM Unit) (pts : ℕ → List (ℤ × ℤ))

/-- The round of the loops that count a coordinate up to an inclusive end. -/
def countRound (stop v : UInt8) : OledM (UInt8 ⊕ Unit) := do
  if stop ≥ v then
    body v
    pure (.inl (v + 1))
  else pure (.inr ())

theorem countLoop_stop (h : ¬v ≤ stop) : Draws color (Prog.loop (countRound body stop) v) [] := by
  intro s r t
  have hround : (countRound body stop v).Returns s (.inr ()) s := by
    rw [countRound, if_neg h]
    exact Prog.returns_pure.mpr ⟨rfl, rfl⟩
  rw [plotAll, Prog.returns_pure]
  constructor
  · intro hr
    exact (Prog.loop_inr hround).unique hr
  · rintro ⟨rfl, rfl⟩
    exact Prog.loop_inr hround

theorem countLoop_step (h : v ≤ stop) : (Prog.loop (countRound body stop) v).Returns s r t ↔
    (do body v; Prog.loop (countRound body stop) (v + 1)).Returns s r t := by
  have hround : countRound body stop v = (do body v; pure (.inl (v + 1))) := if_pos h
  rw [Prog.returns_loop, hround]
  constructor
  · rintro (hr | ⟨w, u, hr, hloop⟩)
    · obtain ⟨_, u, -, hu⟩ := Prog.returns_bind.mp hr
      exact absurd (Prog.returns_pure.mp hu).1 Sum.inl_ne_inr
    · obtain ⟨_, u', hu', hpure⟩ := Prog.returns_bind.mp hr
      obtain ⟨heq, rfl⟩ := Prog.returns_pure.mp hpure
      rw [← Sum.inl.inj heq] at hloop
      exact hu'.bind hloop
  · intro hr
    obtain ⟨_, u, hu, hloop⟩ := Prog.returns_bind.mp hr
    exact Or.inr ⟨v + 1, u, hu.bind (Prog.returns_pure.mpr ⟨rfl, rfl⟩), hloop⟩

theorem Draws.congr (h : Draws color p l) {q : OledM Unit} (hq : ∀ s r t, q.Returns s r t ↔ p.Returns s r t) :
    Draws color q l := fun s r t => (hq s r t).trans (h s r t)

theorem countLoop_draws (hbody : ∀ v, Draws color (body v) (pts v.toNat)) (hstop : stop.toNat < 255) (k : ℕ)
    (hk : v.toNat + k = stop.toNat + 1) :
    Draws color (Prog.loop (countRound body stop) v) ((List.range k).flatMap fun i => pts (v.toNat + i)) := by
  induction k generalizing v with
  | zero =>
    apply countLoop_stop body
    intro hle
    have hle' := UInt8.le_iff_toNat_le.mp hle
    omega
  | succ k ih =>
    have hle : v ≤ stop := UInt8.le_iff_toNat_le.mpr (by omega)
    have hsucc : (v + 1).toNat = v.toNat + 1 := by
      rw [UInt8.toNat_add]
      exact Nat.mod_eq_of_lt (by change v.toNat + 1 < 256; omega)
    have hrest := @ih (v + 1) (by omega)
    have hlist : (List.range (k + 1)).flatMap (fun i => pts (v.toNat + i)) =
        pts v.toNat ++ (List.range k).flatMap fun i => pts ((v + 1).toNat + i) := by
      rw [List.range_succ_eq_map, List.flatMap_cons, List.flatMap_map, hsucc]
      simp only [Nat.add_zero, Nat.succ_eq_add_one, Nat.add_assoc, Nat.add_comm 1]
    rw [hlist]
    exact ((hbody v).seq hrest).congr fun s r t => countLoop_step body hle

theorem countLoop_diverges (hstop : stop.toNat = 255) : Diverges (Prog.loop (countRound body stop) v) := by
  intro s
  apply Prog.loop_diverges (I := fun _ _ => True) _ trivial
  intro v s z t _ h
  have hle : v ≤ stop := UInt8.le_iff_toNat_le.mpr (by have hv := v.toNat_lt; omega)
  have hround : countRound body stop v = (do body v; pure (.inl (v + 1))) := if_pos hle
  rw [hround] at h
  obtain ⟨_, u, -, hpure⟩ := Prog.returns_bind.mp h
  exact ⟨v + 1, (Prog.returns_pure.mp hpure).1.symm, trivial⟩

theorem countLoop_diverges_body (hbody : Diverges (body v)) (h : v ≤ stop) :
    Diverges (Prog.loop (countRound body stop) v) := by
  rintro s ⟨r, t, hr⟩
  exact hbody.seq s ((countLoop_step body h).mp hr).terminates

end count

section lines

variable {x0 y0 x1 y1 : UInt8}

theorem ofInt_toNat (v : UInt8) : UInt8.ofInt v.toNat = v := by
  rw [UInt8.ofInt]
  have h := v.toNat_lt
  have hmod : ((v.toNat : ℤ) % 2 ^ 8).toNat = v.toNat := by omega
  rw [hmod, UInt8.ofNat_toNat]

theorem draws_putPixel : Draws color (glcdPutPixel x y color) [((x.toNat : ℤ), (y.toNat : ℤ))] := by
  have h : Draws color (plot color _) _ := draws_plot ((x.toNat : ℤ), (y.toNat : ℤ))
  rwa [plot, ofInt_toNat, ofInt_toNat] at h

/-- The points of a horizontal line from `a` to `b`. -/
def hPoints (a b y : ℕ) : List (ℤ × ℤ) := (List.range (b + 1 - a)).flatMap fun i => [(((a + i : ℕ) : ℤ), (y : ℤ))]

def vPoints (x a b : ℕ) : List (ℤ × ℤ) := (List.range (b + 1 - a)).flatMap fun i => [((x : ℤ), ((a + i : ℕ) : ℤ))]

theorem mem_hPoints {a b y : ℕ} {q : ℤ × ℤ} : q ∈ hPoints a b y ↔ (a : ℤ) ≤ q.1 ∧ q.1 ≤ b ∧ q.2 = y := by
  simp only [hPoints, List.mem_flatMap, List.mem_range, List.mem_singleton, Prod.ext_iff]
  constructor
  · rintro ⟨i, hi, hx, hy⟩
    omega
  · rintro ⟨ha, hb, hy⟩
    exact ⟨(q.1 - a).toNat, by omega, by omega, hy⟩

theorem mem_vPoints {x a b : ℕ} {q : ℤ × ℤ} : q ∈ vPoints x a b ↔ q.1 = x ∧ (a : ℤ) ≤ q.2 ∧ q.2 ≤ b := by
  simp only [vPoints, List.mem_flatMap, List.mem_range, List.mem_singleton, Prod.ext_iff]
  constructor
  · rintro ⟨i, hi, hx, hy⟩
    omega
  · rintro ⟨hx, ha, hb⟩
    exact ⟨(q.2 - a).toNat, by omega, hx, by omega⟩

theorem hLoop_draws (h : x0 ≤ x1) (hend : x1.toNat < 255) :
    Draws color (Prog.loop (hLineRound color y0 x1) x0) (hPoints x0.toNat x1.toNat y0.toNat) := by
  have hle := UInt8.le_iff_toNat_le.mp h
  exact countLoop_draws (fun x => glcdPutPixel x y0 color) (fun x => [((x : ℤ), (y0.toNat : ℤ))])
    (fun x => draws_putPixel) hend _ (by omega)

theorem vLoop_draws (h : y0 ≤ y1) (hend : y1.toNat < 255) :
    Draws color (Prog.loop (vLineRound color x0 y1) y0) (vPoints x0.toNat y0.toNat y1.toNat) := by
  have hle := UInt8.le_iff_toNat_le.mp h
  exact countLoop_draws (fun y => glcdPutPixel x0 y color) (fun y => [((x0.toNat : ℤ), (y : ℤ))])
    (fun y => draws_putPixel) hend _ (by omega)

theorem hLine_draws (hend : max x0.toNat x1.toNat < 255) : Draws color (glcdHLine color x0 y0 x1)
    (hPoints (min x0.toNat x1.toNat) (max x0.toNat x1.toNat) y0.toNat) := by
  rw [glcdHLine]
  by_cases h : x1 < x0
  · have hlt := UInt8.lt_iff_toNat_lt.mp h
    rw [if_pos h, Nat.min_eq_right hlt.le, Nat.max_eq_left hlt.le]
    exact hLoop_draws (UInt8.le_iff_toNat_le.mpr hlt.le) (by omega)
  · have hle := Nat.le_of_not_lt fun hlt => h (UInt8.lt_iff_toNat_lt.mpr hlt)
    rw [if_neg h, Nat.min_eq_left hle, Nat.max_eq_right hle]
    exact hLoop_draws (UInt8.le_iff_toNat_le.mpr hle) (by omega)

theorem vLine_draws (hend : max y0.toNat y1.toNat < 255) : Draws color (glcdVLine color x0 y0 y1)
    (vPoints x0.toNat (min y0.toNat y1.toNat) (max y0.toNat y1.toNat)) := by
  rw [glcdVLine]
  by_cases h : y1 < y0
  · have hlt := UInt8.lt_iff_toNat_lt.mp h
    rw [if_pos h, Nat.min_eq_right hlt.le, Nat.max_eq_left hlt.le]
    exact vLoop_draws (UInt8.le_iff_toNat_le.mpr hlt.le) (by omega)
  · have hle := Nat.le_of_not_lt fun hlt => h (UInt8.lt_iff_toNat_lt.mpr hlt)
    rw [if_neg h, Nat.min_eq_left hle, Nat.max_eq_right hle]
    exact vLoop_draws (UInt8.le_iff_toNat_le.mpr hle) (by omega)

theorem hLine_diverges (hend : 255 ≤ max x0.toNat x1.toNat) : Diverges (glcdHLine color x0 y0 x1) := by
  have h0 := x0.toNat_lt
  have h1 := x1.toNat_lt
  rw [glcdHLine]
  by_cases h : x1 < x0
  · have hlt := UInt8.lt_iff_toNat_lt.mp h
    rw [if_pos h]
    exact countLoop_diverges (fun x => glcdPutPixel x y0 color) (by omega)
  · have hle := Nat.le_of_not_lt fun hlt => h (UInt8.lt_iff_toNat_lt.mpr hlt)
    rw [if_neg h]
    exact countLoop_diverges (fun x => glcdPutPixel x y0 color) (by omega)

theorem vLine_diverges (hend : 255 ≤ max y0.toNat y1.toNat) : Diverges (glcdVLine color x0 y0 y1) := by
  have h0 := y0.toNat_lt
  have h1 := y1.toNat_lt
  rw [glcdVLine]
  by_cases h : y1 < y0
  · have hlt := UInt8.lt_iff_toNat_lt.mp h
    rw [if_pos h]
    exact countLoop_diverges (fun y => glcdPutPixel x0 y color) (by omega)
  · have hle := Nat.le_of_not_lt fun hlt => h (UInt8.lt_iff_toNat_lt.mpr hlt)
    rw [if_neg h]
    exact countLoop_diverges (fun y => glcdPutPixel x0 y color) (by omega)

/-- The border of the rectangle with the given corners. -/
def rectShape (x0 y0 x1 y1 : UInt8) (X Y : ℤ) : Prop :=
  min (x0.toNat : ℤ) x1.toNat ≤ X ∧ X ≤ max (x0.toNat : ℤ) x1.toNat ∧
    min (y0.toNat : ℤ) y1.toNat ≤ Y ∧ Y ≤ max (y0.toNat : ℤ) y1.toNat ∧
    (X = x0.toNat ∨ X = x1.toNat ∨ Y = y0.toNat ∨ Y = y1.toNat)

def fillRectShape (x0 y0 x1 y1 : UInt8) (X Y : ℤ) : Prop :=
  min (x0.toNat : ℤ) x1.toNat ≤ X ∧ X ≤ max (x0.toNat : ℤ) x1.toNat ∧
    min (y0.toNat : ℤ) y1.toNat ≤ Y ∧ Y ≤ max (y0.toNat : ℤ) y1.toNat

theorem rect_draws (hx : max x0.toNat x1.toNat < 255) (hy : max y0.toNat y1.toNat < 255) :
    ∃ l, Draws color (glcdRect color x0 y0 x1 y1) l ∧ ∀ a, a ∈ l ↔ rectShape x0 y0 x1 y1 a.1 a.2 := by
  refine ⟨_, (hLine_draws hx).seq ((hLine_draws hx).seq ((vLine_draws hy).seq (vLine_draws hy))), fun a => ?_⟩
  simp only [List.mem_append, mem_hPoints, mem_vPoints, rectShape]
  omega

theorem rect_diverges (h : 255 ≤ max x0.toNat x1.toNat ∨ 255 ≤ max y0.toNat y1.toNat) :
    Diverges (glcdRect color x0 y0 x1 y1) := by
  rcases h with h | h
  · exact (hLine_diverges h).seq
  · exact diverges_after (diverges_after (diverges_after (vLine_diverges h)))

theorem fillRectSorted_draws (hx : x0.toNat ≤ x1.toNat) (hy : y0.toNat ≤ y1.toNat)
    (hx' : y0 = y1 ∨ x0 ≠ x1 → x1.toNat < 255) (hy' : y0 ≠ y1 → y1.toNat < 255) :
    ∃ l, Draws color (fillRectSorted color x0 y0 x1 y1) l ∧ ∀ a, a ∈ l ↔ fillRectShape x0 y0 x1 y1 a.1 a.2 := by
  rw [fillRectSorted]
  by_cases hyeq : y0 = y1
  · have hend : max x0.toNat x1.toNat < 255 := by
      rw [Nat.max_eq_right hx]
      exact hx' (Or.inl hyeq)
    rw [if_pos hyeq]
    refine ⟨_, hLine_draws hend, fun a => ?_⟩
    rw [mem_hPoints, fillRectShape, hyeq]
    omega
  · have hend : max y0.toNat y1.toNat < 255 := by
      rw [Nat.max_eq_right hy]
      exact hy' hyeq
    rw [if_neg hyeq]
    by_cases hxeq : x0 = x1
    · rw [if_pos hxeq]
      refine ⟨_, vLine_draws hend, fun a => ?_⟩
      rw [mem_vPoints, fillRectShape, hxeq]
      omega
    · have hend' : max x0.toNat x1.toNat < 255 := by
        rw [Nat.max_eq_right hx]
        exact hx' (Or.inr hxeq)
      rw [if_neg hxeq]
      refine ⟨_, countLoop_draws (fun y => glcdHLine color x0 y x1)
        (fun y => hPoints (min x0.toNat x1.toNat) (max x0.toNat x1.toNat) y) (fun y => hLine_draws hend') (hy' hyeq)
        (y1.toNat + 1 - y0.toNat) (by omega), fun a => ?_⟩
      simp only [List.mem_flatMap, List.mem_range, mem_hPoints, fillRectShape]
      constructor
      · rintro ⟨i, hi, h1, h2, h3⟩
        omega
      · intro h
        exact ⟨(a.2 - y0.toNat).toNat, by omega, by omega, by omega, by omega⟩

theorem fillRectSorted_diverges (hx : x0.toNat ≤ x1.toNat) (hy : y0.toNat ≤ y1.toNat)
    (h : ¬((y0 = y1 ∨ x0 ≠ x1 → x1.toNat < 255) ∧ (y0 ≠ y1 → y1.toNat < 255))) :
    Diverges (fillRectSorted color x0 y0 x1 y1) := by
  have hx1 := x1.toNat_lt
  have hy1 := y1.toNat_lt
  rw [fillRectSorted]
  by_cases hyeq : y0 = y1
  · have hend : 255 ≤ max x0.toNat x1.toNat := by
      by_contra hlt
      exact h ⟨fun _ => by omega, fun hne => absurd hyeq hne⟩
    rw [if_pos hyeq]
    exact hLine_diverges hend
  · rw [if_neg hyeq]
    by_cases hxeq : x0 = x1
    · have hend : 255 ≤ max y0.toNat y1.toNat := by
        by_contra hlt
        exact h ⟨fun hor => absurd hxeq (hor.resolve_left hyeq), fun _ => by omega⟩
      rw [if_pos hxeq]
      exact vLine_diverges hend
    · rw [if_neg hxeq]
      by_cases hend : y1.toNat = 255
      · exact countLoop_diverges (fun y => glcdHLine color x0 y x1) hend
      · have hend' : 255 ≤ max x0.toNat x1.toNat := by
          by_contra hlt
          exact h ⟨fun _ => by omega, fun _ => by omega⟩
        exact countLoop_diverges_body (fun y => glcdHLine color x0 y x1) (hLine_diverges hend')
          (UInt8.le_iff_toNat_le.mpr hy)

end lines

end Lpc1788Libraries.Oled

import Lpc1788Libraries.Oled.Lines
import Mathlib.Tactic.Ring
import Mathlib.Tactic.Linarith

namespace Lpc1788Libraries.Oled

open Lpc1788Libraries.Support BoundedProgram

variable {s t : State} {color : OledColor} {x0 y0 x1 y1 : UInt8} {a b : ℤ}

section walk

variable {β γ : Type} {round : β → OledM (β ⊕ γ)} {g : γ → OledM Unit}

theorem walk_draws (f : ℕ → β) (body : ℕ → OledM Unit) (pts : ℕ → List (ℤ × ℤ)) (n : ℕ) {c : γ} {l : List (ℤ × ℤ)}
    (hbody : ∀ i, Draws color (body i) (pts i))
    (hgo : ∀ i < n, round (f i) = (do body i; pure (.inl (f (i + 1)))))
    (hstop : round (f n) = pure (.inr c)) (hg : Draws color (g c) l) :
    Draws color (do let v ← Prog.loop round (f 0); g v) ((List.range n).flatMap pts ++ l) := by
  induction n generalizing f body pts with
  | zero =>
    apply hg.congr
    intro s r t
    have hloop : (Prog.loop round (f 0)).Returns s c s := by
      apply Prog.loop_inr
      rw [hstop]
      exact Prog.returns_pure.mpr ⟨rfl, rfl⟩
    exact hloop.bind_iff
  | succ n ih =>
    have hrest := ih (fun i => f (i + 1)) (fun i => body (i + 1)) (fun i => pts (i + 1)) (fun i => hbody (i + 1))
      (fun i hi => hgo (i + 1) (Nat.succ_lt_succ hi)) hstop
    have hlist : (List.range (n + 1)).flatMap pts ++ l = pts 0 ++ ((List.range n).flatMap (fun i => pts (i + 1)) ++ l) := by
      rw [List.range_succ_eq_map, List.flatMap_cons, List.flatMap_map, List.append_assoc]
    rw [hlist]
    apply ((hbody 0).seq hrest).congr
    intro s r t
    have hround := hgo 0 (Nat.succ_pos n)
    constructor
    · intro h
      obtain ⟨c', u, hloop, hu⟩ := Prog.returns_bind.mp h
      rcases Prog.returns_loop.mp hloop with hr | ⟨v, w, hr, hloop⟩
      · rw [hround] at hr
        obtain ⟨_, w, -, hpure⟩ := Prog.returns_bind.mp hr
        exact absurd (Prog.returns_pure.mp hpure).1 Sum.inl_ne_inr
      · rw [hround] at hr
        obtain ⟨_, w', hw', hpure⟩ := Prog.returns_bind.mp hr
        obtain ⟨heq, rfl⟩ := Prog.returns_pure.mp hpure
        rw [← Sum.inl.inj heq] at hloop
        exact hw'.bind (hloop.bind hu)
    · intro h
      obtain ⟨_, w, hw, hrest⟩ := Prog.returns_bind.mp h
      obtain ⟨c', u, hloop, hu⟩ := Prog.returns_bind.mp hrest
      refine Prog.Returns.bind (Prog.loop_inl ?_ hloop) hu
      rw [hround]
      exact hw.bind (Prog.returns_pure.mpr ⟨rfl, rfl⟩)

end walk

section slope

/-- At the place `i` of a line that goes `a` places along and `b` aside, `u` is the place nearest
to the ideal line; of two equally near ones it is the one further aside. -/
def NearLine (a b i u : ℤ) : Prop := 0 ≤ i ∧ i ≤ a ∧ -a ≤ 2 * (b * i - a * u) ∧ 2 * (b * i - a * u) < a

/-- How far aside the line is after `i` rounds. -/
def aside (a b : ℤ) : ℕ → ℤ
  | 0 => 0
  | i + 1 => if 2 * b * (i + 1) - a - 2 * a * aside a b i < 0 then aside a b i else aside a b i + 1

/-- The decision variable after `i` rounds. -/
def decision (a b : ℤ) (i : ℕ) : ℤ := 2 * b * (i + 1) - a - 2 * a * aside a b i

theorem aside_near (ha : 0 < a) (hb : 0 ≤ b) (hab : b ≤ a) (i : ℕ) :
    -a ≤ 2 * (b * i - a * aside a b i) ∧ 2 * (b * i - a * aside a b i) < a := by
  induction i with
  | zero =>
    simp only [aside, Nat.cast_zero, mul_zero, sub_zero]
    omega
  | succ i ih =>
    have hi : b * ((i + 1 : ℕ) : ℤ) = b * i + b := by
      push_cast
      ring
    have hd : 2 * b * ((i : ℤ) + 1) - a - 2 * a * aside a b i = 2 * (b * i - a * aside a b i) + 2 * b - a := by ring
    rw [aside, hd, hi]
    split_ifs with h
    · constructor <;> linarith [ih.1, ih.2]
    · have hu : a * (aside a b i + 1) = a * aside a b i + a := by ring
      rw [hu]
      constructor <;> linarith [ih.1, ih.2]

theorem near_unique {i u v : ℤ} (h : NearLine a b i u) (h' : NearLine a b i v) : u = v := by
  have hle : ∀ u v : ℤ, NearLine a b i u → NearLine a b i v → u ≤ v := by
    intro u v hu hv
    by_contra hlt
    have hmul : a * (v + 1) ≤ a * u := Int.mul_le_mul_of_nonneg_left (by omega) (hu.1.trans hu.2.1)
    have hexp : a * (v + 1) = a * v + a := by ring
    linarith [hu.2.2.1, hv.2.2.2]
  exact le_antisymm (hle u v h h') (hle v u h' h)

theorem nearLine_iff (ha : 0 < a) (hb : 0 ≤ b) (hab : b ≤ a) {i u : ℤ} :
    NearLine a b i u ↔ ∃ k : ℕ, (k : ℤ) ≤ a ∧ i = k ∧ u = aside a b k := by
  constructor
  · intro h
    have hk : ((i.toNat : ℕ) : ℤ) = i := Int.toNat_of_nonneg h.1
    refine ⟨i.toNat, hk.le.trans h.2.1, hk.symm, near_unique h ⟨h.1, h.2.1, ?_⟩⟩
    have hnear := aside_near ha hb hab i.toNat
    rwa [hk] at hnear
  · rintro ⟨k, hk, rfl, rfl⟩
    exact ⟨Int.natCast_nonneg k, hk, aside_near ha hb hab k⟩

theorem ofInt_inj {p q : ℤ} (hp : 0 ≤ p) (hp' : p < 256) (hq : 0 ≤ q) (hq' : q < 256)
    (h : UInt8.ofInt p = UInt8.ofInt q) : p = q := by
  have hnat := congrArg UInt8.toNat h
  simp only [UInt8.ofInt, UInt8.toNat_ofNat'] at hnat
  omega

theorem aside_succ (i : ℕ) : aside a b (i + 1) = if decision a b i < 0 then aside a b i else aside a b i + 1 := rfl

theorem decision_succ (i : ℕ) : decision a b (i + 1) =
    if decision a b i < 0 then decision a b i + b * 2 else decision a b i + (b * 2 - a * 2) := by
  rw [decision, aside_succ]
  split_ifs
  · rw [decision]
    push_cast
    ring
  · rw [decision]
    push_cast
    ring

/-- The point after `i` rounds of a line that goes along `x`. -/
def xSlopePoint (x0 y0 : UInt8) (a b sx sy : ℤ) (i : ℕ) : ℤ × ℤ := (x0.toNat + sx * i, y0.toNat + sy * aside a b i)

def ySlopePoint (x0 y0 : UInt8) (a b sx sy : ℤ) (i : ℕ) : ℤ × ℤ := (x0.toNat + sx * aside a b i, y0.toNat + sy * i)

theorem ofInt_step (p q : ℤ) (i : ℕ) :
    UInt8.ofInt (p + q * ((i + 1 : ℕ) : ℤ)) = UInt8.ofInt (p + q * i) + UInt8.ofInt q := by
  rw [← UInt8.ofInt_add]
  congr 1
  push_cast
  ring

theorem ofInt_aside (p q : ℤ) (i : ℕ) : UInt8.ofInt (p + q * aside a b (i + 1)) =
    if decision a b i < 0 then UInt8.ofInt (p + q * aside a b i) else UInt8.ofInt (p + q * aside a b i) + UInt8.ofInt q := by
  rw [aside_succ]
  split_ifs
  · rfl
  · rw [← UInt8.ofInt_add]
    congr 1
    ring

theorem coord_ne {p q : UInt8} {d k : ℤ} (hd : d = 1 ∨ d = -1) (hend : (q.toNat : ℤ) = p.toNat + d * a) (hk : 0 ≤ k)
    (hka : k < a) : UInt8.ofInt (p.toNat + d * k) ≠ q := by
  have hp : (p.toNat : ℤ) < 256 := by exact_mod_cast p.toNat_lt
  have hq : (q.toNat : ℤ) < 256 := by exact_mod_cast q.toNat_lt
  intro heq
  rw [← ofInt_toNat q] at heq
  rcases hd with rfl | rfl
  · rw [one_mul] at heq hend
    have hinj := ofInt_inj (by omega) (by omega) (by omega) hq heq
    omega
  · rw [neg_one_mul] at heq hend
    have hinj := ofInt_inj (by omega) (by omega) (by omega) hq heq
    omega

/-- The variables of a line that goes along `x`, after `i` rounds. -/
def xSlopeVars (x0 y0 : UInt8) (a b sx sy : ℤ) (i : ℕ) : LineVars :=
  ⟨UInt8.ofInt (x0.toNat + sx * i), UInt8.ofInt (y0.toNat + sy * aside a b i), decision a b i⟩

def ySlopeVars (x0 y0 : UInt8) (a b sx sy : ℤ) (i : ℕ) : LineVars :=
  ⟨UInt8.ofInt (x0.toNat + sx * aside a b i), UInt8.ofInt (y0.toNat + sy * i), decision a b i⟩

theorem decision_zero : decision a b 0 = b * 2 - a := by
  simp only [decision, aside, Nat.cast_zero, mul_zero]
  ring

theorem xSlopeVars_zero {sx sy : ℤ} : xSlopeVars x0 y0 a b sx sy 0 = ⟨x0, y0, b * 2 - a⟩ := by
  simp only [xSlopeVars, decision_zero, aside, Nat.cast_zero, mul_zero, add_zero, ofInt_toNat]

theorem ySlopeVars_zero {sx sy : ℤ} : ySlopeVars x0 y0 a b sx sy 0 = ⟨x0, y0, b * 2 - a⟩ := by
  simp only [ySlopeVars, decision_zero, aside, Nat.cast_zero, mul_zero, add_zero, ofInt_toNat]

theorem xLineRound_vars {sx sy : ℤ} {i : ℕ} (hne : (xSlopeVars x0 y0 a b sx sy i).x0 ≠ x1) :
    xLineRound color x1 a b sx sy (xSlopeVars x0 y0 a b sx sy i) =
      (do plot color (xSlopePoint x0 y0 a b sx sy i); pure (.inl (xSlopeVars x0 y0 a b sx sy (i + 1)))) := by
  rw [xLineRound, if_pos hne]
  by_cases h : decision a b i < 0
  · simp only [xSlopeVars, ofInt_step, ofInt_aside, decision_succ, h, if_true]
    rfl
  · simp only [xSlopeVars, ofInt_step, ofInt_aside, decision_succ, h, if_false]
    rfl

theorem yLineRound_vars {sx sy : ℤ} {i : ℕ} (hne : (ySlopeVars x0 y0 a b sx sy i).y0 ≠ y1) :
    yLineRound color y1 b a sx sy (ySlopeVars x0 y0 a b sx sy i) =
      (do plot color (ySlopePoint x0 y0 a b sx sy i); pure (.inl (ySlopeVars x0 y0 a b sx sy (i + 1)))) := by
  rw [yLineRound, if_pos hne]
  by_cases h : decision a b i < 0
  · simp only [ySlopeVars, ofInt_step, ofInt_aside, decision_succ, h, if_true]
    rfl
  · simp only [ySlopeVars, ofInt_step, ofInt_aside, decision_succ, h, if_false]
    rfl

theorem xSlope_draws {sx sy : ℤ} {round : LineVars → OledM (LineVars ⊕ LineVars)} (ha : 0 < a)
    (hsx : sx = 1 ∨ sx = -1) (hend : (x1.toNat : ℤ) = x0.toNat + sx * a)
    (hround : ∀ i : ℕ, i ≤ a.toNat → round (xSlopeVars x0 y0 a b sx sy i) =
      xLineRound color x1 a b sx sy (xSlopeVars x0 y0 a b sx sy i)) :
    Draws color (do
      let v ← Prog.loop round ⟨x0, y0, b * 2 - a⟩
      glcdPutPixel v.x0 v.y0 color) ((List.range (a.toNat + 1)).map (xSlopePoint x0 y0 a b sx sy)) := by
  have hna : ((a.toNat : ℕ) : ℤ) = a := Int.toNat_of_nonneg ha.le
  have hgo : ∀ i < a.toNat, round (xSlopeVars x0 y0 a b sx sy i) =
      (do plot color (xSlopePoint x0 y0 a b sx sy i); pure (.inl (xSlopeVars x0 y0 a b sx sy (i + 1)))) :=
    fun i hi => (hround i hi.le).trans (xLineRound_vars (coord_ne hsx hend (Int.natCast_nonneg i) (by omega)))
  have hstop : round (xSlopeVars x0 y0 a b sx sy a.toNat) =
      pure (.inr (xSlopeVars x0 y0 a b sx sy a.toNat)) := by
    rw [hround _ le_rfl]
    apply if_neg
    rw [xSlopeVars, hna, ← hend, ofInt_toNat]
    exact not_not_intro rfl
  rw [← @xSlopeVars_zero x0 y0 a b sx sy, List.range_succ, List.map_append, List.map_singleton, List.map_eq_flatMap]
  have hlast : Draws color (glcdPutPixel (xSlopeVars x0 y0 a b sx sy a.toNat).x0
      (xSlopeVars x0 y0 a b sx sy a.toNat).y0 color) [xSlopePoint x0 y0 a b sx sy a.toNat] :=
    draws_plot (xSlopePoint x0 y0 a b sx sy a.toNat)
  exact walk_draws (xSlopeVars x0 y0 a b sx sy) (fun i => plot color (xSlopePoint x0 y0 a b sx sy i)) _ a.toNat
    (fun i => draws_plot _) hgo hstop hlast

theorem ySlope_draws {sx sy : ℤ} {round : LineVars → OledM (LineVars ⊕ LineVars)} (ha : 0 < a)
    (hsy : sy = 1 ∨ sy = -1) (hend : (y1.toNat : ℤ) = y0.toNat + sy * a)
    (hround : ∀ i : ℕ, i ≤ a.toNat → round (ySlopeVars x0 y0 a b sx sy i) =
      yLineRound color y1 b a sx sy (ySlopeVars x0 y0 a b sx sy i)) :
    Draws color (do
      let v ← Prog.loop round ⟨x0, y0, b * 2 - a⟩
      glcdPutPixel v.x0 v.y0 color) ((List.range (a.toNat + 1)).map (ySlopePoint x0 y0 a b sx sy)) := by
  have hna : ((a.toNat : ℕ) : ℤ) = a := Int.toNat_of_nonneg ha.le
  have hgo : ∀ i < a.toNat, round (ySlopeVars x0 y0 a b sx sy i) =
      (do plot color (ySlopePoint x0 y0 a b sx sy i); pure (.inl (ySlopeVars x0 y0 a b sx sy (i + 1)))) :=
    fun i hi => (hround i hi.le).trans (yLineRound_vars (coord_ne hsy hend (Int.natCast_nonneg i) (by omega)))
  have hstop : round (ySlopeVars x0 y0 a b sx sy a.toNat) =
      pure (.inr (ySlopeVars x0 y0 a b sx sy a.toNat)) := by
    rw [hround _ le_rfl]
    apply if_neg
    rw [ySlopeVars, hna, ← hend, ofInt_toNat]
    exact not_not_intro rfl
  rw [← @ySlopeVars_zero x0 y0 a b sx sy, List.range_succ, List.map_append, List.map_singleton, List.map_eq_flatMap]
  have hlast : Draws color (glcdPutPixel (ySlopeVars x0 y0 a b sx sy a.toNat).x0
      (ySlopeVars x0 y0 a b sx sy a.toNat).y0 color) [ySlopePoint x0 y0 a b sx sy a.toNat] :=
    draws_plot (ySlopePoint x0 y0 a b sx sy a.toNat)
  exact walk_draws (ySlopeVars x0 y0 a b sx sy) (fun i => plot color (ySlopePoint x0 y0 a b sx sy i)) _ a.toNat
    (fun i => draws_plot _) hgo hstop hlast

/-- The line from one point to the other. -/
def lineShape (x0 y0 x1 y1 : UInt8) (X Y : ℤ) : Prop :=
  let dx : ℤ := x1.toNat - x0.toNat
  let dy : ℤ := y1.toNat - y0.toNat
  let i := dxSym dx * (X - x0.toNat)
  let j := dxSym dy * (Y - y0.toNat)
  if dx = 0 ∨ dy = 0 then fillRectShape x0 y0 x1 y1 X Y
  else if |dy| ≤ |dx| then NearLine |dx| |dy| i j
  else NearLine |dy| |dx| j i

theorem dxSym_mul (d : ℤ) : dxSym d * d = |d| := by
  rw [dxSym]
  split_ifs with h
  · rw [one_mul, abs_of_pos h]
  · rw [neg_one_mul, abs_of_nonpos (not_lt.mp h)]

theorem dxSym_cases (d : ℤ) : dxSym d = 1 ∨ dxSym d = -1 := ite_eq_or_eq _ _ _

theorem dxSym_abs (d : ℤ) : dxSym d * |d| = d := by
  rw [dxSym]
  split_ifs with h
  · rw [one_mul, abs_of_pos h]
  · rw [neg_one_mul, abs_of_nonpos (not_lt.mp h), neg_neg]

theorem sign_eq_iff {d p X k : ℤ} (hd : d = 1 ∨ d = -1) : d * (X - p) = k ↔ p + d * k = X := by
  rcases hd with rfl | rfl
  · omega
  · omega

theorem mem_xSlope {sx sy : ℤ} (ha : 0 < a) (hb : 0 ≤ b) (hab : b ≤ a) (hsx : sx = 1 ∨ sx = -1)
    (hsy : sy = 1 ∨ sy = -1) (q : ℤ × ℤ) : q ∈ (List.range (a.toNat + 1)).map (xSlopePoint x0 y0 a b sx sy) ↔
      NearLine a b (sx * (q.1 - x0.toNat)) (sy * (q.2 - y0.toNat)) := by
  simp only [nearLine_iff ha hb hab, List.mem_map, List.mem_range, xSlopePoint, Prod.ext_iff, sign_eq_iff hsx,
    sign_eq_iff hsy]
  apply exists_congr
  intro k
  apply and_congr_left'
  omega

theorem mem_ySlope {sx sy : ℤ} (ha : 0 < a) (hb : 0 ≤ b) (hab : b ≤ a) (hsx : sx = 1 ∨ sx = -1)
    (hsy : sy = 1 ∨ sy = -1) (q : ℤ × ℤ) : q ∈ (List.range (a.toNat + 1)).map (ySlopePoint x0 y0 a b sx sy) ↔
      NearLine a b (sy * (q.2 - y0.toNat)) (sx * (q.1 - x0.toNat)) := by
  simp only [nearLine_iff ha hb hab, List.mem_map, List.mem_range, ySlopePoint, Prod.ext_iff, sign_eq_iff hsx,
    sign_eq_iff hsy]
  apply exists_congr
  intro k
  rw [and_comm (a := x0.toNat + sx * aside a b k = q.1)]
  apply and_congr_left'
  omega

theorem line_draws (hv : x0 = x1 → max y0.toNat y1.toNat < 255) (hh : x0 ≠ x1 → y0 = y1 → max x0.toNat x1.toNat < 255) :
    ∃ l, Draws color (glcdLine color x0 y0 x1 y1) l ∧ ∀ a, a ∈ l ↔ lineShape x0 y0 x1 y1 a.1 a.2 := by
  have hxeq : ((x1.toNat : ℤ) - x0.toNat = 0) ↔ x0 = x1 := by
    rw [← UInt8.toNat_inj]
    omega
  have hyeq : ((y1.toNat : ℤ) - y0.toNat = 0) ↔ y0 = y1 := by
    rw [← UInt8.toNat_inj]
    omega
  by_cases hx : x0 = x1
  · have hdx := iff_true_intro (hxeq.mpr hx)
    simp only [glcdLine, lineShape, hdx, if_true, true_or]
    refine ⟨_, vLine_draws (hv hx), fun a => ?_⟩
    rw [mem_vPoints, fillRectShape, hx]
    omega
  · by_cases hy : y0 = y1
    · have hdx := iff_false_intro (mt hxeq.mp hx)
      have hdy := iff_true_intro (hyeq.mpr hy)
      simp only [glcdLine, lineShape, hdx, hdy, if_true, if_false, or_true]
      refine ⟨_, hLine_draws (hh hx hy), fun a => ?_⟩
      rw [mem_hPoints, fillRectShape, hy]
      omega
    · have hdx := abs_pos.mpr (mt hxeq.mp hx)
      have hdy := abs_pos.mpr (mt hyeq.mp hy)
      simp only [glcdLine, lineShape, hxeq, hyeq, hx, hy, if_false, or_false, dxSym_mul, ge_iff_le]
      by_cases hslope : |(y1.toNat : ℤ) - y0.toNat| ≤ |(x1.toNat : ℤ) - x0.toNat|
      · simp only [hslope, if_true]
        refine ⟨_, xSlope_draws hdx (dxSym_cases _) ?_ fun _ _ => rfl, mem_xSlope hdx hdy.le hslope (dxSym_cases _) (dxSym_cases _)⟩
        rw [dxSym_abs]
        omega
      · simp only [hslope, if_false]
        refine ⟨_, ySlope_draws hdy (dxSym_cases _) ?_ fun _ _ => rfl,
          mem_ySlope hdy hdx.le (not_le.mp hslope).le (dxSym_cases _) (dxSym_cases _)⟩
        rw [dxSym_abs]
        omega

theorem line_diverges (h : ¬((x0 = x1 → max y0.toNat y1.toNat < 255) ∧ (x0 ≠ x1 → y0 = y1 → max x0.toNat x1.toNat < 255))) :
    Diverges (glcdLine color x0 y0 x1 y1) := by
  have hxeq : ((x1.toNat : ℤ) - x0.toNat = 0) ↔ x0 = x1 := by
    rw [← UInt8.toNat_inj]
    omega
  have hyeq : ((y1.toNat : ℤ) - y0.toNat = 0) ↔ y0 = y1 := by
    rw [← UInt8.toNat_inj]
    omega
  by_cases hx : x0 = x1
  · have hend : 255 ≤ max y0.toNat y1.toNat := by
      by_contra hlt
      exact h ⟨fun _ => not_le.mp hlt, fun hne => absurd hx hne⟩
    simp only [glcdLine, iff_true_intro (hxeq.mpr hx), if_true]
    exact vLine_diverges hend
  · have hy : y0 = y1 := by
      by_contra hy
      exact h ⟨fun heq => absurd heq hx, fun _ heq => absurd heq hy⟩
    have hend : 255 ≤ max x0.toNat x1.toNat := by
      by_contra hlt
      exact h ⟨fun heq => absurd heq hx, fun _ _ => not_le.mp hlt⟩
    simp only [glcdLine, iff_false_intro (mt hxeq.mp hx), iff_true_intro (hyeq.mpr hy), if_true, if_false]
    exact hLine_diverges hend

end slope

end Lpc1788Libraries.Oled

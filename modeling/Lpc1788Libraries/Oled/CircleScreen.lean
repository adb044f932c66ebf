import Lpc1788Libraries.Oled.Painting

namespace Lpc1788Libraries.Oled

open Lpc1788Libraries.Support BoundedProgram

variable {color : OledColor} {x0 y0 r : UInt8} {R u v X Y : ℤ}

section midpoint

/-- The points on the axes and all reflections of the points that the decision variable leads to. -/
def Midpoint (R u v : ℤ) : Prop :=
  u = 0 ∧ |v| = R ∨ v = 0 ∧ |u| = R ∨ ∃ k < circleRounds R,
    |u| = (k : ℤ) + 1 ∧ |v| = yAt R (k + 1) ∨ |u| = yAt R (k + 1) ∧ |v| = (k : ℤ) + 1

theorem circleRounds_one {k : ℕ} (hk : k < circleRounds 1) : k = 0 := by
  have hlt := lt_yAt hk
  have hle := @yAt_le 1 k
  omega

theorem yAt_one : yAt 1 1 = 0 := by decide

theorem midpoint_one (h : Midpoint 1 u v) : OnCircle 1 u v := by
  have haxis : OnCircle 1 0 1 := (onCircle_axis (by omega)).mpr (Or.inl rfl)
  rw [← onCircle_abs]
  rcases h with ⟨rfl, hv⟩ | ⟨rfl, hu⟩ | ⟨k, hk, h⟩
  · rwa [abs_zero, hv]
  · rwa [abs_zero, hu, onCircle_comm]
  · rw [circleRounds_one hk, zero_add, yAt_one] at h
    rcases h with ⟨hu, hv⟩ | ⟨hu, hv⟩
    · rwa [hu, hv, onCircle_comm, Nat.cast_zero, zero_add]
    · rwa [hu, hv, Nat.cast_zero, zero_add]

theorem midpoint_onCircle (hR : 0 < R) (h : Midpoint R u v) : OnCircle R u v := by
  by_cases hone : R = 1
  · subst hone
    exact midpoint_one h
  have haxis : OnCircle R 0 R := (onCircle_axis hR).mpr (Or.inl rfl)
  rw [← onCircle_abs]
  rcases h with ⟨rfl, hv⟩ | ⟨rfl, hu⟩ | ⟨k, hk, ⟨hu, hv⟩ | ⟨hu, hv⟩⟩
  · rwa [abs_zero, hv]
  · rwa [abs_zero, hu, onCircle_comm]
  · rw [hu, hv]
    exact yAt_onCircle (by omega) hk
  · rw [hu, hv, onCircle_comm]
    exact yAt_onCircle (by omega) hk

theorem onCircle_midpoint (hR : 0 < R) (h : OnCircle R u v) : Midpoint R u v := by
  by_cases hu : u = 0
  · subst hu
    exact Or.inl ⟨rfl, (abs_eq hR.le).mpr ((onCircle_axis hR).mp h)⟩
  by_cases hv : v = 0
  · subst hv
    exact Or.inr (Or.inl ⟨rfl, (abs_eq hR.le).mpr ((onCircle_axis hR).mp (onCircle_comm.mp h))⟩)
  have hR' : 1 < R := by
    by_contra hle
    have hone : R = 1 := by omega
    subst hone
    rcases onCircle_one h with h0 | h0
    · exact hu h0
    · exact hv h0
  have hu' := abs_pos.mpr hu
  have hv' := abs_pos.mpr hv
  rw [← onCircle_abs] at h
  refine Or.inr (Or.inr ?_)
  rcases le_total |u| |v| with hle | hle
  · obtain ⟨k, hk, hx, hy⟩ := exists_yAt hR' hu' hle h
    exact ⟨k, hk, Or.inl ⟨hx, hy⟩⟩
  · obtain ⟨k, hk, hx, hy⟩ := exists_yAt hR' hv' hle (onCircle_comm.mp h)
    exact ⟨k, hk, Or.inr ⟨hy, hx⟩⟩

theorem midpoint_iff (hR : 0 < R) : Midpoint R u v ↔ OnCircle R u v := ⟨midpoint_onCircle hR, onCircle_midpoint hR⟩

end midpoint

section extent

theorem onCircle_extent (hR : 0 < R) (h : OnCircle R u v) : |u| ≤ R ∧ |v| ≤ R := by
  have hle : ∀ k m : ℤ, 0 ≤ k → k ≤ m → OnCircle R k m → m ≤ R := by
    intro k m hk hkm h
    obtain ⟨-, hhigh⟩ := (onCircle_of_le hk hkm).mp h
    by_contra hlt
    nlinarith
  rw [← onCircle_abs] at h
  rcases le_total |u| |v| with huv | huv
  · have hv := hle _ _ (abs_nonneg u) huv h
    exact ⟨huv.trans hv, hv⟩
  · have hu := hle _ _ (abs_nonneg v) huv (onCircle_comm.mp h)
    exact ⟨hu, huv.trans hu⟩

theorem onCircle_far {u' v' : ℤ} (hR : 0 < R) (h : OnCircle R u v) (h' : OnCircle R u' v') :
    u * u + v * v < u' * u' + v' * v' + 2 * R := by
  have hm := onCircle_extent hR h
  have hm' := onCircle_extent hR h'
  have hmax := max_le hm.1 hm.2
  have hmax' := max_le hm'.1 hm'.2
  linarith [h.2, h'.1]

end extent

section clipping

/-- What the points of the circle off the screen must be like, so that none of them shows up elsewhere: the
rows `64`, `256` and behind, `-192` and before and the column `128` pass all tests. -/
def KeepsClear (x0 y0 r : UInt8) : Prop := ∀ X Y : ℤ, circleShape x0 y0 r X Y → X ≠ x0.toNat → 0 ≤ X → X ≤ 128 →
  -192 < Y ∧ Y < 256 ∧ (Y = 64 → X < 128 ∧ circleShape x0 y0 r X 56) ∧
    (X = 128 → 0 ≤ Y → Y < 64 → Y ≠ y0.toNat → Y < 56 ∧ circleShape x0 y0 r 0 (Y + 8))

theorem guard_onScreen (hX : 0 ≤ X) (hX' : X < 128) (hY : 0 ≤ Y) (hY' : Y < 64) :
    circleGuard x0.toNat y0.toNat X Y := by
  unfold circleGuard
  split_ifs <;> omega

theorem not_circle_far {R X0 Y0 d e : ℤ} (hR : 0 < R) (hR' : R < 256) (hX0 : X0 < 128)
    (h : OnCircle R (X - X0) (Y - Y0)) (hd : d = X ∨ X = 128 ∧ d = 0)
    (hfar : 18000 ≤ (Y - Y0) * (Y - Y0) - (e - Y0) * (e - Y0)) : ¬OnCircle R (d - X0) (e - Y0) := by
  intro h'
  have hlt := onCircle_far hR h h'
  rcases hd with rfl | ⟨rfl, rfl⟩
  · linarith
  · have hcolumns : (0 - X0) * (0 - X0) ≤ (128 - X0) * (128 - X0) + 16384 := by linarith
    linarith

theorem Stays.column {shape : ℤ → ℤ → Prop} (h : Stays shape X Y) (hX : 0 ≤ X) (hX' : X ≤ 128) (hY : Y % 256 ≤ 64) :
    X < 128 ∧ shape X (if Y % 256 = 64 then 56 else Y % 256) ∨ X = 128 ∧ Y % 256 < 56 ∧ shape 0 (Y % 256 + 8) := by
  have hmod : X % 256 = X := by omega
  rw [Stays, hmod] at h
  exact h hX' hY

theorem keepsClear_of_stays (hr : r ≠ 0) (hx0 : x0.toNat < 128) (hy0 : y0.toNat < 64)
    (h : ∀ X Y : ℤ, circleShape x0 y0 r X Y → circleGuard x0.toNat y0.toNat X Y → Stays (circleShape x0 y0 r) X Y) :
    KeepsClear x0 y0 r := by
  intro X Y hshape hne hX hX'
  have hR : 0 < (r.toNat : ℤ) := by
    have hne : r.toNat ≠ 0 := fun h => hr (UInt8.toNat_inj.mp h)
    omega
  have hR' : (r.toNat : ℤ) < 256 := by exact_mod_cast r.toNat_lt
  have hextent := abs_le.mp (onCircle_extent hR hshape).2
  have hstays : Y ≠ y0.toNat → (Y ≤ 64 ∨ 0 ≤ Y) → Stays (circleShape x0 y0 r) X Y := by
    intro hY _
    apply h X Y hshape
    rw [circleGuard_off hne hY]
    omega
  refine ⟨?_, ?_, fun hY => ?_, fun hX128 hY hY' hoff => ?_⟩
  · by_contra hfar
    have hmod : Y % 256 = Y + 256 := by omega
    rcases (hstays (by omega) (Or.inl (by omega))).column hX hX' (by omega) with ⟨-, hland⟩ | ⟨h128, -, hland⟩
    · rw [hmod] at hland
      refine not_circle_far hR hR' (by omega) hshape (Or.inl rfl) ?_ hland
      split_ifs with hrow
      · have hY : Y = -192 := by omega
        rw [hY]
        linarith
      · linarith
    · rw [hmod] at hland
      refine not_circle_far hR hR' (by omega) hshape (Or.inr ⟨h128, rfl⟩) ?_ hland
      linarith
  · by_contra hfar
    have hmod : Y % 256 = Y - 256 := by omega
    rcases (hstays (by omega) (Or.inr (by omega))).column hX hX' (by omega) with ⟨-, hland⟩ | ⟨h128, -, hland⟩
    · rw [hmod, if_neg (by omega)] at hland
      refine not_circle_far hR hR' (by omega) hshape (Or.inl rfl) ?_ hland
      linarith
    · rw [hmod] at hland
      refine not_circle_far hR hR' (by omega) hshape (Or.inr ⟨h128, rfl⟩) ?_ hland
      linarith
  · rcases (hstays (by omega) (Or.inl (by omega))).column hX hX' (by omega) with ⟨hlt, hland⟩ | ⟨-, hlow, -⟩
    · rw [hY] at hland
      exact ⟨hlt, hland⟩
    · omega
  · rcases (hstays hoff (Or.inr hY)).column hX hX' (by omega) with ⟨hlt, -⟩ | ⟨-, hlow, hland⟩
    · omega
    · have hmod : Y % 256 = Y := by omega
      rw [hmod] at hlow hland
      exact ⟨hlow, hland⟩

theorem stays_onScreen {shape : ℤ → ℤ → Prop} (hX : 0 ≤ X) (hX' : X < 128) (hY : 0 ≤ Y) (hY' : Y < 64) (h : shape X Y) :
    Stays shape X Y := by
  intro _ _
  have hx : X % 256 = X := by omega
  have hy : Y % 256 = Y := by omega
  rw [hx, hy, if_neg (by omega)]
  exact Or.inl ⟨hX', h⟩

theorem KeepsClear.stays (hx0 : x0.toNat < 128) (hy0 : y0.toNat < 64) (h : KeepsClear x0 y0 r)
    (hshape : circleShape x0 y0 r X Y) (hguard : circleGuard x0.toNat y0.toNat X Y) : Stays (circleShape x0 y0 r) X Y := by
  by_cases hX : X = x0.toNat
  · rw [circleGuard, if_pos hX] at hguard
    have hY : 0 ≤ Y ∧ Y < 64 := by
      split_ifs at hguard <;> omega
    exact stays_onScreen (by omega) (by omega) hY.1 hY.2 hshape
  by_cases hY : Y = y0.toNat
  · rw [circleGuard, if_neg hX, if_pos hY] at hguard
    have hX' : 0 ≤ X ∧ X < 128 := by
      split_ifs at hguard <;> omega
    exact stays_onScreen hX'.1 hX'.2 (by omega) (by omega) hshape
  rw [circleGuard_off hX hY] at hguard
  have hX' : 0 ≤ X ∧ X ≤ 128 := by omega
  obtain ⟨hlow, hhigh, hrow, hcolumn⟩ := h X Y hshape hX hX'.1 hX'.2
  intro hx hy
  have hx' : X % 256 = X := by omega
  have hy' : Y % 256 = Y := by omega
  rw [hx', hy']
  by_cases hY64 : Y = 64
  · rw [if_pos hY64]
    exact Or.inl (hrow hY64)
  rw [if_neg hY64]
  by_cases hX128 : X = 128
  · exact Or.inr ⟨hX128, hcolumn hX128 (by omega) (by omega) hY⟩
  · exact Or.inl ⟨by omega, hshape⟩

theorem circle_paints_shape (hr : r ≠ 0) (hx0 : x0.toNat < 128) (hy0 : y0.toNat < 64) :
    Paints color (circleShape x0 y0 r) (glcdCircle color x0 y0 r) ↔ KeepsClear x0 y0 r := by
  obtain ⟨l, hdraws, hmem⟩ := @circle_draws color x0 y0 r
  rw [hdraws.paints_iff]
  constructor
  · rintro ⟨hharmless, -⟩
    apply keepsClear_of_stays hr hx0 hy0
    intro X Y hshape hguard
    exact harmless_iff.mp (hharmless (X, Y) ((hmem _).mpr ⟨hshape, hguard⟩))
  · intro h
    constructor
    · intro a ha
      obtain ⟨hshape, hguard⟩ := (hmem a).mp ha
      exact harmless_iff.mpr (h.stays hx0 hy0 hshape hguard)
    · intro X Y hX hY hshape
      refine ⟨_, (hmem (X, Y)).mpr ⟨hshape, guard_onScreen ?_ ?_ ?_ ?_⟩, passes_onScreen hX hY, lands_onScreen hX hY⟩
      all_goals omega

/-- The circle as the algorithm computes it, on the screen or not. -/
def midpointCircle (x0 y0 r : UInt8) (X Y : ℤ) : Prop := Midpoint r.toNat (X - x0.toNat) (Y - y0.toNat)

theorem circle_paints_iff (hr : r ≠ 0) (hx0 : x0.toNat < oledDisplayWidth) (hy0 : y0.toNat < oledDisplayHeight) :
    (∀ color, Paints color (midpointCircle x0 y0 r) (glcdCircle color x0 y0 r)) ↔ KeepsClear x0 y0 r := by
  have hR : 0 < (r.toNat : ℤ) := by
    have hne : r.toNat ≠ 0 := fun h => hr (UInt8.toNat_inj.mp h)
    omega
  have hshape : midpointCircle x0 y0 r = circleShape x0 y0 r := by
    funext X Y
    exact propext (midpoint_iff hR)
  rw [hshape]
  constructor
  · intro h
    exact (circle_paints_shape hr hx0 hy0).mp (h .white)
  · intro h color
    exact (circle_paints_shape hr hx0 hy0).mpr h

theorem circle_paints_iff_middle : Paints .white (midpointCircle 64 32 20) (glcdCircle .white 64 32 20) ∧
    Paints .black (midpointCircle 64 32 20) (glcdCircle .black 64 32 20) := by
  have hclear : KeepsClear 64 32 20 := by
    intro X Y h _ _ _
    obtain ⟨hu, hv⟩ := onCircle_extent (by decide) h
    simp only [UInt8.reduceToNat, Nat.cast_ofNat, abs_le] at hu hv
    omega
  have hpaints := (circle_paints_iff (by decide) (by decide) (by decide)).mpr hclear
  exact ⟨hpaints .white, hpaints .black⟩

/-- The row below the screen shows up in row `56`. -/
theorem circle_reappears : ¬∀ x0 y0 r : UInt8, x0.toNat < oledDisplayWidth → y0.toNat < oledDisplayHeight → r ≠ 0 →
    ∀ color, Paints color (midpointCircle x0 y0 r) (glcdCircle color x0 y0 r) := by
  intro h
  have hpaints := h 64 62 5 (by decide) (by decide) (by decide) .white
  have hshape : midpointCircle 64 62 5 = circleShape 64 62 5 := by
    funext X Y
    exact propext (midpoint_iff (by decide))
  rw [hshape, circle_paints_shape (by decide) (by decide) (by decide)] at hpaints
  have hon : circleShape 64 62 5 69 64 := by
    unfold circleShape OnCircle
    decide
  have hoff : ¬circleShape 64 62 5 69 56 := by
    unfold circleShape OnCircle
    decide
  exact hoff ((hpaints 69 64 hon (by decide) (by decide) (by decide)).2.2.1 rfl).2

end clipping

end Lpc1788Libraries.Oled

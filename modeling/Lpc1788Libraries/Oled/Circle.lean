import Lpc1788Libraries.Oled.Slopes
import Mathlib.Algebra.Order.Ring.Abs

namespace Lpc1788Libraries.Oled

open Lpc1788Libraries.Support BoundedProgram

variable {s t : State} {color : OledColor} {x0 y0 r : UInt8} {R k y u v : ℤ}

section geometry

/-- The circle of radius `R` crosses the stretch of one pixel around the point, in the direction of
its larger coordinate. -/
def OnCircle (R u v : ℤ) : Prop :=
  -(max |u| |v|) ≤ u * u + v * v - R * R ∧ u * u + v * v - R * R < max |u| |v|

theorem onCircle_comm : OnCircle R u v ↔ OnCircle R v u := by
  rw [OnCircle, OnCircle, max_comm, add_comm (u * u)]

theorem onCircle_abs : OnCircle R |u| |v| ↔ OnCircle R u v := by
  rw [OnCircle, OnCircle, abs_abs, abs_abs, abs_mul_abs_self, abs_mul_abs_self]

theorem onCircle_of_le (hk : 0 ≤ k) (hky : k ≤ y) :
    OnCircle R k y ↔ -y ≤ k * k + y * y - R * R ∧ k * k + y * y - R * R < y := by
  rw [OnCircle, abs_of_nonneg hk, abs_of_nonneg (hk.trans hky), max_eq_right hky]

theorem onCircle_axis (hR : 0 < R) : OnCircle R 0 v ↔ v = R ∨ v = -R := by
  rw [← onCircle_abs, abs_zero, onCircle_of_le le_rfl (abs_nonneg v), ← abs_eq hR.le]
  have hv := abs_nonneg v
  constructor
  · rintro ⟨h, h'⟩
    rcases lt_trichotomy |v| R with hlt | heq | hgt
    · nlinarith
    · exact heq
    · nlinarith
  · intro h
    rw [h]
    constructor <;> linarith

theorem onCircle_unique {m : ℤ} (hm : 0 ≤ m) (hy : 0 ≤ y) (h : -m ≤ k * k + m * m - R * R)
    (h' : k * k + m * m - R * R < m) (hy' : -y ≤ k * k + y * y - R * R) (hy'' : k * k + y * y - R * R < y) : m = y := by
  rcases lt_trichotomy m y with hlt | heq | hgt
  · nlinarith
  · exact heq
  · nlinarith

/-- `yy` after `k` rounds. -/
def yAt (R : ℤ) : ℕ → ℤ
  | 0 => R
  | k + 1 => if 2 * ((k : ℤ) + 1) * (k + 1) + yAt R k * yAt R k + (yAt R k - 1) * (yAt R k - 1) - 2 * R * R < 0 then yAt R k
    else yAt R k - 1

def diAt (R : ℤ) (k : ℕ) : ℤ :=
  2 * ((k : ℤ) + 1) * (k + 1) + yAt R k * yAt R k + (yAt R k - 1) * (yAt R k - 1) - 2 * R * R

theorem yAt_succ (k : ℕ) : yAt R (k + 1) = if diAt R k < 0 then yAt R k else yAt R k - 1 := rfl

theorem yAt_le (k : ℕ) : yAt R k ≤ R := by
  induction k with
  | zero => exact le_rfl
  | succ k ih =>
    rw [yAt_succ]
    split_ifs
    · exact ih
    · omega

theorem exists_end (R : ℤ) : ∃ k : ℕ, yAt R k ≤ k := ⟨R.toNat, (yAt_le _).trans (Int.self_le_toNat R)⟩

/-- How often the loop of `GLCD_circle` goes round. -/
def circleRounds (R : ℤ) : ℕ := Nat.find (exists_end R)

theorem lt_yAt {k : ℕ} (hk : k < circleRounds R) : (k : ℤ) < yAt R k :=
  not_le.mp (Nat.find_min (exists_end R) hk)

theorem yAt_end : yAt R (circleRounds R) ≤ circleRounds R := Nat.find_spec (exists_end R)

theorem yAt_crossing (hR : 0 < R) {k : ℕ} (hk : k < circleRounds R) :
    -yAt R k ≤ k * k + yAt R k * yAt R k - R * R ∧ k * k + yAt R k * yAt R k - R * R < yAt R k := by
  induction k with
  | zero =>
    rw [yAt]
    constructor <;> push_cast <;> linarith
  | succ k ih =>
    obtain ⟨hlow, hhigh⟩ := ih (Nat.lt_of_succ_lt hk)
    have hlt := lt_yAt (Nat.lt_of_succ_lt hk)
    have hlt' := lt_yAt hk
    have hk0 : (0 : ℤ) ≤ k := Int.natCast_nonneg k
    have hd : diAt R k = 2 * ((k + 1) * (k + 1) + yAt R k * yAt R k - R * R) - 2 * yAt R k + 1 := by
      rw [diAt]
      ring
    rw [yAt_succ] at hlt' ⊢
    push_cast at hlt' ⊢
    split_ifs at hlt' ⊢ with h
    · constructor <;> nlinarith
    · constructor <;> nlinarith

theorem yAt_next (hR : 1 < R) {k : ℕ} (hk : k < circleRounds R) : 0 < yAt R (k + 1) ∧
    -yAt R (k + 1) ≤ (k + 1) * (k + 1) + yAt R (k + 1) * yAt R (k + 1) - R * R ∧
    (k + 1) * (k + 1) + yAt R (k + 1) * yAt R (k + 1) - R * R < max ((k : ℤ) + 1) (yAt R (k + 1)) := by
  obtain ⟨hlow, hhigh⟩ := yAt_crossing (by omega) hk
  have hlt := lt_yAt hk
  have hk0 : (0 : ℤ) ≤ k := Int.natCast_nonneg k
  have hd : diAt R k = 2 * ((k + 1) * (k + 1) + yAt R k * yAt R k - R * R) - 2 * yAt R k + 1 := by
    rw [diAt]
    ring
  have hmax := le_max_right ((k : ℤ) + 1) (yAt R (k + 1))
  have hmax' := le_max_left ((k : ℤ) + 1) (yAt R (k + 1))
  generalize max ((k : ℤ) + 1) _ = m at hmax hmax' ⊢
  rw [yAt_succ] at hmax ⊢
  split_ifs at hmax ⊢ with h
  · refine ⟨by omega, ?_, ?_⟩ <;> nlinarith
  · refine ⟨?_, ?_, ?_⟩
    · by_contra hle
      have hy : yAt R k = 1 := by omega
      have hk' : (k : ℤ) = 0 := by omega
      rw [hy, hk'] at hlow
      nlinarith
    · nlinarith
    · nlinarith

theorem yAt_onCircle (hR : 1 < R) {k : ℕ} (hk : k < circleRounds R) : OnCircle R ((k : ℤ) + 1) (yAt R (k + 1)) := by
  obtain ⟨hpos, hlow, hhigh⟩ := yAt_next hR hk
  rw [OnCircle, abs_of_nonneg (by omega), abs_of_pos hpos]
  exact ⟨(neg_le_neg (le_max_right _ _)).trans hlow, hhigh⟩

theorem exists_yAt (hR : 1 < R) {m : ℤ} (hk : 0 < k) (hkm : k ≤ m) (h : OnCircle R k m) :
    ∃ i < circleRounds R, k = (i : ℤ) + 1 ∧ m = yAt R (i + 1) := by
  have hrounds : 0 < circleRounds R := by
    by_contra hzero
    have hend := @yAt_end R
    rw [Nat.eq_zero_of_not_pos hzero, yAt] at hend
    push_cast at hend
    omega
  obtain ⟨i, hi⟩ : ∃ i : ℕ, circleRounds R = i + 1 := ⟨circleRounds R - 1, by omega⟩
  obtain ⟨hlow, hhigh⟩ := (onCircle_of_le hk.le hkm).mp h
  by_cases hlt : k ≤ i
  · obtain ⟨j, hj⟩ : ∃ j : ℕ, k = (j : ℤ) + 1 := ⟨(k - 1).toNat, by omega⟩
    have hcross := yAt_crossing (by omega) (show j + 1 < circleRounds R by omega)
    have hpos := (yAt_next hR (show j < circleRounds R by omega)).1
    push_cast at hcross
    rw [← hj] at hcross
    exact ⟨j, by omega, hj, onCircle_unique (by omega) hpos.le hlow hhigh hcross.1 hcross.2⟩
  · -- from the last round on there is only the point on the diagonal
    obtain ⟨hpos, hlow', -⟩ := yAt_next hR (show i < circleRounds R by omega)
    have hend := @yAt_end R
    rw [hi] at hend
    push_cast at hend
    have hki : (i : ℤ) + 1 ≤ k := by omega
    have hy : yAt R (i + 1) = i + 1 := by
      by_contra hne
      have hy : yAt R (i + 1) ≤ i := by omega
      nlinarith
    have hk' : k = i + 1 := by
      by_contra hne
      have hgt : (i : ℤ) + 2 ≤ k := by omega
      rw [hy] at hlow'
      nlinarith
    have hm : m = i + 1 := by
      by_contra hne
      have hgt : (i : ℤ) + 2 ≤ m := by omega
      rw [hy] at hlow'
      nlinarith
    exact ⟨i, by omega, hk', by rw [hm, hy]⟩

end geometry

section loop

variable {X0 Y0 X Y : ℤ}

def circleVarsAt (X0 Y0 R : ℤ) (k : ℕ) : CircleVars where
  x := ![X0 + k, X0 - k, X0 + k, X0 - k, X0 + yAt R k, X0 - yAt R k, X0 + yAt R k, X0 - yAt R k]
  y := ![Y0 + yAt R k, Y0 + yAt R k, Y0 - yAt R k, Y0 - yAt R k, Y0 + k, Y0 + k, Y0 - k, Y0 - k]
  xx := k
  yy := yAt R k
  di := diAt R k

theorem diAt_succ (k : ℕ) : diAt R (k + 1) =
    if diAt R k < 0 then diAt R k + (4 * k + 6) else diAt R k + (4 * (k - yAt R k) + 10) := by
  rw [diAt, yAt_succ]
  split_ifs
  · rw [diAt]
    push_cast
    ring
  · rw [diAt]
    push_cast
    ring

theorem circleVarsAt_zero : circleVarsAt X0 Y0 R 0 = circleStart X0 Y0 R := by
  have hdi : diAt R 0 = 3 - 2 * R := by
    rw [diAt, yAt]
    push_cast
    ring
  simp only [circleVarsAt, circleStart, hdi, yAt, Nat.cast_zero, add_zero, sub_zero]

theorem circleVarsAt_next (k : ℕ) : (circleVarsAt X0 Y0 R k).next = circleVarsAt X0 Y0 R (k + 1) := by
  have hadd : ∀ a b : ℤ, a + b + 1 = a + (b + 1) := fun a b => add_assoc a b 1
  have hsub : ∀ a b : ℤ, a - b - 1 = a - (b + 1) := fun a b => by ring
  have hback : ∀ a b : ℤ, a + b - 1 = a + (b - 1) := fun a b => by ring
  have hforth : ∀ a b : ℤ, a - b + 1 = a - (b - 1) := fun a b => by ring
  rw [CircleVars.next]
  by_cases h : diAt R k < 0
  · simp [circleVarsAt, CircleVars.sideways, h, yAt_succ, diAt_succ, hadd, hsub]
  · simp [circleVarsAt, CircleVars.sideways, CircleVars.inwards, h, yAt_succ, diAt_succ, hadd, hsub, hback, hforth]

theorem putPixelIf_draws {c : Prop} [Decidable c] : Draws color (putPixelIf color c X Y) (if c then [(X, Y)] else []) := by
  rw [putPixelIf]
  split_ifs
  · exact draws_plot (X, Y)
  · exact draws_nil

theorem circleRound_go {v : CircleVars} (h : v.xx < v.yy) :
    circleRound color v = (do circlePlots color v.next; pure (.inl v.next)) := if_pos h

/-- The points of one round that pass their tests. -/
def circlePoints (X0 Y0 k y : ℤ) : List (ℤ × ℤ) :=
  (if X0 + k ≤ 128 ∧ Y0 + y ≥ 0 then [(X0 + k, Y0 + y)] else []) ++
  ((if X0 - k ≥ 0 ∧ Y0 + y ≥ 0 then [(X0 - k, Y0 + y)] else []) ++
  ((if X0 + k ≤ 128 ∧ Y0 - y ≤ 64 then [(X0 + k, Y0 - y)] else []) ++
  ((if X0 - k ≥ 0 ∧ Y0 - y ≤ 64 then [(X0 - k, Y0 - y)] else []) ++
  ((if X0 + y ≤ 128 ∧ Y0 + k ≥ 0 then [(X0 + y, Y0 + k)] else []) ++
  ((if X0 - y ≥ 0 ∧ Y0 + k ≥ 0 then [(X0 - y, Y0 + k)] else []) ++
  ((if X0 + y ≤ 128 ∧ Y0 - k ≤ 64 then [(X0 + y, Y0 - k)] else []) ++
  (if X0 - y ≥ 0 ∧ Y0 - k ≤ 64 then [(X0 - y, Y0 - k)] else [])))))))

theorem circlePlots_draws (k : ℕ) :
    Draws color (circlePlots color (circleVarsAt X0 Y0 R k)) (circlePoints X0 Y0 k (yAt R k)) :=
  putPixelIf_draws.seq (putPixelIf_draws.seq (putPixelIf_draws.seq (putPixelIf_draws.seq (putPixelIf_draws.seq
    (putPixelIf_draws.seq (putPixelIf_draws.seq putPixelIf_draws))))))

/-- The tests that `GLCD_circle` makes on a point before it plots it. -/
def circleGuard (X0 Y0 X Y : ℤ) : Prop :=
  if X = X0 then if Y0 < Y then Y < 64 else 0 ≤ Y
  else if Y = Y0 then if X0 < X then X < 128 else 0 ≤ X
  else (X0 < X → X ≤ 128) ∧ (X < X0 → 0 ≤ X) ∧ (Y0 < Y → 0 ≤ Y) ∧ (Y < Y0 → Y ≤ 64)

theorem mem_ite_singleton {c : Prop} [Decidable c] {q p : ℤ × ℤ} :
    q ∈ (if c then [p] else []) ↔ c ∧ q.1 = p.1 ∧ q.2 = p.2 := by
  split_ifs with h
  · rw [List.mem_singleton, Prod.ext_iff, and_iff_right h]
  · exact ⟨fun hq => absurd hq List.not_mem_nil, fun hq => absurd hq.1 h⟩

theorem circleGuard_off (hX : X ≠ X0) (hY : Y ≠ Y0) : circleGuard X0 Y0 X Y ↔
    (X0 < X → X ≤ 128) ∧ (X < X0 → 0 ≤ X) ∧ (Y0 < Y → 0 ≤ Y) ∧ (Y < Y0 → Y ≤ 64) := by
  rw [circleGuard, if_neg hX, if_neg hY]

theorem mem_circlePoints (hX0 : 0 ≤ X0) (hY0 : 0 ≤ Y0) {k : ℕ} (hk : 0 < k) (hy : 0 < yAt R k) (q : ℤ × ℤ) :
    q ∈ circlePoints X0 Y0 k (yAt R k) ↔ (|q.1 - X0| = k ∧ |q.2 - Y0| = yAt R k ∨
      |q.1 - X0| = yAt R k ∧ |q.2 - Y0| = k) ∧ circleGuard X0 Y0 q.1 q.2 := by
  have hk' : (0 : ℤ) ≤ k := Int.natCast_nonneg k
  simp only [circlePoints, List.mem_append, mem_ite_singleton, abs_eq hk', abs_eq hy.le]
  generalize yAt R k = y at hy
  constructor
  · intro h
    have hX : q.1 ≠ X0 := by omega
    have hY : q.2 ≠ Y0 := by omega
    rw [circleGuard_off hX hY]
    omega
  · rintro ⟨h, hguard⟩
    have hX : q.1 ≠ X0 := by omega
    have hY : q.2 ≠ Y0 := by omega
    rw [circleGuard_off hX hY] at hguard
    obtain ⟨h1, h2, h3, h4⟩ := hguard
    rcases h with ⟨hu | hu, hv | hv⟩ | ⟨hu | hu, hv | hv⟩
    · exact Or.inl ⟨⟨by omega, by omega⟩, by omega, by omega⟩
    · exact Or.inr (Or.inr (Or.inl ⟨⟨by omega, by omega⟩, by omega, by omega⟩))
    · exact Or.inr (Or.inl ⟨⟨by omega, by omega⟩, by omega, by omega⟩)
    · exact Or.inr (Or.inr (Or.inr (Or.inl ⟨⟨by omega, by omega⟩, by omega, by omega⟩)))
    · exact Or.inr (Or.inr (Or.inr (Or.inr (Or.inl ⟨⟨by omega, by omega⟩, by omega, by omega⟩))))
    · exact Or.inr (Or.inr (Or.inr (Or.inr (Or.inr (Or.inr (Or.inl ⟨⟨by omega, by omega⟩, by omega, by omega⟩))))))
    · exact Or.inr (Or.inr (Or.inr (Or.inr (Or.inr (Or.inl ⟨⟨by omega, by omega⟩, by omega, by omega⟩)))))
    · exact Or.inr (Or.inr (Or.inr (Or.inr (Or.inr (Or.inr (Or.inr ⟨⟨by omega, by omega⟩, by omega, by omega⟩))))))

/-- The points on the axes, which are plotted in front of the loop. -/
def axisPoints (X0 Y0 R : ℤ) : List (ℤ × ℤ) :=
  (if Y0 + R < 64 then [(X0, Y0 + R)] else []) ++ ((if Y0 - R ≥ 0 then [(X0, Y0 - R)] else []) ++
    ((if X0 + R < 128 then [(X0 + R, Y0)] else []) ++ (if X0 - R ≥ 0 then [(X0 - R, Y0)] else [])))

theorem mem_axisPoints (hR : 0 < R) (q : ℤ × ℤ) : q ∈ axisPoints X0 Y0 R ↔
    (q.1 = X0 ∨ q.2 = Y0) ∧ OnCircle R (q.1 - X0) (q.2 - Y0) ∧ circleGuard X0 Y0 q.1 q.2 := by
  simp only [axisPoints, List.mem_append, mem_ite_singleton]
  by_cases hX : q.1 = X0
  · have hzero : q.1 - X0 = 0 := by omega
    rw [hzero, onCircle_axis hR, circleGuard, if_pos hX]
    split_ifs <;> omega
  · by_cases hY : q.2 = Y0
    · have hzero : q.2 - Y0 = 0 := by omega
      rw [hzero, onCircle_comm, onCircle_axis hR, circleGuard, if_neg hX, if_pos hY]
      split_ifs <;> omega
    · omega

theorem mem_loopPoints (hX0 : 0 ≤ X0) (hY0 : 0 ≤ Y0) (hR : 1 < R) (q : ℤ × ℤ) :
    q ∈ (List.range (circleRounds R)).flatMap (fun i => circlePoints X0 Y0 (i + 1 : ℕ) (yAt R (i + 1))) ↔
      ¬(q.1 = X0 ∨ q.2 = Y0) ∧ OnCircle R (q.1 - X0) (q.2 - Y0) ∧ circleGuard X0 Y0 q.1 q.2 := by
  rw [List.mem_flatMap]
  constructor
  · rintro ⟨i, hi, hq⟩
    have hi := List.mem_range.mp hi
    have hpos := (yAt_next hR hi).1
    have hon := yAt_onCircle hR hi
    obtain ⟨h, hguard⟩ := (mem_circlePoints hX0 hY0 (Nat.add_one_pos i) hpos q).mp hq
    push_cast at h
    rw [← onCircle_abs]
    have hi0 : (0 : ℤ) ≤ i := Int.natCast_nonneg i
    refine ⟨?_, ?_, hguard⟩
    · rintro (heq | heq)
      · rw [heq, sub_self, abs_zero] at h
        rcases h with ⟨h, -⟩ | ⟨h, -⟩
        · omega
        · omega
      · rw [heq, sub_self, abs_zero] at h
        rcases h with ⟨-, h⟩ | ⟨-, h⟩
        · omega
        · omega
    · rcases h with ⟨hu, hv⟩ | ⟨hu, hv⟩
      · rw [hu, hv]
        exact hon
      · rw [hu, hv, onCircle_comm]
        exact hon
  · rintro ⟨hoff, hon, hguard⟩
    have hu : 0 < |q.1 - X0| := abs_pos.mpr fun h => hoff (Or.inl (by omega))
    have hv : 0 < |q.2 - Y0| := abs_pos.mpr fun h => hoff (Or.inr (by omega))
    rw [← onCircle_abs] at hon
    rcases le_total |q.1 - X0| |q.2 - Y0| with hle | hle
    · obtain ⟨i, hi, hk, hm⟩ := exists_yAt hR hu hle hon
      have hpos := (yAt_next hR hi).1
      refine ⟨i, List.mem_range.mpr hi, (mem_circlePoints hX0 hY0 (Nat.add_one_pos i) hpos q).mpr ⟨Or.inl ⟨?_, hm⟩, hguard⟩⟩
      push_cast
      exact hk
    · obtain ⟨i, hi, hk, hm⟩ := exists_yAt hR hv hle (onCircle_comm.mp hon)
      have hpos := (yAt_next hR hi).1
      refine ⟨i, List.mem_range.mpr hi, (mem_circlePoints hX0 hY0 (Nat.add_one_pos i) hpos q).mpr ⟨Or.inr ⟨hm, ?_⟩, hguard⟩⟩
      push_cast
      exact hk

theorem circleLoop_draws : Draws color (Prog.loop (circleRound color) (circleStart X0 Y0 R))
    ((List.range (circleRounds R)).flatMap fun i => circlePoints X0 Y0 (i + 1 : ℕ) (yAt R (i + 1))) := by
  have hgo : ∀ i < circleRounds R, circleRound color (circleVarsAt X0 Y0 R i) =
      (do circlePlots color (circleVarsAt X0 Y0 R (i + 1)); pure (.inl (circleVarsAt X0 Y0 R (i + 1)))) := by
    intro i hi
    rw [circleRound_go (lt_yAt hi), circleVarsAt_next]
  have hstop : circleRound color (circleVarsAt X0 Y0 R (circleRounds R)) = pure (.inr ()) :=
    if_neg (not_lt.mpr yAt_end)
  have h := walk_draws (circleVarsAt X0 Y0 R) (fun i => circlePlots color (circleVarsAt X0 Y0 R (i + 1))) _ (circleRounds R)
    (fun i => circlePlots_draws (i + 1)) hgo hstop draws_nil
  rw [List.append_nil, circleVarsAt_zero] at h
  exact h.congr fun s r t => by rw [bind_pure]

end loop

def circleShape (x0 y0 r : UInt8) (X Y : ℤ) : Prop := OnCircle r.toNat (X - x0.toNat) (Y - y0.toNat)

theorem onCircle_zero : ¬OnCircle 0 u v := by
  rintro ⟨-, h⟩
  have hu := abs_mul_abs_self u
  have hv := abs_mul_abs_self v
  have hu' := abs_nonneg u
  have hv' := abs_nonneg v
  rcases max_cases |u| |v| with ⟨hmax, -⟩ | ⟨hmax, -⟩
  · rw [hmax] at h
    nlinarith
  · rw [hmax] at h
    nlinarith

theorem onCircle_one (h : OnCircle 1 u v) : u = 0 ∨ v = 0 := by
  by_contra hne
  obtain ⟨hu0, hv0⟩ := not_or.mp hne
  obtain ⟨-, h⟩ := h
  have hu := abs_mul_abs_self u
  have hv := abs_mul_abs_self v
  have hu' := abs_pos.mpr hu0
  have hv' := abs_pos.mpr hv0
  rcases max_cases |u| |v| with ⟨hmax, -⟩ | ⟨hmax, -⟩
  · rw [hmax] at h
    nlinarith
  · rw [hmax] at h
    nlinarith

theorem axis_draws {X0 Y0 : ℤ} {q : OledM Unit} {l : List (ℤ × ℤ)} (hq : Draws color q l) : Draws color (do
    putPixelIf color (Y0 + R < 64) X0 (Y0 + R)
    putPixelIf color (Y0 - R ≥ 0) X0 (Y0 - R)
    putPixelIf color (X0 + R < 128) (X0 + R) Y0
    putPixelIf color (X0 - R ≥ 0) (X0 - R) Y0
    q) (axisPoints X0 Y0 R ++ l) := by
  rw [axisPoints, List.append_assoc, List.append_assoc, List.append_assoc]
  exact putPixelIf_draws.seq (putPixelIf_draws.seq (putPixelIf_draws.seq (putPixelIf_draws.seq hq)))

theorem circle_draws : ∃ l, Draws color (glcdCircle color x0 y0 r) l ∧
    ∀ a, a ∈ l ↔ circleShape x0 y0 r a.1 a.2 ∧ circleGuard x0.toNat y0.toNat a.1 a.2 := by
  rw [glcdCircle]
  by_cases h0 : r = 0
  · rw [if_pos h0, h0]
    refine ⟨_, draws_nil, fun a => ?_⟩
    exact iff_of_false List.not_mem_nil fun h => onCircle_zero h.1
  · have hpos : 0 < (r.toNat : ℤ) := by
      have hne : r.toNat ≠ 0 := fun h => h0 (UInt8.toNat_inj.mp h)
      omega
    rw [if_neg h0]
    by_cases h1 : r = 1
    · have hone : (r.toNat : ℤ) = 1 := by
        rw [h1]
        rfl
      simp only [if_pos hone]
      refine ⟨_, axis_draws draws_nil, fun a => ?_⟩
      rw [List.append_nil, mem_axisPoints hpos, circleShape]
      refine ⟨fun h => h.2, fun h => ⟨?_, h⟩⟩
      rw [hone] at h
      rcases onCircle_one h.1 with heq | heq
      · exact Or.inl (by omega)
      · exact Or.inr (by omega)
    · have hbig : 1 < (r.toNat : ℤ) := by
        have hne : r.toNat ≠ 1 := fun h => h1 (UInt8.toNat_inj.mp h)
        omega
      simp only [if_neg hbig.ne']
      refine ⟨_, axis_draws circleLoop_draws, fun a => ?_⟩
      rw [List.mem_append, mem_axisPoints hpos,
        mem_loopPoints (Int.natCast_nonneg _) (Int.natCast_nonneg _) hbig, circleShape, ← or_and_right]
      exact and_iff_right (em _)

end Lpc1788Libraries.Oled

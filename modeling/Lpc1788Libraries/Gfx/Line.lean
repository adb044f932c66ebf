import Lpc1788Libraries.Gfx.Points
import Lpc1788Libraries.Support.PixelChain

namespace Lpc1788Libraries.Gfx

open Lpc1788Libraries.Support BoundedProgram PixelChain

variable {s : Lcd} {color : UInt32}

section words

variable {x y : UInt16} {w v : UInt32} {n : Int32} {z : ℤ}

theorem toInt32_toInt (hlow : -(2 ^ 31) ≤ z) (hhigh : z < 2 ^ 31) (h : (w.toNat : ℤ) % 2 ^ 32 = z % 2 ^ 32) :
    w.toInt32.toInt = z := by
  have hw := w.toNat_lt
  change w.toBitVec.toInt = z
  rw [BitVec.toInt_eq_toNat_cond, UInt32.toNat_toBitVec]
  split_ifs <;> omega

theorem toUInt32_toNat : (n.toUInt32.toNat : ℤ) = n.toInt % 2 ^ 32 := by
  have hn := n.toUInt32.toNat_lt
  have h : n.toInt = n.toUInt32.toBitVec.toInt := rfl
  rw [h, BitVec.toInt_eq_toNat_cond, UInt32.toNat_toBitVec]
  split_ifs <;> omega

theorem error_add (hlow : -70000 ≤ n.toInt) (hhigh : n.toInt ≤ 70000) (hw : w.toNat < 65536) :
    (n.toUInt32 + w).toInt32.toInt = n.toInt + w.toNat := by
  have hn := @toUInt32_toNat n
  apply toInt32_toInt
  · omega
  · omega
  · rw [UInt32.toNat_add]
    omega

theorem error_sub (hlow : -70000 ≤ n.toInt) (hhigh : n.toInt ≤ 70000) (hw : w.toNat < 65536) :
    (n.toUInt32 - w).toInt32.toInt = n.toInt - w.toNat := by
  have hn := @toUInt32_toNat n
  apply toInt32_toInt
  · omega
  · omega
  · rw [UInt32.toNat_sub]
    omega

theorem error_add_sub (hlow : -70000 ≤ n.toInt) (hhigh : n.toInt ≤ 70000) (hw : w.toNat < 65536) (hv : v.toNat < 65536) :
    (n.toUInt32 + w - v).toInt32.toInt = n.toInt + w.toNat - v.toNat := by
  have hn := @toUInt32_toNat n
  apply toInt32_toInt
  · omega
  · omega
  · rw [UInt32.toNat_sub, UInt32.toNat_add]
    omega

theorem error_neg : n < 0 ↔ n.toInt < 0 := Int32.lt_iff_toInt_lt

theorem distance_toNat (h : w.toNat ≤ v.toNat) : (v - w).toNat = v.toNat - w.toNat :=
  UInt32.toNat_sub_of_le _ _ (UInt32.le_iff_toNat_le.mpr h)

theorem succ_toNat (h : w.toNat < 65536) : (w + 1).toNat = w.toNat + 1 := by
  rw [UInt32.toNat_add]
  change (w.toNat + 1) % 2 ^ 32 = _
  omega

theorem pred_toNat (h : 0 < w.toNat) : (w - 1).toNat = w.toNat - 1 := distance_toNat h

end words

/-- The rest of the way goes `a` places along and `b` aside, and `n` is the error term. -/
def Tied (a b n : ℤ) : Prop :=
  a < 65536 ∧ 0 ≤ b ∧ -65536 < n ∧ n < 65536 ∧
    (b < a ∧ (0 < b → b - a ≤ n ∧ n < b) ∧ (b = 0 → n < 0) ∨ b = a ∧ (0 ≤ n ∨ a = 0))

theorem Tied.straight {a b n : ℤ} (h : Tied a b n) (ha : 0 < a) (hn : n < 0) : Tied (a - 1) b (n + b) := by
  unfold Tied at *
  omega

theorem Tied.diagonal {a b n : ℤ} (h : Tied a b n) (ha : 0 < a) (hn : 0 ≤ n) : Tied (a - 1) (b - 1) (n + b - a) := by
  unfold Tied at *
  omega

theorem tied_start {a b : ℤ} (ha : a < 65536) (hb : 0 < b) (hab : b ≤ a) : Tied a b 0 := by
  unfold Tied
  omega

theorem tied_start_steep {a b : ℤ} (ha : a < 65536) (hb : 0 ≤ b) (hab : b < a) : Tied a b (-0 - 1) := by
  unfold Tied
  omega

def LineVars.point (v : LineVars) : UInt16 × UInt16 := (v.i1.toUInt16, v.l1.toUInt16)

section walk

variable {d : ℤ} {x2 y2 : UInt16} {k : ℕ} {v v' : LineVars}

theorem place_point (hx : v.i1.toNat < 65536) (hy : v.l1.toNat < 65536) : place v.point = (↑v.i1.toNat, ↑v.l1.toNat) := by
  simp only [place, LineVars.point, UInt32.toNat_toUInt16, Nat.mod_eq_of_lt hx, Nat.mod_eq_of_lt hy]

/-- What the loops along a row preserve while `k` places are left. -/
structure RowLeft (d : ℤ) (x2 y2 : UInt16) (k : ℕ) (v : LineVars) : Prop where
  along : d * ((x2.toNat : ℤ) - v.i1.toNat) = k
  narrow : v.i1.toNat < 65536
  tied : Tied k ((y2.toNat : ℤ) - v.l1.toNat) v.n1.toInt

/-- The same along a column; there the error term counts from the other side. -/
structure ColumnLeft (d : ℤ) (x2 y2 : UInt16) (k : ℕ) (v : LineVars) : Prop where
  along : (y2.toNat : ℤ) - v.l1.toNat = k
  narrow : v.i1.toNat < 65536
  tied : Tied k (d * ((x2.toNat : ℤ) - v.i1.toNat)) (-v.n1.toInt - 1)

/-- What a round along a row does, with the distances before it. -/
def RowStep (d : ℤ) (x2 y2 : UInt16) (v v' : LineVars) : Prop :=
  (v'.i1.toNat : ℤ) = v.i1.toNat + d ∧
    ((v'.l1.toNat : ℤ) = v.l1.toNat ∧ v.n1.toInt < 0 ∧ v'.n1.toInt = v.n1.toInt + (y2.toNat - v.l1.toNat) ∨
      (v'.l1.toNat : ℤ) = v.l1.toNat + 1 ∧ 0 ≤ v.n1.toInt ∧
        v'.n1.toInt = v.n1.toInt + (y2.toNat - v.l1.toNat) - d * (x2.toNat - v.i1.toNat))

def ColumnStep (d : ℤ) (x2 y2 : UInt16) (v v' : LineVars) : Prop :=
  (v'.l1.toNat : ℤ) = v.l1.toNat + 1 ∧
    ((v'.i1.toNat : ℤ) = v.i1.toNat + d ∧ v.n1.toInt < 0 ∧
        v'.n1.toInt = v.n1.toInt + (y2.toNat - v.l1.toNat) - d * (x2.toNat - v.i1.toNat) ∨
      (v'.i1.toNat : ℤ) = v.i1.toNat ∧ 0 ≤ v.n1.toInt ∧ v'.n1.toInt = v.n1.toInt - d * (x2.toNat - v.i1.toNat))

theorem RowStep.left (hd : d = 1 ∨ d = -1) (h : RowLeft d x2 y2 (k + 1) v) (hstep : RowStep d x2 y2 v v') :
    RowLeft d x2 y2 k v' := by
  have hx := x2.toNat_lt
  obtain ⟨halong, hnarrow, htied⟩ := h
  obtain ⟨hi, ⟨hl, hn, herr⟩ | ⟨hl, hn, herr⟩⟩ := hstep
  · have hnext := htied.straight (by omega) hn
    constructor
    · rcases hd with rfl | rfl <;> omega
    · rcases hd with rfl | rfl <;> omega
    · rw [hl, herr]
      push_cast at hnext
      rwa [add_sub_cancel_right] at hnext
  · have hnext := htied.diagonal (by omega) hn
    constructor
    · rcases hd with rfl | rfl <;> omega
    · rcases hd with rfl | rfl <;> omega
    · rw [hl, herr, halong]
      push_cast at hnext ⊢
      rwa [add_sub_cancel_right, sub_sub] at hnext

theorem ColumnStep.left (hd : d = 1 ∨ d = -1) (h : ColumnLeft d x2 y2 (k + 1) v) (hstep : ColumnStep d x2 y2 v v') :
    ColumnLeft d x2 y2 k v' := by
  have hx := x2.toNat_lt
  obtain ⟨halong, hnarrow, htied⟩ := h
  have hbounds := htied
  unfold Tied at hbounds
  obtain ⟨hl, ⟨hi, hn, herr⟩ | ⟨hi, hn, herr⟩⟩ := hstep
  · have hnext := htied.diagonal (by omega) (by omega)
    constructor
    · omega
    · rcases hd with rfl | rfl <;> omega
    · convert hnext using 1
      · push_cast
        omega
      · rw [hi]
        rcases hd with rfl | rfl <;> omega
      · omega
  · have hnext := htied.straight (by omega) (by omega)
    constructor
    · omega
    · omega
    · convert hnext using 1
      · push_cast
        omega
      · rw [hi]
      · omega

theorem RowLeft.bounds (h : RowLeft d x2 y2 k v) : v.l1.toNat ≤ y2.toNat ∧
    -70000 ≤ v.n1.toInt ∧ v.n1.toInt ≤ 70000 := by
  have htied := h.tied
  unfold Tied at htied
  omega

theorem ColumnLeft.bounds (h : ColumnLeft d x2 y2 k v) : -70000 ≤ v.n1.toInt ∧ v.n1.toInt ≤ 70000 ∧
    0 ≤ d * ((x2.toNat : ℤ) - v.i1.toNat) := by
  have htied := h.tied
  unfold Tied at htied
  omega

theorem rightFlat_step (h : RowLeft 1 x2 y2 (k + 1) v) : RowStep 1 x2 y2 v (rightFlat x2 y2 v) := by
  have hx := x2.toNat_lt
  have hy := y2.toNat_lt
  have hbounds := h.bounds
  have halong := h.along
  have hi := succ_toNat h.narrow
  have hl := @succ_toNat v.l1 (by omega)
  rw [rightFlat]
  by_cases hn : v.n1 < 0
  · have hk := @distance_toNat v.l1 y2.toUInt32 hbounds.1
    have hn' := error_neg.mp hn
    rw [UInt16.toNat_toUInt32] at hk
    rw [if_pos hn]
    unfold RowStep
    dsimp only
    rw [error_add hbounds.2.1 hbounds.2.2 (by omega)]
    omega
  · have hn' := mt error_neg.mpr hn
    have htied := h.tied
    unfold Tied at htied
    have hk := @distance_toNat (v.l1 + 1) y2.toUInt32 (by rw [UInt16.toNat_toUInt32]; omega)
    have hj := @distance_toNat (v.i1 + 1) x2.toUInt32 (by rw [UInt16.toNat_toUInt32]; omega)
    rw [UInt16.toNat_toUInt32] at hk hj
    rw [if_neg hn]
    unfold RowStep
    dsimp only
    rw [error_add_sub hbounds.2.1 hbounds.2.2 (by omega) (by omega)]
    omega

theorem leftFlat_step (h : RowLeft (-1) x2 y2 (k + 1) v) : RowStep (-1) x2 y2 v (leftFlat x2 y2 v) := by
  have hx := x2.toNat_lt
  have hy := y2.toNat_lt
  have hbounds := h.bounds
  have halong := h.along
  have hnarrow := h.narrow
  have hi := @pred_toNat v.i1 (by omega)
  have hl := @succ_toNat v.l1 (by omega)
  have hk := @distance_toNat v.l1 y2.toUInt32 hbounds.1
  have hj := @distance_toNat x2.toUInt32 v.i1 (by rw [UInt16.toNat_toUInt32]; omega)
  rw [UInt16.toNat_toUInt32] at hk hj
  rw [leftFlat]
  by_cases hn : v.n1 < 0
  · have hn' := error_neg.mp hn
    rw [if_pos hn]
    unfold RowStep
    dsimp only
    rw [error_add hbounds.2.1 hbounds.2.2 (by omega)]
    omega
  · have hn' := mt error_neg.mpr hn
    rw [if_neg hn]
    unfold RowStep
    dsimp only
    rw [error_add_sub hbounds.2.1 hbounds.2.2 (by omega) (by omega)]
    omega

theorem rightSteep_step (h : ColumnLeft 1 x2 y2 (k + 1) v) : ColumnStep 1 x2 y2 v (rightSteep x2 y2 v) := by
  have hx := x2.toNat_lt
  have hy := y2.toNat_lt
  have hbounds := h.bounds
  have halong := h.along
  have hi := succ_toNat h.narrow
  have hl := @succ_toNat v.l1 (by omega)
  have hk := @distance_toNat v.l1 y2.toUInt32 (by rw [UInt16.toNat_toUInt32]; omega)
  have hj := @distance_toNat v.i1 x2.toUInt32 (by rw [UInt16.toNat_toUInt32]; omega)
  rw [UInt16.toNat_toUInt32] at hk hj
  rw [rightSteep]
  by_cases hn : v.n1 < 0
  · have hn' := error_neg.mp hn
    rw [if_pos hn]
    unfold ColumnStep
    dsimp only
    rw [error_add_sub hbounds.1 hbounds.2.1 (by omega) (by omega)]
    omega
  · have hn' := mt error_neg.mpr hn
    rw [if_neg hn]
    unfold ColumnStep
    dsimp only
    rw [error_sub hbounds.1 hbounds.2.1 (by omega)]
    omega

theorem leftSteep_step (h : ColumnLeft (-1) x2 y2 (k + 1) v) : ColumnStep (-1) x2 y2 v (leftSteep x2 y2 v) := by
  have hy := y2.toNat_lt
  have hbounds := h.bounds
  have halong := h.along
  have hnarrow := h.narrow
  have hl := @succ_toNat v.l1 (by omega)
  have hk := @distance_toNat v.l1 y2.toUInt32 (by rw [UInt16.toNat_toUInt32]; omega)
  have hj := @distance_toNat x2.toUInt32 v.i1 (by rw [UInt16.toNat_toUInt32]; omega)
  rw [UInt16.toNat_toUInt32] at hk hj
  rw [leftSteep]
  by_cases hn : v.n1 < 0
  · have hn' := error_neg.mp hn
    have htied := h.tied
    unfold Tied at htied
    have hi := @pred_toNat v.i1 (by omega)
    rw [if_pos hn]
    unfold ColumnStep
    dsimp only
    rw [error_add_sub hbounds.1 hbounds.2.1 (by omega) (by omega)]
    omega
  · have hn' := mt error_neg.mpr hn
    rw [if_neg hn]
    unfold ColumnStep
    dsimp only
    rw [error_sub hbounds.1 hbounds.2.1 (by omega)]
    omega

theorem RowStep.stair (hd : d = 1 ∨ d = -1) (h : RowLeft d x2 y2 (k + 1) v) (hstep : RowStep d x2 y2 v v') :
    Stair Prod.fst Prod.snd d 1 (place v.point) (place v'.point) := by
  have hy := y2.toNat_lt
  have hold := h.bounds
  have hnext := hstep.left hd h
  have hnew := hnext.bounds
  rw [place_point h.narrow (by omega), place_point hnext.narrow (by omega)]
  unfold RowStep at hstep
  unfold Stair
  dsimp only
  omega

theorem ColumnStep.stair (hd : d = 1 ∨ d = -1) (h : ColumnLeft d x2 y2 (k + 1) v) (hstep : ColumnStep d x2 y2 v v') :
    Stair Prod.snd Prod.fst 1 d (place v.point) (place v'.point) := by
  have hy := y2.toNat_lt
  have hold := h.along
  have hnext := hstep.left hd h
  have hnew := hnext.along
  rw [place_point h.narrow (by omega), place_point hnext.narrow (by omega)]
  unfold ColumnStep at hstep
  unfold Stair
  dsimp only
  omega

theorem RowLeft.last (hd : d = 1 ∨ d = -1) (h : RowLeft d x2 y2 0 v) : v.i1 = x2.toUInt32 ∧ place v.point = place (x2, y2) := by
  have hy := y2.toNat_lt
  have hbounds := h.bounds
  have halong := h.along
  have htied := h.tied
  unfold Tied at htied
  have hi : v.i1.toNat = x2.toNat := by
    rcases hd with rfl | rfl <;> omega
  constructor
  · rw [← UInt32.toNat_inj, hi, UInt16.toNat_toUInt32]
  · rw [place_point h.narrow (by omega), hi, place, show v.l1.toNat = y2.toNat by omega]

theorem ColumnLeft.last (hd : d = 1 ∨ d = -1) (h : ColumnLeft d x2 y2 0 v) :
    v.l1 = y2.toUInt32 ∧ place v.point = place (x2, y2) := by
  have hy := y2.toNat_lt
  have halong := h.along
  have htied := h.tied
  unfold Tied at htied
  have hl : v.l1.toNat = y2.toNat := by omega
  constructor
  · rw [← UInt32.toNat_inj, hl, UInt16.toNat_toUInt32]
  · have hi : v.i1.toNat = x2.toNat := by
      rcases hd with rfl | rfl <;> omega
    rw [place_point h.narrow (by omega), hl, place, hi]

theorem RowLeft.more (h : RowLeft d x2 y2 (k + 1) v) : v.i1 ≠ x2.toUInt32 := by
  have halong := h.along
  intro heq
  rw [heq, UInt16.toNat_toUInt32, sub_self, mul_zero] at halong
  omega

theorem ColumnLeft.more (h : ColumnLeft d x2 y2 (k + 1) v) : v.l1 ≠ y2.toUInt32 := by
  have halong := h.along
  intro heq
  rw [heq, UInt16.toNat_toUInt32] at halong
  omega

theorem walk_plots {left : ℕ → LineVars → Prop} (R : ℤ × ℤ → ℤ × ℤ → Prop) (q : ℤ × ℤ) (more : LineVars → Bool)
    (next : LineVars → LineVars) (hstop : ∀ v, left 0 v → more v = false ∧ place v.point = q)
    (hgo : ∀ k v, left (k + 1) v → more v = true ∧ left k (next v) ∧ R (place v.point) (place (next v).point))
    (h : left k v) : ∃ l : List (UInt16 × UInt16), (place v.point :: l.map place).IsChain R ∧
      (l.map place).getLastD (place v.point) = q ∧
      ∀ color s, (Prog.loop (lineRound color more next) v).Returns s () (plotAll color l s) := by
  induction k generalizing v with
  | zero =>
    obtain ⟨hmore, hpoint⟩ := hstop v h
    refine ⟨[], List.isChain_singleton _, hpoint, fun color s => ?_⟩
    apply Prog.loop_inr
    rw [lineRound, hmore]
    exact Prog.returns_pure.mpr ⟨rfl, rfl⟩
  | succ k ih =>
    obtain ⟨hmore, hnext, hR⟩ := hgo k v h
    obtain ⟨l, hchain, hlast, hreturns⟩ := ih hnext
    refine ⟨(next v).point :: l, List.isChain_cons_cons.mpr ⟨hR, hchain⟩, ?_, fun color s => ?_⟩
    · rw [List.map_cons, List.getLastD_cons]
      exact hlast
    · refine Prog.loop_inl ?_ (hreturns _ _)
      rw [lineRound, hmore, if_pos rfl]
      exact Prog.modify_bind_returns.mpr (Prog.returns_pure.mpr ⟨rfl, rfl⟩)

end walk

section run

variable {x1 y1 x2 y2 : UInt16} {w : UInt32} {k : ℕ}

theorem runRound_more (h : w.toNat ≤ x2.toNat) :
    (runRound color x2 y1 w).Returns s (.inl (w + 1)) (setPoint w.toUInt16 y1 color s) := by
  have hmore : w ≤ x2.toUInt32 := by rwa [UInt32.le_iff_toNat_le, UInt16.toNat_toUInt32]
  rw [runRound, if_pos hmore]
  exact Prog.modify_bind_returns.mpr (Prog.returns_pure.mpr ⟨rfl, rfl⟩)

theorem runRound_done (h : x2.toNat < w.toNat) : (runRound color x2 y1 w).Returns s (.inr ()) s := by
  have hmore : ¬w ≤ x2.toUInt32 := by
    rw [UInt32.le_iff_toNat_le, UInt16.toNat_toUInt32]
    omega
  rw [runRound, if_neg hmore]
  exact Prog.returns_pure.mpr ⟨rfl, rfl⟩

theorem run_plots (h : w.toNat + k = x2.toNat) : ∃ l : List (UInt16 × UInt16),
    (place (w.toUInt16, y1) :: l.map place).IsChain (Stair Prod.fst Prod.snd 1 1) ∧
      (l.map place).getLastD (place (w.toUInt16, y1)) = place (x2, y1) ∧
      ∀ color s, (Prog.loop (runRound color x2 y1) w).Returns s () (plotAll color ((w.toUInt16, y1) :: l) s) := by
  have hx := x2.toNat_lt
  have hsucc := @succ_toNat w (by omega)
  induction k generalizing w with
  | zero =>
    refine ⟨[], List.isChain_singleton _, ?_, fun color s => ?_⟩
    · rw [List.map_nil, List.getLastD_nil, place, place, UInt32.toNat_toUInt16, Nat.mod_eq_of_lt (by omega), ← h]
      rfl
    · exact Prog.loop_inl (runRound_more (by omega)) (Prog.loop_inr (runRound_done (by omega)))
  | succ k ih =>
    obtain ⟨l, hchain, hlast, hreturns⟩ := @ih (w + 1) (by omega) (succ_toNat (by omega))
    refine ⟨((w + 1).toUInt16, y1) :: l, List.isChain_cons_cons.mpr ⟨?_, hchain⟩, ?_, fun color s => ?_⟩
    · unfold Stair place
      dsimp only
      rw [UInt32.toNat_toUInt16, UInt32.toNat_toUInt16]
      omega
    · rw [List.map_cons, List.getLastD_cons]
      exact hlast
    · exact Prog.loop_inl (runRound_more (by omega)) (hreturns _ _)

theorem run_joins (h : x1 ≤ x2) : ∃ l : List (UInt16 × UInt16), Joins (place (x1, y1)) (place (x2, y1)) (l.map place) ∧
    ∀ color s, (Prog.loop (runRound color x2 y1) x1.toUInt32).Returns s () (plotAll color l s) := by
  have hle := UInt16.le_iff_toNat_le.mp h
  obtain ⟨l, hchain, hlast, hreturns⟩ := @run_plots y1 x2 x1.toUInt32 (x2.toNat - x1.toNat)
    (by rw [UInt16.toNat_toUInt32]; omega)
  rw [UInt16.toUInt16_toUInt32] at hchain hlast hreturns
  exact ⟨(x1, y1) :: l, joins_of_stairs (Or.inl rfl) (Or.inl rfl) hchain hlast, hreturns⟩

end run

section sloped

variable {x1 y1 x2 y2 : UInt16} {d : ℤ}

/-- The variables before the first round. -/
def lineStart (x1 y1 : UInt16) : LineVars := ⟨x1.toUInt32, y1.toUInt32, 0⟩

theorem lineStart_point : (lineStart x1 y1).point = (x1, y1) := by
  simp only [lineStart, LineVars.point, UInt16.toUInt16_toUInt32]

theorem row_joins {next : LineVars → LineVars} (hd : d = 1 ∨ d = -1) (hy : y1.toNat < y2.toNat)
    (hflat : (y2.toNat : ℤ) - y1.toNat ≤ d * (x2.toNat - x1.toNat))
    (hnext : ∀ k v, RowLeft d x2 y2 (k + 1) v → RowStep d x2 y2 v (next v)) :
    ∃ l : List (UInt16 × UInt16), Joins (place (x1, y1)) (place (x2, y2)) (((x1, y1) :: l).map place) ∧
      ∀ color s, (Prog.loop (lineRound color (fun v => v.i1 != x2.toUInt32) next) (lineStart x1 y1)).Returns s () (plotAll color l s) := by
  have hx1 := x1.toNat_lt
  have hx2 := x2.toNat_lt
  have hleft : RowLeft d x2 y2 (d * ((x2.toNat : ℤ) - x1.toNat)).toNat (lineStart x1 y1) := by
    have hlen : (((d * ((x2.toNat : ℤ) - x1.toNat)).toNat : ℕ) : ℤ) = d * (x2.toNat - x1.toNat) := Int.toNat_of_nonneg (by omega)
    constructor
    · rw [hlen, lineStart, UInt16.toNat_toUInt32]
    · rw [lineStart, UInt16.toNat_toUInt32]
      omega
    · rw [hlen, lineStart, UInt16.toNat_toUInt32]
      apply tied_start
      · rcases hd with rfl | rfl <;> omega
      · omega
      · exact hflat
  obtain ⟨l, hchain, hlast, hreturns⟩ := walk_plots (Stair Prod.fst Prod.snd d 1) (place (x2, y2))
    (fun v => v.i1 != x2.toUInt32) next
    (fun v h => ⟨bne_eq_false_iff_eq.mpr (h.last hd).1, (h.last hd).2⟩)
    (fun k v h => ⟨bne_iff_ne.mpr h.more, (hnext k v h).left hd h, (hnext k v h).stair hd h⟩) hleft
  rw [lineStart_point] at hchain hlast
  exact ⟨l, joins_of_stairs hd (Or.inl rfl) hchain hlast, hreturns⟩

theorem column_joins {next : LineVars → LineVars} (hd : d = 1 ∨ d = -1) (hx : 0 ≤ d * ((x2.toNat : ℤ) - x1.toNat))
    (hsteep : d * (x2.toNat - x1.toNat) < (y2.toNat : ℤ) - y1.toNat)
    (hnext : ∀ k v, ColumnLeft d x2 y2 (k + 1) v → ColumnStep d x2 y2 v (next v)) :
    ∃ l : List (UInt16 × UInt16), Joins (place (x1, y1)) (place (x2, y2)) (((x1, y1) :: l).map place) ∧
      ∀ color s, (Prog.loop (lineRound color (fun v => v.l1 != y2.toUInt32) next) (lineStart x1 y1)).Returns s () (plotAll color l s) := by
  have hx1 := x1.toNat_lt
  have hy2 := y2.toNat_lt
  have hleft : ColumnLeft d x2 y2 (y2.toNat - y1.toNat) (lineStart x1 y1) := by
    constructor
    · rw [lineStart, UInt16.toNat_toUInt32]
      omega
    · rw [lineStart, UInt16.toNat_toUInt32]
      omega
    · rw [lineStart, UInt16.toNat_toUInt32]
      exact tied_start_steep (by omega) hx (by omega)
  obtain ⟨l, hchain, hlast, hreturns⟩ := walk_plots (Stair Prod.snd Prod.fst 1 d) (place (x2, y2))
    (fun v => v.l1 != y2.toUInt32) next
    (fun v h => ⟨bne_eq_false_iff_eq.mpr (h.last hd).1, (h.last hd).2⟩)
    (fun k v h => ⟨bne_iff_ne.mpr h.more, (hnext k v h).left hd h, (hnext k v h).stair hd h⟩) hleft
  rw [lineStart_point] at hchain hlast
  exact ⟨l, joins_of_stairs_snd (Or.inl rfl) hd hchain hlast, hreturns⟩

theorem drawSloped_plots (hy : y1.toNat < y2.toNat) : ∃ l : List (UInt16 × UInt16),
    Joins (place (x1, y1)) (place (x2, y2)) (l.map place) ∧
      ∀ color s, (drawSloped color x2 y2 x1 y1).Returns s () (plotAll color l s) := by
  have hk := @distance_toNat y1.toUInt32 y2.toUInt32 (by rw [UInt16.toNat_toUInt32, UInt16.toNat_toUInt32]; omega)
  rw [UInt16.toNat_toUInt32, UInt16.toNat_toUInt32] at hk
  by_cases hright : x1 ≤ x2
  · have hle := UInt16.le_iff_toNat_le.mp hright
    have hj := @distance_toNat x1.toUInt32 x2.toUInt32 (by rwa [UInt16.toNat_toUInt32, UInt16.toNat_toUInt32])
    rw [UInt16.toNat_toUInt32, UInt16.toNat_toUInt32] at hj
    by_cases hflat : y2.toUInt32 - y1.toUInt32 ≤ x2.toUInt32 - x1.toUInt32
    · have hflat' := UInt32.le_iff_toNat_le.mp hflat
      obtain ⟨l, hjoins, hreturns⟩ := @row_joins x1 y1 x2 y2 1 (rightFlat x2 y2) (Or.inl rfl) hy (by omega)
        fun _ _ => rightFlat_step
      refine ⟨_, hjoins, fun color s => Prog.modify_bind_returns.mpr ?_⟩
      simp only [hright, hflat, decide_true, Bool.and_self, if_true, UInt16.toUInt16_toUInt32]
      exact hreturns _ _
    · have hflat' := mt UInt32.le_iff_toNat_le.mpr hflat
      have hsteep : x2.toUInt32 - x1.toUInt32 < y2.toUInt32 - y1.toUInt32 := UInt32.lt_iff_toNat_lt.mpr (not_le.mp hflat')
      obtain ⟨l, hjoins, hreturns⟩ := @column_joins x1 y1 x2 y2 1 (rightSteep x2 y2) (Or.inl rfl) (by omega) (by omega)
        fun _ _ => rightSteep_step
      refine ⟨_, hjoins, fun color s => Prog.modify_bind_returns.mpr ?_⟩
      simp only [hright, hflat, hsteep, decide_true, decide_false, Bool.and_false, Bool.and_self,
        if_true, Bool.false_eq_true, if_false, UInt16.toUInt16_toUInt32]
      exact hreturns _ _
  · have hgt := mt UInt16.le_iff_toNat_le.mpr hright
    have hj := @distance_toNat x2.toUInt32 x1.toUInt32 (by rw [UInt16.toNat_toUInt32, UInt16.toNat_toUInt32]; omega)
    rw [UInt16.toNat_toUInt32, UInt16.toNat_toUInt32] at hj
    by_cases hflat : y2.toUInt32 - y1.toUInt32 ≤ x1.toUInt32 - x2.toUInt32
    · have hflat' := UInt32.le_iff_toNat_le.mp hflat
      obtain ⟨l, hjoins, hreturns⟩ := @row_joins x1 y1 x2 y2 (-1) (leftFlat x2 y2) (Or.inr rfl) hy (by omega)
        fun _ _ => leftFlat_step
      refine ⟨_, hjoins, fun color s => Prog.modify_bind_returns.mpr ?_⟩
      simp only [hright, hflat, decide_true, decide_false, Bool.false_and, Bool.not_false, Bool.and_self,
        if_true, Bool.false_eq_true, if_false, UInt16.toUInt16_toUInt32]
      exact hreturns _ _
    · have hflat' := mt UInt32.le_iff_toNat_le.mpr hflat
      have hsteep : x1.toUInt32 - x2.toUInt32 < y2.toUInt32 - y1.toUInt32 := UInt32.lt_iff_toNat_lt.mpr (not_le.mp hflat')
      obtain ⟨l, hjoins, hreturns⟩ := @column_joins x1 y1 x2 y2 (-1) (leftSteep x2 y2) (Or.inr rfl) (by omega) (by omega)
        fun _ _ => leftSteep_step
      refine ⟨_, hjoins, fun color s => Prog.modify_bind_returns.mpr ?_⟩
      simp only [hright, hflat, hsteep, decide_true, decide_false, Bool.false_and, Bool.and_false,
        Bool.not_false, Bool.and_self, if_true, Bool.false_eq_true, if_false, UInt16.toUInt16_toUInt32]
      exact hreturns _ _

theorem drawDown_plots (hy : y1 ≤ y2) : ∃ l : List (UInt16 × UInt16), Joins (place (x1, y1)) (place (x2, y2)) (l.map place) ∧
    ∀ color s, (drawDown color x1 y1 x2 y2).Returns s () (plotAll color l s) := by
  have hy' := UInt16.le_iff_toNat_le.mp hy
  have hk := @distance_toNat y1.toUInt32 y2.toUInt32 (by rwa [UInt16.toNat_toUInt32, UInt16.toNat_toUInt32])
  rw [UInt16.toNat_toUInt32, UInt16.toNat_toUInt32] at hk
  by_cases hlevel : y2.toUInt32 - y1.toUInt32 = 0
  · have hzero : y2.toNat - y1.toNat = 0 := hk.symm.trans (congrArg UInt32.toNat hlevel)
    have heq : y2 = y1 := UInt16.toNat_inj.mp (by omega)
    simp only [drawDown, heq, UInt32.sub_self, if_true]
    by_cases hx : x1 > x2
    · obtain ⟨l, hjoins, hreturns⟩ := @run_joins x2 y1 x1 (UInt16.le_of_lt hx)
      simp only [if_pos hx]
      exact ⟨l, hjoins.symm, hreturns⟩
    · simp only [if_neg hx]
      exact run_joins (UInt16.not_lt.mp hx)
  · simp only [drawDown, if_neg hlevel]
    apply drawSloped_plots
    have hne : (y2.toUInt32 - y1.toUInt32).toNat ≠ 0 := fun h => hlevel (UInt32.toNat_inj.mp h)
    omega

theorem drawLine_returns (x1 y1 x2 y2 : UInt16) : ∃ l : List (UInt16 × UInt16),
    Joins (place (x1, y1)) (place (x2, y2)) (l.map place) ∧
      ∀ color s, (drawLine color x1 y1 x2 y2).Returns s () (plotAll color l s) := by
  by_cases hy : y2 < y1
  · obtain ⟨l, hjoins, hreturns⟩ := @drawDown_plots x2 y2 x1 y1 (UInt16.le_of_lt hy)
    simp only [drawLine, if_pos hy]
    exact ⟨l, hjoins.symm, hreturns⟩
  · simp only [drawLine, if_neg hy]
    exact drawDown_plots (UInt16.not_lt.mp hy)

/-- The sequence of plotted points does not depend on the color or on what the screen shows. -/
theorem drawLine_plots (x1 y1 x2 y2 : UInt16) : ∃ l : List (UInt16 × UInt16),
    Joins (place (x1, y1)) (place (x2, y2)) (l.map place) ∧
      ∀ (color : UInt32) (s : Lcd), (drawLine color x1 y1 x2 y2).Achieves s fun _ t =>
        t.points = s.points ++ l ∧ Colours color (fun p => p ∈ l.map place) s t := by
  obtain ⟨l, hjoins, hreturns⟩ := drawLine_returns x1 y1 x2 y2
  exact ⟨l, hjoins, fun color s => ⟨(), _, hreturns color s, plotAll_points, plotAll_colours⟩⟩

end sloped

end Lpc1788Libraries.Gfx

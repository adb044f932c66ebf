import Mathlib.Algebra.Order.Group.Abs
import Mathlib.Algebra.Order.Ring.Int
import Mathlib.Data.List.Chain
import Mathlib.Data.List.Range
import Mathlib.Tactic.Common

namespace Lpc1788Libraries.Support.PixelChain

variable {p q r : ℤ × ℤ} {l : List (ℤ × ℤ)} {f g : ℤ × ℤ → ℤ} {d e : ℤ}

/-- Neighbours of the grid, diagonal ones included. -/
def Adjacent (p q : ℤ × ℤ) : Prop := max |q.1 - p.1| |q.2 - p.2| = 1

def Monotonic (f : ℤ × ℤ → ℤ) (l : List (ℤ × ℤ)) : Prop :=
  l.Pairwise (fun p q => f p ≤ f q) ∨ l.Pairwise (fun p q => f q ≤ f p)

def Between (f : ℤ × ℤ → ℤ) (p q r : ℤ × ℤ) : Prop := min (f p) (f q) ≤ f r ∧ f r ≤ max (f p) (f q)

/-- A shortest way over neighbours between two points, in one direction or the other. -/
structure Joins (p q : ℤ × ℤ) (l : List (ℤ × ℤ)) : Prop where
  length : (l.length : ℤ) = max |q.1 - p.1| |q.2 - p.2| + 1
  nodup : l.Nodup
  chain : l.IsChain Adjacent
  monotonic_fst : Monotonic Prod.fst l
  monotonic_snd : Monotonic Prod.snd l
  between_fst : ∀ r ∈ l, Between Prod.fst p q r
  between_snd : ∀ r ∈ l, Between Prod.snd p q r
  left_mem : p ∈ l
  right_mem : q ∈ l

theorem Between.symm (h : Between f p q r) : Between f q p r := by
  unfold Between at *
  omega

theorem Joins.symm (h : Joins p q l) : Joins q p l where
  length := by
    rw [h.length, abs_sub_comm p.1, abs_sub_comm p.2]
  nodup := h.nodup
  chain := h.chain
  monotonic_fst := h.monotonic_fst
  monotonic_snd := h.monotonic_snd
  between_fst := fun r hr => (h.between_fst r hr).symm
  between_snd := fun r hr => (h.between_snd r hr).symm
  left_mem := h.right_mem
  right_mem := h.left_mem

/-- One step `d` along the coordinate `f` and at most one step `e` along `g`. -/
def Stair (f g : ℤ × ℤ → ℤ) (d e : ℤ) (p q : ℤ × ℤ) : Prop := f q = f p + d ∧ (g q = g p ∨ g q = g p + e)

/-- Reached in one or more steps. -/
def Ahead (f g : ℤ × ℤ → ℤ) (d e : ℤ) (p q : ℤ × ℤ) : Prop :=
  0 < d * (f q - f p) ∧ 0 ≤ e * (g q - g p) ∧ e * (g q - g p) ≤ d * (f q - f p)

theorem Stair.ahead (hd : d = 1 ∨ d = -1) (he : e = 1 ∨ e = -1) (h : Stair f g d e p q) : Ahead f g d e p q := by
  unfold Stair at h
  unfold Ahead
  rcases hd with rfl | rfl <;> rcases he with rfl | rfl <;> omega

theorem Ahead.trans (hpq : Ahead f g d e p q) (hqr : Ahead f g d e q r) : Ahead f g d e p r := by
  have hf : d * (f r - f p) = d * (f q - f p) + d * (f r - f q) := by
    rw [← mul_add]
    congr 1
    omega
  have hg : e * (g r - g p) = e * (g q - g p) + e * (g r - g q) := by
    rw [← mul_add]
    congr 1
    omega
  unfold Ahead at *
  omega

instance : Trans (Ahead f g d e) (Ahead f g d e) (Ahead f g d e) := ⟨Ahead.trans⟩

section stairs

variable (hd : d = 1 ∨ d = -1) (he : e = 1 ∨ e = -1)

include hd he

theorem pairwise_ahead (h : l.IsChain (Stair f g d e)) : l.Pairwise (Ahead f g d e) :=
  List.isChain_iff_pairwise.mp (h.imp fun _ _ => Stair.ahead hd he)

theorem stairs_nodup (h : l.IsChain (Stair f g d e)) : l.Nodup := by
  apply (pairwise_ahead hd he h).imp
  rintro p q hpq rfl
  have hpos := hpq.1
  rw [sub_self, mul_zero] at hpos
  exact absurd hpos (lt_irrefl 0)

theorem monotonic_along (h : l.IsChain (Stair f g d e)) : Monotonic f l := by
  have hpair := pairwise_ahead hd he h
  rcases hd with rfl | rfl
  · left
    apply hpair.imp
    intro p q hpq
    have hpos := hpq.1
    omega
  · right
    apply hpair.imp
    intro p q hpq
    have hpos := hpq.1
    omega

theorem monotonic_aside (h : l.IsChain (Stair f g d e)) : Monotonic g l := by
  have hpair := pairwise_ahead hd he h
  rcases he with rfl | rfl
  · left
    apply hpair.imp
    intro p q hpq
    have hnonneg := hpq.2.1
    omega
  · right
    apply hpair.imp
    intro p q hpq
    have hnonneg := hpq.2.1
    omega

omit he in
theorem stairs_length (h : (p :: l).IsChain (Stair f g d e)) (hq : l.getLastD p = q) :
    d * (f q - f p) = l.length := by
  induction l generalizing p with
  | nil =>
    rw [← hq, List.getLastD_nil, sub_self, mul_zero]
    rfl
  | cons r l ih =>
    rw [List.getLastD_cons] at hq
    rw [List.isChain_cons_cons] at h
    have hrest := ih h.2 hq
    have hstep := h.1.1
    rw [List.length_cons]
    rcases hd with rfl | rfl <;> omega

theorem last_ahead (h : (p :: l).IsChain (Stair f g d e)) (hq : l.getLastD p = q) :
    ∀ r ∈ p :: l, r = q ∨ Ahead f g d e r q := by
  induction l generalizing p with
  | nil =>
    intro r hr
    left
    rw [List.mem_singleton.mp hr]
    exact hq
  | cons s l ih =>
    rw [List.getLastD_cons] at hq
    have hrest := ih (List.isChain_cons_cons.mp h).2 hq
    intro r hr
    rcases List.mem_cons.mp hr with rfl | hr
    · right
      have hstep := (List.isChain_cons_cons.mp h).1.ahead hd he
      rcases hrest s List.mem_cons_self with rfl | hs
      · exact hstep
      · exact hstep.trans hs
    · exact hrest r hr

theorem stairs_place (h : (p :: l).IsChain (Stair f g d e)) (hq : l.getLastD p = q) (hr : r ∈ p :: l) :
    (r = p ∨ Ahead f g d e p r) ∧ (r = q ∨ Ahead f g d e r q) := by
  constructor
  · rcases List.mem_cons.mp hr with rfl | hr
    · exact Or.inl rfl
    · exact Or.inr (List.rel_of_pairwise_cons (pairwise_ahead hd he h) hr)
  · exact last_ahead hd he h hq r hr

theorem stairs_between (h : (p :: l).IsChain (Stair f g d e)) (hq : l.getLastD p = q) (hr : r ∈ p :: l) :
    Between f p q r ∧ Between g p q r := by
  have hplace := stairs_place hd he h hq hr
  unfold Between
  unfold Ahead at hplace
  obtain ⟨rfl | hp, rfl | hq⟩ := hplace
  · omega
  · rcases hd with rfl | rfl <;> rcases he with rfl | rfl <;> omega
  · rcases hd with rfl | rfl <;> rcases he with rfl | rfl <;> omega
  · rcases hd with rfl | rfl <;> rcases he with rfl | rfl <;> omega

theorem stairs_extent (h : (p :: l).IsChain (Stair f g d e)) (hq : l.getLastD p = q) :
    |g q - g p| ≤ |f q - f p| ∧ |f q - f p| = l.length := by
  have hlength := stairs_length hd h hq
  have hp := (stairs_place hd he h hq List.mem_cons_self).2
  unfold Ahead at hp
  rcases hp with rfl | hp
  · rw [sub_self, mul_zero] at hlength
    simp only [sub_self, abs_zero, le_refl, true_and]
    exact hlength
  · have hf := abs_cases (f q - f p)
    have hg := abs_cases (g q - g p)
    rcases hd with rfl | rfl <;> rcases he with rfl | rfl <;> omega

end stairs

theorem Stair.adjacent_fst (hd : d = 1 ∨ d = -1) (he : e = 1 ∨ e = -1) (h : Stair Prod.fst Prod.snd d e p q) :
    Adjacent p q := by
  have hx := abs_cases (q.1 - p.1)
  have hy := abs_cases (q.2 - p.2)
  unfold Stair at h
  unfold Adjacent
  omega

theorem Stair.adjacent_snd (hd : d = 1 ∨ d = -1) (he : e = 1 ∨ e = -1) (h : Stair Prod.snd Prod.fst d e p q) :
    Adjacent p q := by
  have hx := abs_cases (q.1 - p.1)
  have hy := abs_cases (q.2 - p.2)
  unfold Stair at h
  unfold Adjacent
  omega

theorem last_mem (hq : l.getLastD p = q) : q ∈ p :: l := by
  rw [← hq]
  exact List.getLastD_mem_cons

theorem joins_of_stairs (hd : d = 1 ∨ d = -1) (he : e = 1 ∨ e = -1)
    (h : (p :: l).IsChain (Stair Prod.fst Prod.snd d e)) (hq : l.getLastD p = q) : Joins p q (p :: l) where
  length := by
    have hextent := stairs_extent hd he h hq
    rw [max_eq_left hextent.1, hextent.2, List.length_cons, Nat.cast_succ]
  nodup := stairs_nodup hd he h
  chain := h.imp fun _ _ => Stair.adjacent_fst hd he
  monotonic_fst := monotonic_along hd he h
  monotonic_snd := monotonic_aside hd he h
  between_fst := fun _ hr => (stairs_between hd he h hq hr).1
  between_snd := fun _ hr => (stairs_between hd he h hq hr).2
  left_mem := List.mem_cons_self
  right_mem := last_mem hq

theorem joins_of_stairs_snd (hd : d = 1 ∨ d = -1) (he : e = 1 ∨ e = -1)
    (h : (p :: l).IsChain (Stair Prod.snd Prod.fst d e)) (hq : l.getLastD p = q) : Joins p q (p :: l) where
  length := by
    have hextent := stairs_extent hd he h hq
    rw [max_eq_right hextent.1, hextent.2, List.length_cons, Nat.cast_succ]
  nodup := stairs_nodup hd he h
  chain := h.imp fun _ _ => Stair.adjacent_snd hd he
  monotonic_fst := monotonic_aside hd he h
  monotonic_snd := monotonic_along hd he h
  between_fst := fun _ hr => (stairs_between hd he h hq hr).2
  between_snd := fun _ hr => (stairs_between hd he h hq hr).1
  left_mem := List.mem_cons_self
  right_mem := last_mem hq

section places

variable {place : ℕ → ℤ × ℤ} {n : ℕ} {R : ℤ × ℤ → ℤ × ℤ → Prop}

theorem places_chain (h : ∀ i < n, R (place i) (place (i + 1))) : ((List.range (n + 1)).map place).IsChain R :=
  (List.isChain_map place).mpr ((List.isChain_range_succ _ n).mpr h)

theorem places_last : ((List.range n).map fun i => place (i + 1)).getLastD (place 0) = place n := by
  cases n with
  | zero => rfl
  | succ n =>
    rw [List.range_succ, List.map_append, List.map_singleton, List.getLastD_concat]

theorem places_eq : (List.range (n + 1)).map place = place 0 :: (List.range n).map fun i => place (i + 1) := by
  rw [List.range_succ_eq_map, List.map_cons, List.map_map]
  rfl

theorem joins_of_places (hd : d = 1 ∨ d = -1) (he : e = 1 ∨ e = -1)
    (h : ∀ i < n, Stair Prod.fst Prod.snd d e (place i) (place (i + 1))) :
    Joins (place 0) (place n) ((List.range (n + 1)).map place) := by
  have hchain := places_chain h
  rw [places_eq] at hchain ⊢
  exact joins_of_stairs hd he hchain places_last

theorem joins_of_places_snd (hd : d = 1 ∨ d = -1) (he : e = 1 ∨ e = -1)
    (h : ∀ i < n, Stair Prod.snd Prod.fst d e (place i) (place (i + 1))) :
    Joins (place 0) (place n) ((List.range (n + 1)).map place) := by
  have hchain := places_chain h
  rw [places_eq] at hchain ⊢
  exact joins_of_stairs_snd hd he hchain places_last

end places

end Lpc1788Libraries.Support.PixelChain

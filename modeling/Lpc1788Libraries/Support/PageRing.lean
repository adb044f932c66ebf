import Mathlib.Data.Nat.ModEq
import Mathlib.Tactic.Common

namespace Lpc1788Libraries.Support

/-- The numbers from `lo` to `hi`, taken as a ring in which `lo` follows `hi`. -/
structure PageRing where
  lo : ℕ
  hi : ℕ
  le : lo ≤ hi

namespace PageRing

variable (r : PageRing)

def size : ℕ := r.hi + 1 - r.lo

def Mem (p : ℕ) : Prop := r.lo ≤ p ∧ p ≤ r.hi

instance (p : ℕ) : Decidable (r.Mem p) := inferInstanceAs (Decidable (_ ∧ _))

def next (p : ℕ) : ℕ := if p = r.hi then r.lo else p + 1

def prev (p : ℕ) : ℕ := if p = r.lo then r.hi else p - 1

/-- The page `k` places after `p`. -/
def step (p k : ℕ) : ℕ := r.lo + (p - r.lo + k) % r.size

variable {r} {p q j k : ℕ}

theorem size_pos : 0 < r.size := by have := r.le; simp only [size]; omega

theorem lo_mem : r.Mem r.lo := ⟨Nat.le_refl _, r.le⟩

theorem hi_mem : r.Mem r.hi := ⟨r.le, Nat.le_refl _⟩

theorem step_mem : r.Mem (r.step p k) := by
  have h := Nat.mod_lt (p - r.lo + k) (r.size_pos)
  simp only [Mem, step, size] at *
  omega

@[simp] theorem step_zero (h : r.Mem p) : r.step p 0 = p := by
  have hp : p - r.lo < r.size := by have := h.1; have := h.2; simp only [size]; omega
  have := h.1
  simp only [step, Nat.add_zero, Nat.mod_eq_of_lt hp]
  omega

@[simp] theorem step_step : r.step (r.step p j) k = r.step p (j + k) := by
  simp only [step, Nat.add_sub_cancel_left, Nat.mod_add_mod, Nat.add_assoc]

theorem next_step : r.next (r.step p k) = r.step p (k + 1) := by
  have hs := r.size_pos
  have hlt := Nat.mod_lt (p - r.lo + k) hs
  have hstep : r.step p (k + 1) = r.lo + ((p - r.lo + k) % r.size + 1) % r.size := by
    simp only [step, Nat.mod_add_mod, Nat.add_assoc]
  rw [hstep, next, step]
  have hsz : r.size = r.hi + 1 - r.lo := rfl
  have hle := r.le
  by_cases h : (p - r.lo + k) % r.size + 1 = r.size
  · rw [if_pos (by omega), h, Nat.mod_self, Nat.add_zero]
  · rw [if_neg (by omega), Nat.mod_eq_of_lt (by omega : _ + 1 < r.size), Nat.add_assoc]

theorem prev_next (h : r.Mem p) : r.prev (r.next p) = p := by
  have := h.1
  have := h.2
  simp only [next, prev]
  split <;> split <;> omega

theorem next_prev (h : r.Mem p) : r.next (r.prev p) = p := by
  have := h.1
  have := h.2
  simp only [next, prev]
  split <;> split <;> omega

theorem prev_step : r.prev (r.step p (k + 1)) = r.step p k := by
  rw [← next_step, prev_next step_mem]

theorem next_mem (h : r.Mem p) : r.Mem (r.next p) := by
  rw [← step_zero h, next_step]
  exact step_mem

theorem prev_mem (h : r.Mem p) : r.Mem (r.prev p) := by
  have := h.1
  have := h.2
  have := r.le
  simp only [prev, Mem]
  split <;> omega

theorem step_one (h : r.Mem p) : r.step p 1 = r.next p := by
  rw [← Nat.zero_add 1, ← next_step, step_zero h]

theorem step_next (h : r.Mem p) : r.step (r.next p) k = r.step p (k + 1) := by
  rw [← step_one h, step_step, Nat.add_comm]

@[simp] theorem step_add_size : r.step p (k + r.size) = r.step p k := by
  simp only [step, ← Nat.add_assoc, Nat.add_mod_right]

theorem step_size (h : r.Mem p) : r.step p r.size = p := by
  rw [← Nat.zero_add r.size, step_add_size, step_zero h]

theorem next_iterate (h : r.Mem p) (k : ℕ) : r.next^[k] p = r.step p k := by
  induction k with
  | zero => exact (step_zero h).symm
  | succ k ih => rw [Function.iterate_succ_apply', ih, next_step]

theorem prev_iterate (h : k ≤ j) : r.prev^[k] (r.step p j) = r.step p (j - k) := by
  induction k with
  | zero => rfl
  | succ k ih =>
    rw [Function.iterate_succ_apply', ih (Nat.le_of_succ_le h), show j - k = j - (k + 1) + 1 by omega, prev_step]

theorem step_mod : r.step p (k % r.size) = r.step p k := by
  simp only [step, Nat.add_mod_mod]

theorem step_size_pred (h : r.Mem p) : r.step p (r.size - 1) = r.prev p := by
  have hs := r.size_pos
  rw [← prev_step, show r.size - 1 + 1 = r.size by omega, step_size h]

theorem step_inj (hj : j < r.size) (hk : k < r.size) : r.step p j = r.step p k ↔ j = k := by
  refine ⟨fun h => ?_, fun h => h ▸ rfl⟩
  have h' : Nat.ModEq r.size (p - r.lo + j) (p - r.lo + k) := Nat.add_left_cancel h
  exact Nat.ModEq.eq_of_lt_of_lt (Nat.ModEq.add_left_cancel' _ h') hj hk

theorem exists_step (hp : r.Mem p) (hq : r.Mem q) : ∃ k < r.size, r.step p k = q := by
  have := hp.1
  have := hp.2
  have := hq.1
  have := hq.2
  have hsz : r.size = r.hi + 1 - r.lo := rfl
  by_cases h : p ≤ q
  · refine ⟨q - p, by omega, ?_⟩
    rw [step, Nat.mod_eq_of_lt (by omega)]
    omega
  · refine ⟨q + r.size - p, by omega, ?_⟩
    rw [step, show p - r.lo + (q + r.size - p) = q - r.lo + r.size by omega, Nat.add_mod_right,
      Nat.mod_eq_of_lt (by omega)]
    omega

/-- How far it is from `p` on to `q`. -/
def distance (r : PageRing) (p q : ℕ) : ℕ := (q + r.size - p) % r.size

theorem distance_step (hp : r.Mem p) (hk : k < r.size) : r.distance p (r.step p k) = k := by
  have := hp.1
  have := hp.2
  have hsz : r.size = r.hi + 1 - r.lo := rfl
  have hlt := Nat.mod_lt (p - r.lo + k) r.size_pos
  unfold distance step
  by_cases hwrap : p - r.lo + k < r.size
  · rw [Nat.mod_eq_of_lt hwrap, show r.lo + (p - r.lo + k) + r.size - p = k + r.size by omega,
      Nat.add_mod_right, Nat.mod_eq_of_lt hk]
  · rw [Nat.mod_eq_sub_mod (Nat.le_of_not_lt hwrap), Nat.mod_eq_of_lt (by omega : p - r.lo + k - r.size < r.size),
      show r.lo + (p - r.lo + k - r.size) + r.size - p = k by omega, Nat.mod_eq_of_lt hk]

/-- The page after `p` in the part of the ring from `start` to `stop`, taken as a ring itself. -/
def nextIn (r : PageRing) (start stop p : ℕ) : ℕ := if p = stop then start else r.next p

theorem nextIn_iterate {start n i : ℕ} (hs : r.Mem start) (hn : n ≤ r.size) (hj : j < n) :
    (r.nextIn start (r.step start (n - 1)))^[i] (r.step start j) = r.step start ((j + i) % n) := by
  induction i with
  | zero => rw [Nat.add_zero, Nat.mod_eq_of_lt hj]; rfl
  | succ i ih =>
    have hlt := Nat.mod_lt (j + i) (by omega : 0 < n)
    have hmod : (j + (i + 1)) % n = ((j + i) % n + 1) % n := by
      rw [Nat.mod_add_mod, Nat.add_assoc]
    rw [Function.iterate_succ_apply', ih, nextIn, hmod]
    by_cases h : (j + i) % n = n - 1
    · rw [if_pos (by rw [h]), h, show n - 1 + 1 = n by omega, Nat.mod_self]
      exact (step_zero hs).symm
    · rw [if_neg (by rw [step_inj (by omega) (by omega)]; exact h), next_step,
        Nat.mod_eq_of_lt (by omega : (j + i) % n + 1 < n)]

theorem nextIn_step {start n i : ℕ} (hs : r.Mem start) (hn : n ≤ r.size) (h0 : 0 < n) :
    r.nextIn start (r.step start (n - 1)) (r.step start (i % n)) = r.step start ((i + 1) % n) := by
  have h := nextIn_iterate (i := 1) hs hn (Nat.mod_lt i h0)
  rwa [Function.iterate_one, Nat.mod_add_mod] at h

/-- The page `i` places after the page `j` of the `n` pages from `start` on, going round these. -/
def turn (r : PageRing) (start n j i : ℕ) : ℕ := r.step start ((j + i) % n)

section turn

variable {start n i k : ℕ}

theorem turn_mem : r.Mem (r.turn start n j i) := step_mem

theorem turn_zero (hj : j < n) : r.turn start n j 0 = r.step start j := by
  rw [turn, Nat.add_zero, Nat.mod_eq_of_lt hj]

theorem turn_all (hj : j < n) : r.turn start n j n = r.step start j := by
  rw [turn, Nat.add_mod_right, Nat.mod_eq_of_lt hj]

theorem turn_add : r.turn start n j (i + n) = r.turn start n j i := by
  rw [turn, ← Nat.add_assoc, Nat.add_mod_right, turn]

theorem turn_turn : r.turn start n ((j + i) % n) k = r.turn start n j (i + k) := by
  simp only [turn, Nat.mod_add_mod, Nat.add_assoc]

theorem turn_inj (hn : n ≤ r.size) (hi : i < n) (hk : k < n) :
    r.turn start n j i = r.turn start n j k ↔ i = k := by
  refine ⟨fun h => ?_, fun h => h ▸ rfl⟩
  have hi' := Nat.mod_lt (j + i) (by omega : 0 < n)
  have hk' := Nat.mod_lt (j + k) (by omega : 0 < n)
  have hmod : Nat.ModEq n (j + i) (j + k) := (step_inj (by omega) (by omega)).mp h
  exact Nat.ModEq.eq_of_lt_of_lt (Nat.ModEq.add_left_cancel' j hmod) hi hk

theorem exists_turn (hj : j < n) (hk : k < n) : ∃ i < n, r.turn start n j i = r.step start k := by
  by_cases h : j ≤ k
  · refine ⟨k - j, by omega, ?_⟩
    rw [turn, show j + (k - j) = k by omega, Nat.mod_eq_of_lt hk]
  · refine ⟨k + n - j, by omega, ?_⟩
    rw [turn, show j + (k + n - j) = k + n by omega, Nat.add_mod_right, Nat.mod_eq_of_lt hk]

theorem nextIn_turn (hs : r.Mem start) (hn : n ≤ r.size) (h0 : 0 < n) :
    r.nextIn start (r.step start (n - 1)) (r.turn start n j i) = r.turn start n j (i + 1) :=
  nextIn_step hs hn h0

end turn

end PageRing

end Lpc1788Libraries.Support

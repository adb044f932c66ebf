import Mathlib.Algebra.BigOperators.Group.Finset.Basic
import Mathlib.Algebra.Order.BigOperators.Group.Finset
import Mathlib.Tactic.Common

namespace Lpc1788Libraries.Support.Blocks

variable {size : ℕ → ℕ} {fuel j k k' n r r' : ℕ}

/-- Where the `k`-th of the blocks that follow each other begins. -/
def start (size : ℕ → ℕ) (k : ℕ) : ℕ := ∑ i ∈ Finset.range k, size i

/-- Takes whole blocks off a position, from the `j`-th on, and tells the block it lies in and
the place in it. There is no result when `fuel` blocks are not enough. -/
def locate (size : ℕ → ℕ) : ℕ → ℕ → ℕ → Option (ℕ × ℕ)
  | 0, _, _ => none
  | fuel + 1, j, n => if n < size j then some (j, n) else locate size fuel (j + 1) (n - size j)

@[simp] theorem start_zero : start size 0 = 0 := rfl

theorem start_succ (k : ℕ) : start size (k + 1) = start size k + size k := Finset.sum_range_succ _ _

theorem start_mono (h : k ≤ k') : start size k ≤ start size k' :=
  Finset.sum_le_sum_of_subset (Finset.range_mono h)

theorem start_add_lt (hr : r < size k) (h : k < k') : start size k + r < start size k' := by
  have hnext : start size (k + 1) ≤ start size k' := start_mono h
  rw [start_succ] at hnext
  omega

theorem exists_block (h : n < start size k') : ∃ k r, k < k' ∧ r < size k ∧ n = start size k + r := by
  induction k' with
  | zero => exact absurd h (Nat.not_lt_zero n)
  | succ k ih =>
    by_cases hlt : n < start size k
    · obtain ⟨i, r, hi, hr, hn⟩ := ih hlt
      exact ⟨i, r, hi.trans (Nat.lt_succ_self k), hr, hn⟩
    · rw [start_succ] at h
      exact ⟨k, n - start size k, Nat.lt_succ_self k, by omega, by omega⟩

theorem locate_eq_some_iff (hn : start size j ≤ n) : locate size fuel j (n - start size j) = some (k, r) ↔
    j ≤ k ∧ k < j + fuel ∧ r < size k ∧ n = start size k + r := by
  induction fuel generalizing j with
  | zero =>
    simp only [locate, reduceCtorEq, false_iff]
    omega
  | succ fuel ih =>
    rw [locate]
    split
    next hlt =>
      rw [Option.some.injEq, Prod.mk.injEq]
      constructor
      · rintro ⟨rfl, rfl⟩
        omega
      · rintro ⟨hjk, -, hr, hpos⟩
        have hkj : k = j := by
          by_contra hne
          have hstart : start size (j + 1) ≤ start size k := start_mono (by omega)
          rw [start_succ] at hstart
          omega
        subst hkj
        omega
    next hge =>
      have hsucc : start size (j + 1) = start size j + size j := start_succ j
      have hrest : n - start size j - size j = n - start size (j + 1) := by omega
      rw [hrest, ih (by omega)]
      constructor
      · rintro ⟨hjk, hfuel, hr, hpos⟩
        exact ⟨by omega, by omega, hr, hpos⟩
      · rintro ⟨hjk, hfuel, hr, hpos⟩
        have hne : j ≠ k := by
          rintro rfl
          omega
        exact ⟨by omega, by omega, hr, hpos⟩

theorem locate_iff : locate size fuel 0 n = some (k, r) ↔ k < fuel ∧ r < size k ∧ n = start size k + r := by
  have h : locate size fuel 0 (n - start size 0) = some (k, r) ↔ 0 ≤ k ∧ k < 0 + fuel ∧ r < size k ∧
      n = start size k + r := locate_eq_some_iff (Nat.zero_le n)
  simpa using h

end Lpc1788Libraries.Support.Blocks

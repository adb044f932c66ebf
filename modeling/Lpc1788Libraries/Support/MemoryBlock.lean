import Mathlib.Data.List.Basic
import Mathlib.Logic.Function.Basic

namespace Lpc1788Libraries.Support

variable {α : Type} {mem : ℕ → α} {p a i : ℕ} {d : α} {ds : List α}

/-- A memory with a block of data from a place on. -/
def putBlock (mem : ℕ → α) (p : ℕ) (ds : List α) : ℕ → α := fun a => if p ≤ a then (ds[a - p]?).getD (mem a) else mem a

@[simp]
theorem putBlock_nil : putBlock mem p [] = mem := by
  funext a
  simp [putBlock]

theorem putBlock_cons : putBlock mem p (d :: ds) = putBlock (Function.update mem p d) (p + 1) ds := by
  funext a
  unfold putBlock
  rcases Nat.lt_trichotomy a p with ha | rfl | ha
  · rw [if_neg (by omega), if_neg (by omega), Function.update_of_ne (Nat.ne_of_lt ha)]
  · rw [if_pos (Nat.le_refl a), if_neg (by omega), Nat.sub_self, Function.update_self]
    rfl
  · rw [if_pos (Nat.le_of_lt ha), if_pos (Nat.succ_le_of_lt ha), Function.update_of_ne (Nat.ne_of_gt ha), show a - p = a - (p + 1) + 1 by omega,
      List.getElem?_cons_succ]

theorem putBlock_inside (mem : ℕ → α) (p : ℕ) (hi : i < ds.length) : putBlock mem p ds (p + i) = ds[i] := by
  rw [putBlock, if_pos (Nat.le_add_right p i), Nat.add_sub_cancel_left, List.getElem?_eq_getElem hi, Option.getD_some]

theorem putBlock_outside (h : a < p ∨ p + ds.length ≤ a) : putBlock mem p ds a = mem a := by
  unfold putBlock
  split
  · rw [List.getElem?_eq_none (by omega), Option.getD_none]
  · rfl

theorem map_putBlock : ((List.range ds.length).map fun i => putBlock mem p ds (p + i)) = ds := by
  apply List.ext_getElem (by simp)
  intro i hi hi'
  rw [List.getElem_map, List.getElem_range, putBlock_inside mem p hi']

end Lpc1788Libraries.Support

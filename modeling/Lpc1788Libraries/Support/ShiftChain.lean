import Mathlib.Data.Nat.Bitwise
import Mathlib.Data.List.Induction
import Mathlib.Tactic.Common

namespace Lpc1788Libraries.Support.ShiftChain

variable {bits : ℕ → Bool} {i k w x : ℕ} {l : List Bool} {ws : List ℕ}

/-- One clock edge: the bit comes in at the place `0` and every other one moves on. -/
def clock (bits : ℕ → Bool) (b : Bool) : ℕ → Bool
  | 0 => b
  | i + 1 => bits i

def shiftIn (bits : ℕ → Bool) (l : List Bool) : ℕ → Bool := l.foldl clock bits

/-- The bits of a word of `w` bits, the highest first. -/
def wordBits (w x : ℕ) : List Bool := (List.range w).map fun j => x.testBit (w - 1 - j)

/-- The number that the `w` places from `i` on hold. -/
def field (bits : ℕ → Bool) (i w : ℕ) : ℕ := Nat.ofBits fun j : Fin w => bits (i + j)

@[simp] theorem length_wordBits : (wordBits w x).length = w := by
  rw [wordBits, List.length_map, List.length_range]

theorem shiftIn_append (l l' : List Bool) : shiftIn bits (l ++ l') = shiftIn (shiftIn bits l) l' :=
  List.foldl_append

theorem shiftIn_add_length : shiftIn bits l (i + l.length) = bits i := by
  induction l generalizing bits i with
  | nil => rfl
  | cons b l ih =>
    have hplace : i + (b :: l).length = i + 1 + l.length := by
      rw [List.length_cons]
      omega
    rw [hplace, shiftIn, List.foldl_cons]
    exact @ih (clock bits b) (i + 1)

theorem shiftIn_lt (h : i < l.length) : shiftIn bits l i = l.reverse.getD i false := by
  induction l using List.reverseRecOn generalizing i with
  | nil => exact absurd h (Nat.not_lt_zero i)
  | append_singleton l b ih =>
    rw [shiftIn_append, List.reverse_append]
    cases i with
    | zero => rfl
    | succ i =>
      rw [List.length_append, List.length_singleton] at h
      exact ih (Nat.lt_of_succ_lt_succ h)

theorem shiftIn_wordBits (h : i < w) : shiftIn bits (wordBits w x) i = x.testBit i := by
  rw [shiftIn_lt (by rwa [length_wordBits]), List.getD_eq_getElem _ _ (by rwa [List.length_reverse, length_wordBits]),
    List.getElem_reverse]
  simp only [wordBits, List.getElem_map, List.getElem_range, List.length_map, List.length_range]
  congr 1
  omega

theorem field_shiftIn_wordBits : field (shiftIn bits (wordBits w x)) 0 w = x % 2 ^ w := by
  rw [← Nat.ofBits_testBit]
  unfold field
  congr 1
  funext j
  rw [Nat.zero_add]
  exact shiftIn_wordBits j.isLt

theorem field_shiftIn_add_length : field (shiftIn bits l) (i + l.length) w = field bits i w := by
  unfold field
  congr 1
  funext j
  rw [Nat.add_right_comm]
  exact shiftIn_add_length

theorem field_shiftIn_words (h : k < ws.length) :
    field (shiftIn bits (ws.flatMap (wordBits w))) (w * k) w = ws.reverse.getD k 0 % 2 ^ w := by
  induction ws using List.reverseRecOn generalizing k with
  | nil => exact absurd h (Nat.not_lt_zero k)
  | append_singleton ws x ih =>
    rw [List.flatMap_append, List.flatMap_singleton, shiftIn_append, List.reverse_append]
    cases k with
    | zero => exact field_shiftIn_wordBits
    | succ k =>
      rw [List.length_append, List.length_singleton] at h
      have hplace : w * (k + 1) = w * k + (wordBits w x).length := by rw [length_wordBits, Nat.mul_succ]
      rw [hplace, field_shiftIn_add_length]
      exact ih (Nat.lt_of_succ_lt_succ h)

theorem length_words : (ws.flatMap (wordBits w)).length = w * ws.length := by
  induction ws with
  | nil => rfl
  | cons x ws ih =>
    rw [List.flatMap_cons, List.length_append, length_wordBits, ih, List.length_cons, Nat.mul_succ, Nat.add_comm]

end Lpc1788Libraries.Support.ShiftChain

import Mathlib.Data.BitVec
import Mathlib.Data.List.GetD
import Mathlib.Tactic.Common

namespace Lpc1788Libraries.Support.CyclicRedundancy

variable {w : ℕ} {poly r s v : BitVec w} {x y : Bool} {l l' e : List Bool} {n : ℕ}

/-- One bit into a register that shifts towards its lowest bit. -/
def feed (poly r : BitVec w) (x : Bool) : BitVec w :=
  if r.getLsbD 0 ^^ x then (r >>> 1) ^^^ poly else r >>> 1

def run (poly r : BitVec w) (l : List Bool) : BitVec w := l.foldl (feed poly) r

/-- The `n` lowest bits of a word, the lowest first. -/
def bits : ℕ → BitVec w → List Bool
  | 0, _ => []
  | n + 1, v => v.getLsbD 0 :: bits n (v >>> 1)

def flipped (l e : List Bool) : List Bool := List.zipWith (· ^^ ·) l e

/-- An error that is not zero and lies in `w` consecutive places. -/
def Burst (w : ℕ) (e : List Bool) : Prop :=
  ∃ a b c, e = List.replicate a false ++ (b ++ List.replicate c false) ∧ b.length ≤ w ∧ true ∈ b

theorem run_cons : run poly r (x :: l) = run poly (feed poly r x) l := rfl

theorem run_append : run poly r (l ++ l') = run poly (run poly r l) l' := List.foldl_append

theorem xor_same_right (a b c : BitVec w) : a ^^^ c ^^^ (b ^^^ c) = a ^^^ b := by
  rw [BitVec.xor_assoc, BitVec.xor_comm b c, ← BitVec.xor_assoc c, BitVec.xor_self, BitVec.zero_xor]

theorem xor_right_comm (a b c : BitVec w) : a ^^^ b ^^^ c = a ^^^ c ^^^ b := by
  rw [BitVec.xor_assoc, BitVec.xor_comm b, BitVec.xor_assoc]

theorem feed_xor : feed poly (r ^^^ s) (x ^^ y) = feed poly r x ^^^ feed poly s y := by
  have hbit : ((r ^^^ s).getLsbD 0 ^^ (x ^^ y)) = ((r.getLsbD 0 ^^ x) ^^ (s.getLsbD 0 ^^ y)) := by
    rw [BitVec.getLsbD_xor, Bool.xor_assoc, Bool.xor_left_comm (s.getLsbD 0), Bool.xor_assoc]
  rw [feed, feed, feed, hbit, BitVec.ushiftRight_xor_distrib]
  cases r.getLsbD 0 ^^ x with
  | false =>
    cases s.getLsbD 0 ^^ y with
    | false => rfl
    | true => exact BitVec.xor_assoc _ _ _
  | true =>
    cases s.getLsbD 0 ^^ y with
    | false => exact xor_right_comm _ _ _
    | true => exact (xor_same_right _ _ _).symm

theorem run_flipped (h : l.length = e.length) :
    run poly (r ^^^ s) (flipped l e) = run poly r l ^^^ run poly s e := by
  induction l generalizing e r s with
  | nil =>
    rw [List.eq_nil_of_length_eq_zero h.symm]
    rfl
  | cons x l ih =>
    cases e with
    | nil => exact absurd h (Nat.succ_ne_zero _)
    | cons y e =>
      simp only [flipped, List.zipWith_cons_cons, run_cons, feed_xor]
      exact ih (Nat.succ.inj h)

theorem run_bits (h : v >>> n = 0#w) :
    run poly r (bits n v) = run poly (r ^^^ v) (List.replicate n false) := by
  induction n generalizing r v with
  | zero =>
    rw [BitVec.ushiftRight_zero] at h
    rw [h, BitVec.xor_zero]
    rfl
  | succ n ih =>
    rw [bits, run_cons, List.replicate_succ, run_cons, ih (by rw [← BitVec.shiftRight_add, Nat.add_comm, h])]
    have hfeed : feed poly r (v.getLsbD 0) ^^^ (v >>> 1) = feed poly (r ^^^ v) false := by
      simp only [feed, BitVec.getLsbD_xor, Bool.xor_false, BitVec.ushiftRight_xor_distrib]
      cases r.getLsbD 0 ^^ v.getLsbD 0 with
      | false => rfl
      | true => exact xor_right_comm _ _ _
    rw [hfeed]

theorem run_zero : run poly 0#w (List.replicate n false) = 0#w := by
  induction n with
  | zero => rfl
  | succ n ih =>
    have hfeed : feed poly 0#w false = 0#w := by
      rw [feed, BitVec.getLsbD_zero, Bool.xor_false, if_neg (by decide), BitVec.zero_ushiftRight]
    rw [List.replicate_succ, run_cons, hfeed, ih]

theorem run_self (h : r >>> n = 0#w) : run poly r (bits n r) = 0#w := by
  rw [run_bits h, BitVec.xor_self, run_zero]

theorem shifted_msb : (r >>> 1).msb = false := by
  rw [BitVec.msb_eq_getLsbD_last, BitVec.getLsbD_ushiftRight]
  apply BitVec.getLsbD_of_ge
  omega

theorem feed_of_msb (hp : poly.msb = true) (h : (feed poly r x).msb = false) :
    r.getLsbD 0 = x ∧ feed poly r x = r >>> 1 := by
  by_cases hx : (r.getLsbD 0 ^^ x) = true
  · rw [feed, if_pos hx, BitVec.msb_xor, shifted_msb, hp] at h
    exact absurd h (by decide)
  · constructor
    · rwa [Bool.not_eq_true, bne_eq_false_iff_eq] at hx
    · rw [feed, if_neg hx]

theorem run_replicate_eq_zero (hp : poly.msb = true) (h : run poly r (List.replicate n false) = 0#w) :
    r = 0#w := by
  induction n generalizing r with
  | zero => exact h
  | succ n ih =>
    have hfeed : feed poly r false = 0#w := ih h
    obtain ⟨hlow, hrest⟩ := feed_of_msb hp (by rw [hfeed, BitVec.msb_zero])
    rw [hfeed] at hrest
    apply BitVec.eq_of_getLsbD_eq
    intro i hi
    rw [BitVec.getLsbD_zero]
    cases i with
    | zero => exact hlow
    | succ i => rw [Nat.add_comm, ← BitVec.getLsbD_ushiftRight, ← hrest, BitVec.getLsbD_zero]

theorem run_eq_zero (hp : poly.msb = true) (hl : l.length ≤ w) (h : run poly r l = 0#w) (i : ℕ) :
    r.getLsbD i = l.getD i false := by
  induction l generalizing r i with
  | nil =>
    rw [show r = 0#w from h, BitVec.getLsbD_zero]
    rfl
  | cons x l ih =>
    rw [List.length_cons] at hl
    have hrest : ∀ i, (feed poly r x).getLsbD i = l.getD i false := ih (by omega) h
    have hmsb : (feed poly r x).msb = false := by
      rw [BitVec.msb_eq_getLsbD_last, hrest]
      exact List.getD_eq_default _ _ (by omega)
    obtain ⟨hlow, hshift⟩ := feed_of_msb hp hmsb
    cases i with
    | zero => exact hlow
    | succ i =>
      rw [Nat.add_comm, ← BitVec.getLsbD_ushiftRight, ← hshift, hrest, Nat.add_comm]
      rfl

theorem run_burst (hp : poly.msb = true) (h : Burst w e) : run poly 0#w e ≠ 0#w := by
  obtain ⟨a, b, c, rfl, hb, ht⟩ := h
  intro hrun
  rw [run_append, run_zero, run_append] at hrun
  have hzero : ∀ i, b.getD i false = false := by
    intro i
    rw [← run_eq_zero hp hb (run_replicate_eq_zero hp hrun), BitVec.getLsbD_zero]
  obtain ⟨i, hi, hbit⟩ := List.getElem_of_mem ht
  have := hzero i
  rw [List.getD_eq_getElem _ _ hi, hbit] at this
  exact absurd this (by decide)

theorem run_flipped_ne (hp : poly.msb = true) (hl : l.length = e.length) (he : Burst w e)
    (h : run poly r l = 0#w) : run poly r (flipped l e) ≠ 0#w := by
  have hflipped : run poly (r ^^^ 0#w) (flipped l e) = run poly r l ^^^ run poly 0#w e := run_flipped hl
  rw [BitVec.xor_zero, h, BitVec.zero_xor] at hflipped
  rw [hflipped]
  exact run_burst hp he

end Lpc1788Libraries.Support.CyclicRedundancy

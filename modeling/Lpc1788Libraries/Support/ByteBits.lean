import Mathlib.Data.Nat.Bitwise
import Mathlib.Tactic.Common

namespace Lpc1788Libraries.Support.ByteBits

variable {b m : UInt8} {j k : ℕ}

theorem forall_byte {p : UInt8 → Prop} (h : ∀ n < 256, p (UInt8.ofNat n)) (c : UInt8) : p c := by
  have hc := h c.toNat c.toNat_lt
  rwa [UInt8.ofNat_toNat] at hc

theorem testBit_not (hk : k < 8) : (~~~m).toNat.testBit k = !m.toNat.testBit k := by
  have hsub : (~~~m).toNat = 2 ^ 8 - (m.toNat + 1) := by
    rw [UInt8.toNat_not]
    change 256 - 1 - m.toNat = 256 - (m.toNat + 1)
    omega
  rw [hsub, Nat.testBit_two_pow_sub_succ m.toNat_lt, decide_eq_true hk, Bool.true_and]

theorem testBit_or_pow (hm : m.toNat = 2 ^ j) :
    (b ||| m).toNat.testBit k = if k = j then true else b.toNat.testBit k := by
  rw [UInt8.toNat_or, Nat.testBit_or, hm, Nat.testBit_two_pow]
  split_ifs with h
  · rw [decide_eq_true h.symm, Bool.or_true]
  · rw [decide_eq_false (Ne.symm h), Bool.or_false]

theorem testBit_and_not_pow (hm : m.toNat = 2 ^ j) (hk : k < 8) :
    (b &&& ~~~m).toNat.testBit k = if k = j then false else b.toNat.testBit k := by
  rw [UInt8.toNat_and, Nat.testBit_and, testBit_not hk, hm, Nat.testBit_two_pow]
  split_ifs with h
  · rw [decide_eq_true h.symm, Bool.not_true, Bool.and_false]
  · rw [decide_eq_false (Ne.symm h), Bool.not_false, Bool.and_true]

end Lpc1788Libraries.Support.ByteBits

import Lpc1788Libraries.WiFi.BufferFind

namespace Lpc1788Libraries.WiFi

variable {haystack needle : List UInt8} {i k count : ℕ} {r : Option ℕ}

/-- The `n` bytes from the place `i` on, when the memory area holds them all. -/
def bytesAt (area : List UInt8) (i n : ℕ) : Option (List UInt8) :=
  if i + n ≤ area.length then some ((area.drop i).take n) else none

/-- `memcmp` of `n` bytes, those of the haystack from the place `i` on, compared with zero. -/
def memcmpZero (haystack : List UInt8) (i : ℕ) (needle : List UInt8) (n : ℕ) : Option Bool := do
  let bytes ← bytesAt haystack i n
  let bytes' ← bytesAt needle 0 n
  return bytes = bytes'

/-- The loop of `mem_mem` with `count` rounds to go. -/
def memMemLoop (haystack needle : List UInt8) (needlesize : ℕ) : ℕ → ℕ → Option (Option ℕ)
  | 0, _ => some none
  | count + 1, i => do
    if ← memcmpZero haystack i needle needlesize then
      return some i
    else
      memMemLoop haystack needle needlesize count (i + 1)

/-- The place in the haystack that `mem_mem` returns, `none` for a null pointer. A read outside the
two memory areas has no result. -/
def memMem (haystack : List UInt8) (haystacksize : ℕ) (needle : List UInt8) (needlesize : ℕ) :
    Option (Option ℕ) := do
  if haystacksize < needlesize then
    return none
  else
    let same ← if haystacksize = needlesize then memcmpZero haystack 0 needle needlesize else pure false
    if same then
      return some 0
    else
      memMemLoop haystack needle needlesize (haystacksize - needlesize) 0

section search

instance {l data : List UInt8} : Decidable (OccursAt l data k) := inferInstanceAs (Decidable (data <+: l.drop k))

/-- The places at which the needle is compared. -/
def Compared (haystack needle : List UInt8) (k : ℕ) : Prop :=
  k + needle.length < haystack.length ∨ k = 0 ∧ needle.length = haystack.length

theorem exists_firstAt (h : OccursAt haystack needle k) : ∃ j, FirstAt haystack needle j := by
  induction k using Nat.strong_induction_on with
  | _ k ih =>
    by_cases hearlier : ∃ j < k, OccursAt haystack needle j
    · obtain ⟨j, hj, hoccurs⟩ := hearlier
      exact ih j hj hoccurs
    · exact ⟨k, h, fun j hj hoccurs => hearlier ⟨j, hj, hoccurs⟩⟩

theorem FirstAt.end_le (h : FirstAt haystack needle k) : k + needle.length ≤ haystack.length := by
  have hlen := h.1.length_le
  rw [List.length_drop] at hlen
  rcases Nat.eq_zero_or_pos k with rfl | hpos
  · omega
  · by_contra hlt
    -- only an empty needle occurs behind the end, and it occurs at the start as well
    have hnil : needle = [] := List.eq_nil_of_length_eq_zero (by omega)
    apply h.2 0 hpos
    rw [hnil]
    exact List.nil_prefix

theorem memcmpZero_eq (h : i + needle.length ≤ haystack.length) :
    memcmpZero haystack i needle needle.length = some (decide (OccursAt haystack needle i)) := by
  have hneedle : bytesAt needle 0 needle.length = some needle := by
    rw [bytesAt, if_pos (Nat.zero_add _).le, List.drop_zero, List.take_length]
  have hbytes : bytesAt haystack i needle.length = some ((haystack.drop i).take needle.length) := if_pos h
  rw [memcmpZero, hbytes, hneedle]
  apply congrArg some
  apply decide_eq_decide.mpr
  rw [OccursAt, List.prefix_iff_eq_take]
  exact eq_comm

theorem memMemLoop_eq (h : i + count + needle.length ≤ haystack.length) :
    memMemLoop haystack needle needle.length count i =
      some ((List.range' i count).find? fun k => OccursAt haystack needle k) := by
  induction count generalizing i with
  | zero => rfl
  | succ count ih =>
    rw [memMemLoop, memcmpZero_eq (by omega), List.range'_succ, List.find?_cons]
    cases decide (OccursAt haystack needle i) with
    | true => rfl
    | false => exact ih (by omega)

theorem memMem_short (h : haystack.length < needle.length) :
    memMem haystack haystack.length needle needle.length = some none := by
  rw [memMem, if_pos h]
  rfl

theorem memMem_same (h : haystack.length = needle.length) :
    memMem haystack haystack.length needle needle.length =
      some (if OccursAt haystack needle 0 then some 0 else none) := by
  rw [memMem, if_neg h.not_lt, if_pos h, memcmpZero_eq (by omega), h, Nat.sub_self]
  by_cases hoccurs : OccursAt haystack needle 0
  · rw [if_pos hoccurs, decide_eq_true hoccurs]
    rfl
  · rw [if_neg hoccurs, decide_eq_false hoccurs]
    rfl

theorem memMem_longer (h : needle.length < haystack.length) :
    memMem haystack haystack.length needle needle.length =
      some ((List.range (haystack.length - needle.length)).find? fun k => OccursAt haystack needle k) := by
  rw [memMem, if_neg (by omega), if_neg (by omega), List.range_eq_range']
  exact memMemLoop_eq (by omega)

theorem memMem_total : ∃ r, memMem haystack haystack.length needle needle.length = some r := by
  rcases Nat.lt_trichotomy haystack.length needle.length with hlt | heq | hgt
  · exact ⟨_, memMem_short hlt⟩
  · exact ⟨_, memMem_same heq⟩
  · exact ⟨_, memMem_longer hgt⟩

theorem memMem_some_iff : memMem haystack haystack.length needle needle.length = some (some k) ↔
    FirstAt haystack needle k ∧ Compared haystack needle k := by
  rcases Nat.lt_trichotomy haystack.length needle.length with hlt | heq | hgt
  · rw [memMem_short hlt]
    constructor
    · rintro ⟨⟩
    · rintro ⟨hfirst, -⟩
      have := hfirst.end_le
      omega
  · rw [memMem_same heq, Option.some.injEq, Option.ite_none_right_eq_some, Option.some.injEq]
    constructor
    · rintro ⟨hoccurs, rfl⟩
      exact ⟨⟨hoccurs, fun j hj => absurd hj (Nat.not_lt_zero j)⟩, .inr ⟨rfl, heq.symm⟩⟩
    · rintro ⟨hfirst, hcompared⟩
      obtain rfl : k = 0 := by
        have := hfirst.end_le
        omega
      exact ⟨hfirst.1, rfl⟩
  · rw [memMem_longer hgt, Option.some.injEq, List.find?_range_eq_some, List.mem_range, decide_eq_true_iff]
    constructor
    · rintro ⟨hoccurs, hk, hbefore⟩
      exact ⟨⟨hoccurs, fun j hj => by simpa using hbefore j hj⟩, .inl (by omega)⟩
    · rintro ⟨⟨hoccurs, hbefore⟩, hcompared⟩
      refine ⟨hoccurs, ?_, fun j hj => by simpa using hbefore j hj⟩
      rcases hcompared with hinside | ⟨-, heq⟩ <;> omega

end search

section finding

/-- What `mem_mem` is for: the first occurrence of the needle, or a null pointer when there is none. -/
def MemMemFinds (haystack needle : List UInt8) : Prop :=
  (∀ k, memMem haystack haystack.length needle needle.length = some (some k) ↔ FirstAt haystack needle k) ∧
  (memMem haystack haystack.length needle needle.length = some none ↔ ∀ k, ¬OccursAt haystack needle k)

/-- The needle occurs at the last possible place of a longer haystack, and not before. -/
def OnlyLast (haystack needle : List UInt8) : Prop :=
  needle.length < haystack.length ∧ FirstAt haystack needle (haystack.length - needle.length)

theorem FirstAt.compared (h : FirstAt haystack needle k) (hlast : ¬OnlyLast haystack needle) :
    Compared haystack needle k := by
  have hend := h.end_le
  rcases hend.lt_or_eq with hlt | heq
  · exact .inl hlt
  · right
    by_contra hne
    apply hlast
    constructor
    · omega
    · rwa [← heq, Nat.add_sub_cancel]

/-- It reads inside the two areas, and finds the first occurrence but for one at the very end. -/
theorem memMem_iff (haystack needle : List UInt8) :
    (∃ r, memMem haystack haystack.length needle needle.length = some r) ∧
    (MemMemFinds haystack needle ↔ ¬OnlyLast haystack needle) := by
  refine ⟨memMem_total, ?_, ?_⟩
  · rintro ⟨hfinds, -⟩ ⟨hlonger, hfirst⟩
    have hcompared := (memMem_some_iff.mp ((hfinds _).mpr hfirst)).2
    unfold Compared at hcompared
    omega
  · intro hlast
    have hfinds : ∀ k, memMem haystack haystack.length needle needle.length = some (some k) ↔
        FirstAt haystack needle k := by
      intro k
      rw [memMem_some_iff]
      constructor
      · exact fun h => h.1
      · exact fun h => ⟨h, h.compared hlast⟩
    refine ⟨hfinds, ?_, ?_⟩
    · intro hnull k hoccurs
      obtain ⟨j, hfirst⟩ := exists_firstAt hoccurs
      rw [(hfinds j).mpr hfirst] at hnull
      cases hnull
    · intro hnowhere
      obtain ⟨r, hr⟩ := @memMem_total haystack needle
      cases r with
      | none => exact hr
      | some k => exact absurd ((hfinds k).mp hr).1 (hnowhere k)

/-- `OK` at the end of three bytes. -/
theorem memMem_misses_last : ¬∀ haystack needle : List UInt8, 1 ≤ needle.length → MemMemFinds haystack needle := by
  intro h
  have hfirst : FirstAt ([0x78, 0x4f, 0x4b] : List UInt8) [0x4f, 0x4b] 1 := by
    refine ⟨⟨[], rfl⟩, fun j hj => ?_⟩
    obtain rfl : j = 0 := by omega
    decide
  have hnull : memMem [0x78, 0x4f, 0x4b] 3 [0x4f, 0x4b] 2 = some none := by decide
  have hfound := ((h [0x78, 0x4f, 0x4b] [0x4f, 0x4b] (by decide)).1 1).mpr hfirst
  cases hnull.symm.trans hfound

end finding

end Lpc1788Libraries.WiFi

import Mathlib.Data.Int.DivMod
import Lpc1788Libraries.Support.BoundedProgram
import Lpc1788Libraries.WiFi.Buffer

namespace Lpc1788Libraries.WiFi

open Lpc1788Libraries.Support BoundedProgram

/-- A 32-bit result taken as `int32_t`. -/
def int32 (x : ℕ) : ℤ := Int.bmod x 0x100000000

/-- The program of a search, with the places of the memory that it has looked at. -/
abbrev SearchM := Prog (List ℕ)

variable (b : Buffer) (data : List UInt8)

def lookAt (out : ℕ) : SearchM UInt8 := do
  Prog.modify fun looked => looked ++ [out]
  return b.mem out

def outIndex (out : ℕ) : ℕ := if b.size ≤ out then 0 else out

/-- A round of the inner loop of `BUFFER_Find`, for `i`, `Out` and `Num`. -/
def matchRound : ℕ × ℕ × ℕ → SearchM (ℕ × ℕ × ℕ ⊕ ℕ × ℕ × ℕ) := fun (i, out, num) => do
  if i < data.length then
    let out := outIndex b out
    let c ← lookAt b out
    if c ≠ data.getD i 0 then
      return .inr (i, out, num)
    else
      return .inl (i + 1, out + 1, (num + 0xffffffff) % 0x100000000)
  else
    return .inr (i, out, num)

/-- A round of the outer loop of `BUFFER_Find`, for `found`, `Out`, `Num` and `retval`. -/
def findRound : Bool × ℕ × ℕ × ℕ → SearchM (Bool × ℕ × ℕ × ℕ ⊕ ℤ) := fun (found, out, num, retval) => do
  if 0 < num then
    let out := outIndex b out
    let c ← lookAt b out
    let found := if c = data.getD 0 0 then true else found
    let out := out + 1
    let num := (num + 0xffffffff) % 0x100000000
    let retval := retval + 1
    if found then
      let (i, out, num) ← Prog.loop (matchRound b data) (1, out, num)
      if i = data.length then
        return .inr (int32 (retval + 0xffffffff))
      else
        return .inl (found, out, num, (retval + (i - 1)) % 0x100000000)
    else
      return .inl (found, out, num, retval)
  else
    return .inr (-1)

def bufferFindInt32 : SearchM ℤ := do
  let num := bufferGetFull b
  if num < data.length then
    return -1
  else
    Prog.loop (findRound b data) (false, b.out, num, 0)

section specification

variable {α : Type}

def OccursAt (l data : List α) (k : ℕ) : Prop := data <+: l.drop k

def FirstAt (l data : List α) (k : ℕ) : Prop := OccursAt l data k ∧ ∀ j < k, ¬ OccursAt l data j

/-- The first `k` elements are pieces, each of one element and as many more as agree with the
start of `t` before one differs, and `t` stands behind the element after them. -/
inductive Pieces (t : List α) : List α → ℕ → Prop
  | done {x : α} {l : List α} (h : t <+: l) : Pieces t (x :: l) 0
  | piece {x y z : α} {p l : List α} {k : ℕ} (hp : p ++ [z] <+: t) (hne : y ≠ z) (h : Pieces t (y :: l) k) :
      Pieces t (x :: (p ++ y :: l)) (p.length + 1 + k)

/-- Where a list leaves another: the other is all there, or there is a first difference, or the
list comes to its end before. -/
theorem compare_lists (t l : List α) [DecidableEq α] : t <+: l ∨
    (∃ p y z l', l = p ++ y :: l' ∧ p ++ [z] <+: t ∧ y ≠ z) ∨ ∃ z, l ++ [z] <+: t := by
  induction t generalizing l with
  | nil => exact .inl (List.nil_prefix)
  | cons z t ih =>
    cases l with
    | nil => exact .inr (.inr ⟨z, by simp⟩)
    | cons y l =>
      by_cases hyz : y = z
      · subst hyz
        rcases ih l with h | ⟨p, x, w, l', rfl, hp, hne⟩ | ⟨w, hw⟩
        · exact .inl ((List.prefix_cons_inj y).mpr h)
        · exact .inr (.inl ⟨y :: p, x, w, l', rfl, (List.prefix_cons_inj y).mpr hp, hne⟩)
        · exact .inr (.inr ⟨w, (List.prefix_cons_inj y).mpr hw⟩)
      · exact .inr (.inl ⟨[], y, z, l, rfl, by simp, hyz⟩)

theorem getElem?_of_append {t p l : List α} {z : α} (h : p ++ z :: l <+: t) : t[p.length]? = some z := by
  obtain ⟨r, rfl⟩ := h
  simp

theorem difference_unique {t p q l m : List α} {y z v w : α} (hp : p ++ [z] <+: t) (hyz : y ≠ z)
    (hq : q ++ [w] <+: t) (hvw : v ≠ w) (he : p ++ y :: l = q ++ v :: m) : p.length = q.length := by
  have earlier : ∀ {p q l m : List α} {y z v w : α}, p ++ [z] <+: t → y ≠ z → q ++ [w] <+: t →
      p ++ y :: l = q ++ v :: m → ¬ p.length < q.length := by
    intro p q l m y z v w hp hyz hq he hlt
    have h1 := getElem?_of_append hp
    have h2 : t[p.length]? = q[p.length]? := by
      obtain ⟨r, rfl⟩ := hq
      rw [List.append_assoc, List.getElem?_append_left hlt]
    have h3 : (p ++ y :: l)[p.length]? = some y := by simp
    rw [he, List.getElem?_append_left hlt, ← h2, h1] at h3
    exact hyz (Option.some.inj h3).symm
  rcases Nat.lt_trichotomy p.length q.length with h | h | h
  · exact absurd h (earlier hp hyz hq he)
  · exact h
  · exact absurd h (earlier hq hvw hp he.symm)

theorem not_prefix_of_difference {t p l : List α} {y z : α} (hp : p ++ [z] <+: t) (hyz : y ≠ z) :
    ¬ t <+: p ++ y :: l := by
  intro h
  have h1 := getElem?_of_append (hp.trans h)
  simp only [List.getElem?_append_right (Nat.le_refl _), Nat.sub_self, List.getElem?_cons_zero] at h1
  exact hyz (Option.some.inj h1)

theorem pieces_difference {t p l : List α} {x y z : α} {k : ℕ} (hp : p ++ [z] <+: t) (hyz : y ≠ z) :
    Pieces t (x :: (p ++ y :: l)) k ↔ ∃ k', k = p.length + 1 + k' ∧ Pieces t (y :: l) k' := by
  constructor
  · intro h
    generalize hl : x :: (p ++ y :: l) = m at h
    cases h with
    | done h =>
      obtain ⟨-, rfl⟩ := List.cons.inj hl
      exact absurd h (not_prefix_of_difference hp hyz)
    | @piece _ v w q l' k' hq hvw h =>
      obtain ⟨-, he⟩ := List.cons.inj hl
      have hlen := difference_unique hp hyz hq hvw he
      obtain ⟨rfl, he'⟩ := List.append_inj he hlen
      obtain ⟨rfl, rfl⟩ := List.cons.inj he'
      exact ⟨k', rfl, h⟩
  · rintro ⟨k', rfl, h⟩
    exact .piece hp hyz h

theorem not_pieces_of_end {t l : List α} {x z : α} {k : ℕ} (hl : l ++ [z] <+: t) : ¬ Pieces t (x :: l) k := by
  intro h
  generalize hm : x :: l = m at h
  cases h with
  | done h =>
    obtain ⟨-, rfl⟩ := List.cons.inj hm
    have := (hl.trans h).length_le
    rw [List.length_append, List.length_singleton] at this
    omega
  | @piece _ v w q l' k' hq hvw h =>
    obtain ⟨-, rfl⟩ := List.cons.inj hm
    have h1 : t[q.length]? = some v := by
      obtain ⟨r, rfl⟩ := hl
      simp
    exact hvw (Option.some.inj (h1.symm.trans (getElem?_of_append hq)))

end specification

section places

variable {b : Buffer} {j : ℕ}

def Stored (b : Buffer) (i : ℕ) : Prop := ∃ j < bufferGetFull b, i = b.place j

theorem bufferGetFull_lt (h : b.Valid) : bufferGetFull b < b.size := by
  have := free_add_full h
  omega

theorem place_lt (h : b.Valid) (hj : j ≤ bufferGetFull b) : b.place j < b.size := by
  have := bufferGetFull_lt h
  obtain ⟨h1, h2, h3⟩ := h
  simp only [Buffer.place]
  split_ifs <;> omega

theorem outIndex_place (h : b.Valid) (hj : j ≤ bufferGetFull b) : outIndex b (b.place j) = b.place j :=
  if_neg (Nat.not_le.mpr (place_lt h hj))

theorem outIndex_succ (h : b.Valid) (hj : j < bufferGetFull b) : outIndex b (b.place j + 1) = b.place (j + 1) := by
  have := bufferGetFull_lt h
  obtain ⟨h1, h2, h3⟩ := h
  simp only [outIndex, Buffer.place]
  split_ifs <;> omega

theorem place_inj (h : b.Valid) {i : ℕ} (hi : i ≤ bufferGetFull b) (hj : j ≤ bufferGetFull b)
    (he : b.place i = b.place j) : i = j := by
  have := bufferGetFull_lt h
  obtain ⟨h1, h2, h3⟩ := h
  simp only [Buffer.place] at he
  split_ifs at he <;> omega

theorem place_full_not_stored (h : b.Valid) : ¬ Stored b (b.place (bufferGetFull b)) := by
  rintro ⟨j, hj, he⟩
  exact absurd (place_inj h (Nat.le_refl _) (Nat.le_of_lt hj) he) (by omega)

theorem contents_drop (hj : j < bufferGetFull b) :
    b.contents.drop j = b.mem (b.place j) :: b.contents.drop (j + 1) := by
  have hlen : j < b.contents.length := by rwa [length_contents]
  rw [List.drop_eq_getElem_cons hlen]
  congr 1
  exact Option.some.inj ((List.getElem?_eq_getElem hlen).symm.trans (getElem?_contents hj))

theorem contents_drop_nil (hj : bufferGetFull b ≤ j) : b.contents.drop j = [] := by
  apply List.drop_eq_nil_of_le
  rwa [length_contents]

end places

section run

variable {b : Buffer} {data looked l p : List UInt8} {seen : List ℕ} {i j k out num retval : ℕ} {y z : UInt8}

def AllStored (b : Buffer) (seen : List ℕ) : Prop := ∀ x ∈ seen, Stored b x

/-- Every answer comes after a look at a byte that is not stored. -/
def Strays {β : Type} (b : Buffer) (q : SearchM β) (seen : List ℕ) : Prop :=
  ∀ a seen', q.Returns seen a seen' → ¬ AllStored b seen'

def Grows (seen seen' : List ℕ) : Prop := seen <+: seen'

instance : Std.Refl Grows := ⟨List.prefix_refl⟩

instance : IsTrans (List ℕ) Grows := ⟨fun _ _ _ => List.IsPrefix.trans⟩

theorem lookAt_returns : (lookAt b out).Returns seen (b.mem out) (seen ++ [out]) := by
  simp [lookAt]

theorem lookAt_grows : (lookAt b out).Within Grows := by
  have hlook : (Prog.modify fun seen : List ℕ => seen ++ [out]).Within Grows :=
    Prog.within_modify fun seen => List.prefix_append seen [out]
  apply Prog.within_bind hlook
  intro _
  exact Prog.within_pure

theorem matchRound_grows {x : ℕ × ℕ × ℕ} : (matchRound b data x).Within Grows := by
  obtain ⟨i, out, num⟩ := x
  refine Prog.within_ite ?_ Prog.within_pure
  apply Prog.within_bind lookAt_grows
  intro c
  exact Prog.within_ite Prog.within_pure Prog.within_pure

theorem findRound_grows {x : Bool × ℕ × ℕ × ℕ} : (findRound b data x).Within Grows := by
  obtain ⟨found, out, num, retval⟩ := x
  refine Prog.within_ite ?_ Prog.within_pure
  apply Prog.within_bind lookAt_grows
  intro c
  refine Prog.within_ite ?_ Prog.within_pure
  apply Prog.within_bind (Prog.within_loop fun _ => matchRound_grows)
  rintro ⟨i, out, num⟩
  exact Prog.within_ite Prog.within_pure Prog.within_pure

theorem strays_of_grows {β : Type} {q : SearchM β} (hq : q.Within Grows) {x : ℕ} (hx : x ∈ seen) (hs : ¬ Stored b x) :
    Strays b q seen := fun _ _ hr h => hs (h x ((hq hr).subset hx))

theorem AllStored.look (h : AllStored b seen) (hj : j < bufferGetFull b) : AllStored b (seen ++ [b.place j]) := by
  intro x hx
  rcases List.mem_append.mp hx with hx | hx
  · exact h x hx
  · exact ⟨j, hj, List.mem_singleton.mp hx⟩

theorem num_pred (h : b.Valid) (hj : j < bufferGetFull b) :
    (bufferGetFull b - j + 0xffffffff) % 0x100000000 = bufferGetFull b - (j + 1) := by
  have := bufferGetFull_lt h
  have := h.size_lt
  omega

theorem matchRound_same (h : b.Valid) (hout : outIndex b out = b.place j) (hj : j < bufferGetFull b)
    (hi : data[i]? = some (b.mem (b.place j))) :
    (matchRound b data (i, out, bufferGetFull b - j)).Returns seen
      (.inl (i + 1, b.place j + 1, bufferGetFull b - (j + 1))) (seen ++ [b.place j]) := by
  obtain ⟨hlt, hget⟩ := List.getElem?_eq_some_iff.mp hi
  have hd : data.getD i 0 = b.mem (b.place j) := by rw [List.getD_eq_getElem?_getD, hi, Option.getD_some]
  unfold matchRound
  simp only [hlt, if_true, hout]
  apply lookAt_returns.bind
  rw [if_neg (by rw [hd, not_not]), num_pred h hj]
  exact Prog.returns_pure.mpr ⟨rfl, rfl⟩

theorem matchRound_differs (hout : outIndex b out = b.place j) (hi : data[i]? = some z) (hne : b.mem (b.place j) ≠ z) :
    (matchRound b data (i, out, num)).Returns seen (.inr (i, b.place j, num)) (seen ++ [b.place j]) := by
  obtain ⟨hlt, hget⟩ := List.getElem?_eq_some_iff.mp hi
  have hd : data.getD i 0 = z := by rw [List.getD_eq_getElem?_getD, hi, Option.getD_some]
  unfold matchRound
  simp only [hlt, if_true, hout]
  apply lookAt_returns.bind
  rw [if_pos (by rw [hd]; exact hne)]
  exact Prog.returns_pure.mpr ⟨rfl, rfl⟩

theorem data_of_drop {u : List UInt8} (h : data.drop i = z :: u) : data[i]? = some z ∧ data.drop (i + 1) = u := by
  constructor
  · have : (data.drop i)[0]? = data[i + 0]? := List.getElem?_drop
    rw [h] at this
    simpa using this.symm
  · rw [← List.tail_drop, h]
    rfl

theorem match_all (data : List UInt8) (i : ℕ) (h : b.Valid) (hout : outIndex b out = b.place j) (hseen : AllStored b seen)
    (hi : i ≤ data.length) (hl : data.drop i <+: b.contents.drop j) : ∃ out' num' seen',
    (Prog.loop (matchRound b data) (i, out, bufferGetFull b - j)).Returns seen (data.length, out', num') seen' ∧
      AllStored b seen' := by
  generalize hu : data.drop i = u at hl
  induction u generalizing i j out seen with
  | nil =>
    have hlen : data.length ≤ i := List.drop_eq_nil_iff.mp hu
    obtain rfl : i = data.length := by omega
    refine ⟨out, bufferGetFull b - j, seen, ?_, hseen⟩
    apply Prog.loop_inr
    simp [matchRound]
  | cons z u ih =>
    obtain ⟨hget, hrest⟩ := data_of_drop hu
    have hj : j < bufferGetFull b := by
      by_contra hj
      rw [contents_drop_nil (Nat.le_of_not_lt hj)] at hl
      exact absurd hl.length_le (by simp)
    rw [contents_drop hj] at hl
    obtain ⟨hz, hl'⟩ := List.cons_prefix_cons.mp hl
    have hlt := (List.getElem?_eq_some_iff.mp hget).1
    obtain ⟨out', num', seen', hr, hs⟩ := ih _ (outIndex_succ h hj) (hseen.look hj) (by omega) hrest hl'
    refine ⟨out', num', seen', Prog.loop_inl (matchRound_same h hout hj ?_) hr, hs⟩
    rw [hget, hz]

theorem match_differs (data : List UInt8) (i : ℕ) (h : b.Valid) (hout : outIndex b out = b.place j) (hseen : AllStored b seen)
    (hl : b.contents.drop j = p ++ y :: l) (hp : p ++ [z] <+: data.drop i) (hne : y ≠ z) : ∃ seen',
    (Prog.loop (matchRound b data) (i, out, bufferGetFull b - j)).Returns seen
      (i + p.length, b.place (j + p.length), bufferGetFull b - (j + p.length)) seen' ∧
      AllStored b seen' ∧ i + p.length < data.length ∧ j + p.length < bufferGetFull b := by
  have hj : j < bufferGetFull b := by
    by_contra hj
    rw [contents_drop_nil (Nat.le_of_not_lt hj)] at hl
    simp at hl
  rw [contents_drop hj] at hl
  induction p generalizing i j out seen with
  | nil =>
    obtain ⟨u, hu⟩ := hp
    obtain ⟨hget, -⟩ := data_of_drop hu.symm
    obtain ⟨rfl, -⟩ := List.cons.inj hl
    refine ⟨_, Prog.loop_inr (matchRound_differs hout hget hne), hseen.look hj, ?_, hj⟩
    exact (List.getElem?_eq_some_iff.mp hget).1
  | cons x p ih =>
    obtain ⟨u, hu⟩ := hp
    obtain ⟨hget, hrest⟩ := data_of_drop hu.symm
    obtain ⟨rfl, hl'⟩ := List.cons.inj hl
    have hj' : j + 1 < bufferGetFull b := by
      by_contra hj'
      rw [contents_drop_nil (Nat.le_of_not_lt hj')] at hl'
      simp at hl'
    rw [contents_drop hj'] at hl'
    have hp' : p ++ [z] <+: data.drop (i + 1) := ⟨u, hrest.symm⟩
    obtain ⟨seen', hr, hs, h1, h2⟩ := ih _ (outIndex_succ h hj) (hseen.look hj) hl' hp' hj'
    simp only [List.length_cons, ← Nat.add_assoc, Nat.add_right_comm _ _ 1] at hr h1 h2 ⊢
    exact ⟨seen', Prog.loop_inl (matchRound_same h hout hj hget) hr, hs, h1, h2⟩

theorem match_strays (h : b.Valid) (hout : outIndex b out = b.place j) (hj : j ≤ bufferGetFull b)
    (hl : b.contents.drop j ++ [z] <+: data.drop i) :
    Strays b (Prog.loop (matchRound b data) (i, out, bufferGetFull b - j)) seen := by
  generalize hu : b.contents.drop j = u at hl
  induction u generalizing i j out seen with
  | nil =>
    have hlen := List.drop_eq_nil_iff.mp hu
    rw [length_contents] at hlen
    obtain rfl : j = bufferGetFull b := by omega
    obtain ⟨u, hu⟩ := hl
    obtain ⟨hget, -⟩ := data_of_drop hu.symm
    intro a seen' hr
    -- the next look is at the place behind the stored bytes
    have hround : ∀ x t, (matchRound b data (i, out, bufferGetFull b - bufferGetFull b)).Returns seen x t →
        b.place (bufferGetFull b) ∈ t := by
      intro x t ht
      simp only [matchRound, (List.getElem?_eq_some_iff.mp hget).1, if_true, hout] at ht
      obtain ⟨c, t', h1, h2⟩ := Prog.returns_bind.mp ht
      obtain ⟨-, rfl⟩ := h1.unique lookAt_returns
      split at h2
      · obtain ⟨-, rfl⟩ := Prog.returns_pure.mp h2
        simp
      · obtain ⟨-, rfl⟩ := Prog.returns_pure.mp h2
        simp
    rcases Prog.returns_loop.mp hr with hr | ⟨x, t, hx, hr⟩
    · exact fun hs => place_full_not_stored h (hs _ (hround _ _ hr))
    · exact strays_of_grows (Prog.within_loop fun _ => matchRound_grows) (hround _ _ hx) (place_full_not_stored h) a seen' hr
  | cons x u ih =>
    have hj' : j < bufferGetFull b := by
      by_contra hj'
      rw [contents_drop_nil (Nat.le_of_not_lt hj')] at hu
      simp at hu
    rw [contents_drop hj'] at hu
    obtain ⟨rfl, hu'⟩ := List.cons.inj hu
    obtain ⟨v, hv⟩ := hl
    obtain ⟨hget, hrest⟩ := data_of_drop hv.symm
    intro a seen' hr
    rw [Prog.loop_inl_iff (matchRound_same h hout hj' hget)] at hr
    have hl' : u ++ [z] <+: data.drop (i + 1) := ⟨v, hrest.symm⟩
    exact ih (outIndex_succ h hj') hj' hu' hl' a seen' hr

end run

section search

variable {b : Buffer} {d : UInt8} {t a s l p : List UInt8} {seen : List ℕ} {found : Bool} {i j k out : ℕ} {x y z : UInt8}

theorem int32_of_lt (h : j < 0x80000000) : int32 j = j := by
  unfold int32
  rw [Int.bmod_eq_of_le (by omega) (by omega)]

theorem int32_add : int32 (j + 1 + 0xffffffff) = int32 j := by
  unfold int32
  rw [show ((j + 1 + 0xffffffff : ℕ) : ℤ) = (j : ℤ) + (0x100000000 : ℕ) by omega, Int.add_bmod_right]

/-- The state of the search before it looks at the stored byte `j`. -/
def before (b : Buffer) (found : Bool) (out j : ℕ) : Bool × ℕ × ℕ × ℕ := (found, out, bufferGetFull b - j, j)

theorem findRound_taken {r : ℕ × ℕ × ℕ} {seen' : List ℕ} (h : b.Valid) (hout : outIndex b out = b.place j)
    (hj : j < bufferGetFull b) (hfound : found = true ∨ b.mem (b.place j) = d)
    (hr : (Prog.loop (matchRound b (d :: t)) (1, b.place j + 1, bufferGetFull b - (j + 1))).Returns
      (seen ++ [b.place j]) r seen') : (findRound b (d :: t) (before b found out j)).Returns seen
        (if r.1 = (d :: t).length then .inr (int32 j) else
          .inl (true, r.2.1, r.2.2, (j + 1 + (r.1 - 1)) % 0x100000000)) seen' := by
  have hf : (if b.mem (b.place j) = d then true else found) = true := by
    rcases hfound with rfl | hfound
    · exact ite_self true
    · rw [if_pos hfound]
  unfold findRound before
  simp only [show 0 < bufferGetFull b - j by omega, if_true, hout]
  apply lookAt_returns.bind
  simp only [List.getD_cons_zero, hf, if_true, num_pred h hj]
  apply hr.bind
  rw [int32_add]
  split
  · exact Prog.returns_pure.mpr ⟨rfl, rfl⟩
  · exact Prog.returns_pure.mpr ⟨rfl, rfl⟩

theorem findRound_strays (h : b.Valid) (hout : outIndex b out = b.place j) (hj : j < bufferGetFull b)
    (hfound : found = true ∨ b.mem (b.place j) = d) (hl : b.contents.drop (j + 1) ++ [z] <+: t) :
    Strays b (Prog.loop (findRound b (d :: t)) (before b found out j)) seen := by
  intro r seen' hr
  have hf : (if b.mem (b.place j) = d then true else found) = true := by
    rcases hfound with rfl | hfound
    · exact ite_self true
    · rw [if_pos hfound]
  have hround : ∀ x t', (findRound b (d :: t) (before b found out j)).Returns seen x t' → ¬ AllStored b t' := by
    intro x t' hx
    simp only [findRound, before, show 0 < bufferGetFull b - j by omega, if_true, hout] at hx
    rw [lookAt_returns.bind_iff] at hx
    simp only [List.getD_cons_zero, hf, if_true, num_pred h hj] at hx
    obtain ⟨m, t₁, h1, h2⟩ := Prog.returns_bind.mp hx
    have hs := match_strays (i := 1) h (outIndex_succ h hj) (by omega) hl m t₁ h1
    split at h2
    · obtain ⟨-, rfl⟩ := Prog.returns_pure.mp h2
      exact hs
    · obtain ⟨-, rfl⟩ := Prog.returns_pure.mp h2
      exact hs
  rcases Prog.returns_loop.mp hr with hr | ⟨m, t', hm, hr⟩
  · exact hround _ _ hr
  · exact fun hs => hround _ _ hm fun x hx => hs x ((Prog.within_loop (fun _ => findRound_grows) hr).subset hx)

/-- From a byte that is taken as the first one the search comes to the end of the pieces, and where
these do not come to an end it strays. -/
theorem find_taken (t : List UInt8) (found : Bool) (h : b.Valid) (hout : outIndex b out = b.place j) (hs : b.contents.drop j = x :: l)
    (hfound : found = true ∨ x = d) (hseen : AllStored b seen) :
    (∃ k seen', Pieces t (x :: l) k ∧ AllStored b seen' ∧
      (Prog.loop (findRound b (d :: t)) (before b found out j)).Returns seen (int32 (j + k)) seen') ∨
    (∀ k, ¬ Pieces t (x :: l) k) ∧ Strays b (Prog.loop (findRound b (d :: t)) (before b found out j)) seen := by
  induction hn : l.length using Nat.strongRecOn generalizing j x l found out seen with
  | ind n ih =>
    have hj : j < bufferGetFull b := by
      by_contra hj
      rw [contents_drop_nil (Nat.le_of_not_lt hj)] at hs
      simp at hs
    rw [contents_drop hj] at hs
    obtain ⟨rfl, hl⟩ := List.cons.inj hs
    rcases compare_lists t l with hpre | ⟨p, y, z, l', rfl, hp, hne⟩ | ⟨z, hz⟩
    · left
      obtain ⟨out', num', seen', hr, hs'⟩ := match_all (d :: t) 1 h (outIndex_succ h hj)
        (hseen.look hj) (by simp) (by rw [hl]; exact hpre)
      refine ⟨0, seen', .done hpre, hs', Prog.loop_inr ?_⟩
      have := findRound_taken h hout hj hfound hr
      rwa [if_pos rfl] at this
    · obtain ⟨seen', hr, hs', h1, h2⟩ := match_differs (d :: t) 1 h (outIndex_succ h hj)
        (hseen.look hj) hl hp hne
      have hround := findRound_taken h hout hj hfound hr
      have hlt := bufferGetFull_lt h
      have hsize := h.size_lt
      rw [if_neg (by simp only; omega), show (j + 1 + (1 + p.length - 1)) % 0x100000000 = j + 1 + p.length by omega]
        at hround
      have hdrop : b.contents.drop (j + 1 + p.length) = y :: l' := by
        rw [← List.drop_drop, hl, List.drop_left]
      rcases ih l'.length (by rw [← hn, List.length_append, List.length_cons]; omega) _ (outIndex_place h (Nat.le_of_lt h2)) hdrop (.inl rfl) hs' rfl with
        ⟨k, seen'', hk, hs'', hr''⟩ | ⟨hno, hstray⟩
      · left
        refine ⟨p.length + 1 + k, seen'', .piece hp hne hk, hs'', Prog.loop_inl hround ?_⟩
        rwa [show j + (p.length + 1 + k) = j + 1 + p.length + k by omega]
      · right
        constructor
        · intro k hk
          obtain ⟨k', -, hk'⟩ := (pieces_difference hp hne).mp hk
          exact hno k' hk'
        · intro r seen'' hr''
          rw [Prog.loop_inl_iff hround] at hr''
          exact hstray r seen'' hr''
    · right
      exact ⟨fun k => not_pieces_of_end hz, findRound_strays h hout hj hfound (by rw [hl]; exact hz)⟩

theorem find_skips (h : b.Valid) (hout : outIndex b out = b.place j) (hs : b.contents.drop j = a ++ s)
    (ha : d ∉ a) (hseen : AllStored b seen) : ∃ out' seen', AllStored b seen' ∧
      outIndex b out' = b.place (j + a.length) ∧ ∀ r u,
        (Prog.loop (findRound b (d :: t)) (before b false out j)).Returns seen r u ↔
          (Prog.loop (findRound b (d :: t)) (before b false out' (j + a.length))).Returns seen' r u := by
  induction a generalizing j out seen with
  | nil => exact ⟨out, seen, hseen, hout, fun r u => Iff.rfl⟩
  | cons x a ih =>
    have hj : j < bufferGetFull b := by
      by_contra hj
      rw [contents_drop_nil (Nat.le_of_not_lt hj)] at hs
      simp at hs
    rw [contents_drop hj] at hs
    obtain ⟨rfl, hl⟩ := List.cons.inj hs
    obtain ⟨hx, ha'⟩ := not_or.mp fun hx => ha (List.mem_cons.mpr hx)
    have hround : (findRound b (d :: t) (before b false out j)).Returns seen
        (.inl (before b false (b.place j + 1) (j + 1))) (seen ++ [b.place j]) := by
      unfold findRound before
      simp only [show 0 < bufferGetFull b - j by omega, if_true, hout]
      apply lookAt_returns.bind
      simp only [List.getD_cons_zero, if_neg (Ne.symm hx), Bool.false_eq_true, if_false, num_pred h hj]
      exact Prog.returns_pure.mpr ⟨rfl, rfl⟩
    obtain ⟨out', seen', hs', hout', hr'⟩ := ih (outIndex_succ h hj) hl ha' (hseen.look hj)
    rw [show j + 1 + a.length = j + (b.mem (b.place j) :: a).length by simp; omega] at hout' hr'
    exact ⟨out', seen', hs', hout', fun r u => (Prog.loop_inl_iff hround).trans (hr' r u)⟩

end search

section answer

variable {b : Buffer} {data l : List UInt8} {d : UInt8} {t : List UInt8} {k : ℕ} {r : ℤ}

/-- The first place of the data in the list, or `-1`. -/
def IsFirstPlace (l data : List UInt8) (r : ℤ) : Prop :=
  (∃ k : ℕ, FirstAt l data k ∧ r = k) ∨ (∀ k, ¬ OccursAt l data k) ∧ r = -1

/-- The search answers with the first place of the data, and has only looked at stored bytes. -/
def FindsFirst (b : Buffer) (data : List UInt8) : Prop := ∃ r seen, (bufferFindInt32 b data).Returns [] r seen ∧
  AllStored b seen ∧ IsFirstPlace b.contents data r

/-- The lists in which a search that goes on behind a failed candidate loses nothing. -/
def NothingLost (l data : List UInt8) : Prop :=
  l.length < data.length ∨ (∀ d ∈ data.head?, d ∉ l) ∨ ∃ a s k, l = a ++ s ∧ (∀ d ∈ data.head?, d ∉ a) ∧
    s.head? = data.head? ∧ Pieces data.tail s k ∧ FirstAt l data (a.length + k) ∧ a.length + k < 0x80000000

theorem FirstAt.unique {j : ℕ} (hk : FirstAt l data k) (hj : FirstAt l data j) : k = j := by
  rcases Nat.lt_trichotomy k j with h | h | h
  · exact absurd hk.1 (hj.2 k h)
  · exact h
  · exact absurd hj.1 (hk.2 j h)

theorem not_occursAt_of_short (h : l.length < data.length) (k : ℕ) : ¬ OccursAt l data k := by
  intro hk
  have := hk.length_le
  rw [List.length_drop] at this
  omega

theorem not_occursAt_of_not_mem (h : d ∉ l) (k : ℕ) : ¬ OccursAt l (d :: t) k := by
  rintro ⟨s, hs⟩
  apply h
  apply List.mem_of_mem_drop (i := k)
  rw [← hs]
  simp

theorem bufferFind_short (h : b.contents.length < data.length) : (bufferFindInt32 b data).Returns [] (-1) [] := by
  rw [length_contents] at h
  unfold bufferFindInt32
  simp only [h, if_true]
  exact Prog.returns_pure.mpr ⟨rfl, rfl⟩

theorem bufferFind_start {a s : List UInt8} (h : b.Valid) (hlen : (d :: t).length ≤ b.contents.length)
    (hs : b.contents = a ++ s) (ha : d ∉ a) : ∃ out seen, AllStored b seen ∧ outIndex b out = b.place a.length ∧
      ∀ r u, (bufferFindInt32 b (d :: t)).Returns [] r u ↔
        (Prog.loop (findRound b (d :: t)) (before b false out a.length)).Returns seen r u := by
  rw [length_contents] at hlen
  have h0 : outIndex b b.out = b.place 0 := by
    have := h.out_lt
    simp [outIndex, Buffer.place, this]
  have hnil : AllStored b [] := fun x hx => absurd hx (by simp)
  obtain ⟨out, seen, hseen, hout, hr⟩ := find_skips (t := t) (j := 0) h h0 (by rw [List.drop_zero]; exact hs) ha hnil
  have hfind : ∀ r u, (bufferFindInt32 b (d :: t)).Returns [] r u ↔
      (Prog.loop (findRound b (d :: t)) (before b false b.out 0)).Returns [] r u := by
    intro r u
    unfold bufferFindInt32 before
    simp only [Nat.not_lt.mpr hlen, if_false, Nat.sub_zero]
  rw [Nat.zero_add] at hout hr
  exact ⟨out, seen, hseen, hout, fun r u => (hfind r u).trans (hr r u)⟩

theorem bufferFind_absent (h : b.Valid) (hlen : (d :: t).length ≤ b.contents.length) (hd : d ∉ b.contents) :
    ∃ seen, (bufferFindInt32 b (d :: t)).Returns [] (-1) seen ∧ AllStored b seen := by
  obtain ⟨out, seen, hseen, hout, hr⟩ := bufferFind_start h hlen (List.append_nil b.contents).symm hd
  refine ⟨seen, (hr _ _).mpr (Prog.loop_inr ?_), hseen⟩
  simp [findRound, before, length_contents]

theorem bufferFind_present {a s : List UInt8} (h : b.Valid) (hlen : (d :: t).length ≤ b.contents.length)
    (hs : b.contents = a ++ d :: s) (ha : d ∉ a) :
    (∃ k seen, Pieces t (d :: s) k ∧ AllStored b seen ∧
      (bufferFindInt32 b (d :: t)).Returns [] (int32 (a.length + k)) seen) ∨
    (∀ k, ¬ Pieces t (d :: s) k) ∧ Strays b (bufferFindInt32 b (d :: t)) [] := by
  obtain ⟨out, seen, hseen, hout, hr⟩ := bufferFind_start h hlen hs ha
  have hdrop : b.contents.drop a.length = d :: s := by rw [hs, List.drop_left]
  rcases find_taken t false h hout hdrop (.inr rfl) hseen with ⟨k, seen', hk, hs', hr'⟩ | ⟨hno, hstray⟩
  · exact .inl ⟨k, seen', hk, hs', (hr _ _).mpr hr'⟩
  · exact .inr ⟨hno, fun r u hu => hstray r u ((hr r u).mp hu)⟩

theorem Pieces.lt_length {l t : List UInt8} (h : Pieces t l k) : k < l.length := by
  induction h with
  | done _ => simp
  | piece _ _ _ ih =>
    simp only [List.length_cons, List.length_append] at ih ⊢
    omega

theorem Pieces.unique {l t : List UInt8} {j : ℕ} (hk : Pieces t l k) (hj : Pieces t l j) : k = j := by
  induction hk generalizing j with
  | done h =>
    generalize hl : _ :: _ = m at hj
    cases hj with
    | done _ => rfl
    | piece hp hne _ =>
      obtain ⟨-, rfl⟩ := List.cons.inj hl
      exact absurd h (not_prefix_of_difference hp hne)
  | piece hp hne _ ih =>
    obtain ⟨k', rfl, hk'⟩ := (pieces_difference hp hne).mp hj
    rw [ih hk']

theorem split_first (h : d ∈ l) : ∃ a s, l = a ++ d :: s ∧ d ∉ a := by
  induction l with
  | nil => exact absurd h (by simp)
  | cons x l ih =>
    by_cases hx : x = d
    · exact ⟨[], l, by rw [hx]; rfl, by simp⟩
    · obtain ⟨a, s, rfl, ha⟩ := ih ((List.mem_cons.mp h).resolve_left (Ne.symm hx))
      refine ⟨x :: a, s, rfl, ?_⟩
      rintro (_ | ⟨_, hm⟩)
      · exact hx rfl
      · exact ha hm

theorem split_first_unique {a a' s s' : List UInt8} (h : a ++ d :: s = a' ++ d :: s') (ha : d ∉ a) (ha' : d ∉ a') :
    a = a' ∧ s = s' := by
  induction a generalizing a' with
  | nil =>
    cases a' with
    | nil => exact ⟨rfl, (List.cons.inj h).2⟩
    | cons x a' =>
      obtain ⟨rfl, -⟩ := List.cons.inj h
      exact absurd (List.mem_cons_self ..) ha'
  | cons x a ih =>
    cases a' with
    | nil =>
      obtain ⟨rfl, -⟩ := List.cons.inj h
      exact absurd (List.mem_cons_self ..) ha
    | cons x' a' =>
      obtain ⟨rfl, h'⟩ := List.cons.inj h
      obtain ⟨rfl, rfl⟩ := ih h' (fun hm => ha (List.mem_cons_of_mem _ hm)) fun hm => ha' (List.mem_cons_of_mem _ hm)
      exact ⟨rfl, rfl⟩

theorem isFirstPlace_int32 {m : ℕ} (hm : m < 0xffffffff) : IsFirstPlace l data (int32 m) ↔
    FirstAt l data m ∧ m < 0x80000000 := by
  have hint : int32 m = if m < 0x80000000 then (m : ℤ) else (m : ℤ) - 0x100000000 := by
    split
    · next h => exact int32_of_lt h
    · unfold int32
      rw [Int.bmod_def]
      omega
  constructor
  · rintro (⟨k, hk, hr⟩ | ⟨-, hr⟩)
    · rw [hint] at hr
      split at hr
      · next h =>
        obtain rfl : m = k := by omega
        exact ⟨hk, h⟩
      · omega
    · rw [hint] at hr
      split at hr <;> omega
  · rintro ⟨hk, h⟩
    exact .inl ⟨m, hk, int32_of_lt h⟩

theorem bufferFind_iff (h : b.Valid) (hd : data ≠ []) : FindsFirst b data ↔ NothingLost b.contents data := by
  obtain ⟨d, t, rfl⟩ := List.exists_cons_of_ne_nil hd
  by_cases hlen : b.contents.length < (d :: t).length
  · constructor
    · exact fun _ => .inl hlen
    · exact fun _ => ⟨-1, [], bufferFind_short hlen, fun x hx => absurd hx (by simp),
        .inr ⟨not_occursAt_of_short hlen, rfl⟩⟩
  by_cases hmem : d ∈ b.contents
  · obtain ⟨a, s, hs, ha⟩ := split_first hmem
    have hlost : NothingLost b.contents (d :: t) ↔
        ∃ k, Pieces t (d :: s) k ∧ FirstAt b.contents (d :: t) (a.length + k) ∧ a.length + k < 0x80000000 := by
      constructor
      · rintro (h | h | ⟨a', s', k, hs', ha', hhead, hk, hfirst, hlt⟩)
        · exact absurd h hlen
        · exact absurd hmem (h d rfl)
        · cases s' with
          | nil => exact absurd hhead (by simp)
          | cons x s' =>
            obtain rfl : x = d := Option.some.inj hhead
            obtain ⟨rfl, rfl⟩ := split_first_unique (hs.symm.trans hs') ha (ha' x rfl)
            exact ⟨k, hk, hfirst, hlt⟩
      · rintro ⟨k, hk, hfirst, hlt⟩
        refine .inr (.inr ⟨a, d :: s, k, hs, ?_, rfl, hk, hfirst, hlt⟩)
        rintro _ ⟨rfl⟩
        exact ha
    rw [hlost]
    rcases bufferFind_present (t := t) h (Nat.le_of_not_lt hlen) hs ha with ⟨k, seen, hk, hseen, hr⟩ | ⟨hno, hstray⟩
    · have hm : a.length + k < 0xffffffff := by
        have h1 := hk.lt_length
        have h2 := length_contents (b := b)
        have h3 := bufferGetFull_lt h
        have h4 := h.size_lt
        rw [hs, List.length_append] at h2
        omega
      constructor
      · rintro ⟨r, seen', hr', -, hplace⟩
        obtain ⟨rfl, -⟩ := hr.unique hr'
        exact ⟨k, hk, (isFirstPlace_int32 hm).mp hplace⟩
      · rintro ⟨k', hk', hfirst⟩
        obtain rfl := hk.unique hk'
        exact ⟨_, seen, hr, hseen, (isFirstPlace_int32 hm).mpr hfirst⟩
    · constructor
      · rintro ⟨r, seen, hr, hseen, -⟩
        exact absurd hseen (hstray r seen hr)
      · rintro ⟨k, hk, -⟩
        exact absurd hk (hno k)
  · constructor
    · intro _
      refine .inr (.inl ?_)
      rintro _ ⟨rfl⟩
      exact hmem
    · intro _
      obtain ⟨seen, hr, hseen⟩ := bufferFind_absent (t := t) h (Nat.le_of_not_lt hlen) hmem
      exact ⟨-1, seen, hr, hseen, .inr ⟨not_occursAt_of_not_mem hmem, rfl⟩⟩

/-- Eight bytes of memory that hold `axb`. -/
def heldAxb : Buffer := (bufferWrite (bufferInit 8) [0x61, 0x78, 0x62]).1

theorem heldAxb_valid : heldAxb.Valid := bufferWrite_valid (bufferInit_valid (by decide) (by decide))

theorem heldAxb_contents : heldAxb.contents = [0x61, 0x78, 0x62] := by decide

theorem bufferFind_iff_heldAxb : [0x78, 0x62] ≠ ([] : List UInt8) ∧
    (FindsFirst heldAxb [0x78, 0x62] ↔ NothingLost heldAxb.contents [0x78, 0x62]) :=
  ⟨by decide, bufferFind_iff heldAxb_valid (by decide)⟩

/-- In `axb` the search finds `ab`. -/
theorem bufferFind_finds_absent : ¬ ∀ (b : Buffer) (data : List UInt8), b.Valid → data ≠ [] → FindsFirst b data := by
  intro h
  obtain ⟨r, seen, hr, -, hplace⟩ := h heldAxb [0x61, 0x62] heldAxb_valid (by decide)
  have hrun : ((bufferFindInt32 heldAxb [0x61, 0x62]).run 4 []).any (·.1 = 1) := by decide
  obtain ⟨⟨r', seen'⟩, hr', he⟩ := (Option.any_eq_true _ _).mp hrun
  obtain rfl : r' = 1 := of_decide_eq_true he
  obtain ⟨rfl, -⟩ := hr.unique ⟨4, hr'⟩
  rw [heldAxb_contents] at hplace
  rcases hplace with ⟨k, ⟨hk, -⟩, he⟩ | ⟨-, he⟩
  · obtain rfl : k = 1 := by omega
    exact absurd hk (by unfold OccursAt; decide)
  · exact absurd he (by decide)

end answer

end Lpc1788Libraries.WiFi

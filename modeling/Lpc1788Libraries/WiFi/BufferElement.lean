import Lpc1788Libraries.WiFi.BufferString

namespace Lpc1788Libraries.WiFi

/-- The loop of `BUFFER_CheckElement` with `n` steps to go, for `Out` and `i`. -/
def checkElementLoop (b : Buffer) : ℕ → ℕ → ℕ → ℕ × ℕ
  | 0, out, i => (out, i)
  | n + 1, out, i =>
    if b.inp ≠ out then
      checkElementLoop b n (if b.size ≤ out + 1 then 0 else out + 1) (i + 1)
    else (out, i)

/-- `BUFFER_CheckElement` with what it leaves at the `element` pointer. -/
def bufferCheckElement (b : Buffer) (pos : ℕ) (element : UInt8) : ℕ × UInt8 :=
  let (out, i) := checkElementLoop b pos b.out 0
  if i = pos then (1, b.mem out) else (0, element)

/-- What the two functions are to answer, for the stored bytes. -/
structure TellsStored (b : Buffer) (pos : ℕ) (element : UInt8) (e : UInt8) : Prop where
  inside : ∀ x, b.contents[pos]? = some x → bufferCheckElement b pos element = (1, x)
  behind : b.contents[pos]? = none → (bufferCheckElement b pos element).1 = 0
  found : ∀ i : ℕ, b.contents[i]? = some e → (∀ j < i, b.contents[j]? ≠ some e) → bufferFindElementInt32 b e = i
  absent : e ∉ b.contents → bufferFindElementInt32 b e = -1

variable {b : Buffer} {pos i j n out : ℕ} {element e x : UInt8}

theorem place_zero (h : b.Valid) : b.place 0 = b.out := by
  have := h.out_lt
  simp [Buffer.place, this]

theorem place_eq_inp (h : b.Valid) (hj : j ≤ bufferGetFull b) : b.inp = b.place j ↔ j = bufferGetFull b := by
  have := bufferGetFull_cases b
  obtain ⟨h1, h2, h3⟩ := h
  simp only [Buffer.place]
  split_ifs <;> omega

theorem checkElementLoop_eq (h : b.Valid) (hj : j ≤ bufferGetFull b) :
    checkElementLoop b n (b.place j) i =
      (b.place (min (j + n) (bufferGetFull b)), i + (min (j + n) (bufferGetFull b) - j)) := by
  induction n generalizing i j with
  | zero =>
    rw [checkElementLoop, Nat.add_zero, Nat.min_eq_left hj, Nat.sub_self, Nat.add_zero]
  | succ n ih =>
    rw [checkElementLoop]
    by_cases hfull : j = bufferGetFull b
    · rw [if_neg (not_not.mpr ((place_eq_inp h hj).mpr hfull)), Nat.min_eq_right (by omega), ← hfull, Nat.sub_self,
        Nat.add_zero]
    · have hlt : j < bufferGetFull b := by omega
      have hnext : (if b.size ≤ b.place j + 1 then 0 else b.place j + 1) = b.place (j + 1) := outIndex_succ h hlt
      rw [if_pos ((place_eq_inp h hj).not.mpr hfull), hnext, ih hlt, Nat.add_right_comm j 1 n, Nat.add_assoc j n 1]
      congr 1
      omega

theorem bufferCheckElement_eq (h : b.Valid) : bufferCheckElement b pos element =
    if pos ≤ bufferGetFull b then (1, b.mem (b.place pos)) else (0, element) := by
  unfold bufferCheckElement
  rw [← place_zero h, checkElementLoop_eq h (Nat.zero_le _), Nat.zero_add, Nat.zero_add, Nat.sub_zero]
  simp only
  by_cases hpos : pos ≤ bufferGetFull b
  · rw [Nat.min_eq_left hpos, if_pos rfl, if_pos hpos]
  · rw [Nat.min_eq_right (Nat.le_of_not_le hpos), if_neg (by omega), if_neg hpos]

theorem findElementInt32_eq (h : b.Valid) (he : e ∈ b.contents) :
    bufferFindElementInt32 b e = int32 (b.contents.idxOf e) := by
  unfold bufferFindElementInt32
  rw [bufferFindElement_eq h, idxOf?_of_mem he]

theorem before_idxOf (hj : j < b.contents.idxOf e) : b.contents[j]? ≠ some e := by
  intro hget
  obtain ⟨hlt, hx⟩ := List.getElem?_eq_some_iff.mp hget
  have hne := List.not_of_lt_findIdx hj
  rw [hx, beq_self_eq_true] at hne
  exact absurd hne Bool.noConfusion

theorem idxOf_eq (hi : b.contents[i]? = some e) (hfirst : ∀ j < i, b.contents[j]? ≠ some e) : b.contents.idxOf e = i := by
  have hmem : e ∈ b.contents := List.mem_of_getElem? hi
  have hlt := List.idxOf_lt_length_of_mem hmem
  have hget : b.contents[b.contents.idxOf e]? = some e := by
    rw [List.getElem?_eq_getElem hlt, List.getElem_idxOf]
  rcases Nat.lt_trichotomy (b.contents.idxOf e) i with hless | heq | hmore
  · exact absurd hget (hfirst _ hless)
  · exact heq
  · exact absurd hi (before_idxOf hmore)

theorem tellsStored_iff (h : b.Valid) : TellsStored b pos element e ↔
    pos ≠ b.contents.length ∧ (e ∈ b.contents → b.contents.idxOf e < 0x80000000) := by
  have hcheck : bufferCheckElement b pos element =
      if pos ≤ bufferGetFull b then (1, b.mem (b.place pos)) else (0, element) := bufferCheckElement_eq h
  have hlen := length_contents (b := b)
  constructor
  · intro ht
    constructor
    · rintro rfl
      have hbehind := ht.behind (List.getElem?_eq_none (Nat.le_refl _))
      rw [hcheck, if_pos (by omega)] at hbehind
      exact absurd hbehind Nat.one_ne_zero
    · intro he
      have hlt := List.idxOf_lt_length_of_mem he
      have hget : b.contents[b.contents.idxOf e]? = some e := by rw [List.getElem?_eq_getElem hlt, List.getElem_idxOf]
      have hfound := ht.found _ hget fun j hj => before_idxOf hj
      have hsmall : b.contents.idxOf e < 0x100000000 := by
        have h3 := bufferGetFull_lt h
        have h4 := h.size_lt
        omega
      rw [findElementInt32_eq h he] at hfound
      by_contra hge
      have hneg := (int32_neg hsmall).mpr (Nat.le_of_not_lt hge)
      omega
  · rintro ⟨hpos, hidx⟩
    constructor
    · intro x hx
      have hlt := (List.getElem?_eq_some_iff.mp hx).1
      rw [length_contents] at hlt
      rw [getElem?_contents hlt, Option.some.injEq] at hx
      rw [hcheck, if_pos (Nat.le_of_lt hlt), hx]
    · intro hnone
      rw [List.getElem?_eq_none_iff] at hnone
      rw [hcheck, if_neg (by omega)]
    · intro i hi hfirst
      have he : e ∈ b.contents := List.mem_of_getElem? hi
      rw [findElementInt32_eq h he, ← idxOf_eq hi hfirst, int32_of_lt (hidx he)]
    · intro he
      unfold bufferFindElementInt32
      rw [bufferFindElement_eq h, List.idxOf?_eq_none_iff.mpr he]

theorem tellsStored_iff_heldAxb : heldAxb.Valid ∧ (TellsStored heldAxb 1 0 0x62 ↔
    1 ≠ heldAxb.contents.length ∧ (0x62 ∈ heldAxb.contents → heldAxb.contents.idxOf 0x62 < 0x80000000)) :=
  ⟨heldAxb_valid, tellsStored_iff heldAxb_valid⟩

/-- In a buffer with three bytes the fourth one is reported as stored. -/
theorem bufferCheckElement_stale : ¬ ∀ (b : Buffer) (pos : ℕ) (element e : UInt8), b.Valid → TellsStored b pos element e := by
  intro h
  have hbehind := (h heldAxb 3 0 0 heldAxb_valid).behind (by rw [heldAxb_contents]; rfl)
  have hle : 3 ≤ bufferGetFull heldAxb := by
    rw [← length_contents, heldAxb_contents]
    exact Nat.le_refl 3
  rw [bufferCheckElement_eq heldAxb_valid, if_pos hle] at hbehind
  exact absurd hbehind Nat.one_ne_zero

end Lpc1788Libraries.WiFi

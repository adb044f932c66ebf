import Lpc1788Libraries.WiFi.BufferFifo
import Lpc1788Libraries.WiFi.BufferFind

namespace Lpc1788Libraries.WiFi

/-- The `int32_t` that `BUFFER_FindElement` returns. -/
def bufferFindElementInt32 (b : Buffer) (element : UInt8) : ℤ :=
  match bufferFindElement b element with
  | some retval => int32 retval
  | none => -1

/-- The copy loop of `BUFFER_ReadString` into the memory at `buff`, from index `i` on with room for
`n` more bytes; it ends with its index. -/
def readStringFill : ℕ → ℕ → Buffer → (ℕ → UInt8) → UInt8 → Buffer × (ℕ → UInt8) × ℕ
  | 0, i, b, buff, _ => (b, buff, i)
  | n + 1, i, b, buff, ch =>
    let r := bufferRead b 1
    let ch := r.2.headD ch
    let buff := Function.update buff i ch
    if ch = b.stringDelimiter then (r.1, buff, i)
    else readStringFill n (i + 1) r.1 buff ch

/-- `BUFFER_ReadString` with the memory at `buff` and its return value. `ch` is what the
variable holds that the code does not initialise. -/
def bufferReadStringInto (b : Buffer) (buff : ℕ → UInt8) (buffsize : ℕ) (ch : UInt8) : Buffer × (ℕ → UInt8) × ℕ :=
  let freeMem := bufferGetFree b
  let fullMem := bufferGetFull b
  if fullMem = 0 ∨ (bufferFindElementInt32 b b.stringDelimiter < 0 ∧ freeMem ≠ 0 ∧ fullMem < buffsize) then
    (b, buff, 0)
  else
    let (b, buff, i) := readStringFill (buffsize - 1) 0 b buff ch
    if i = buffsize - 1 then (b, Function.update buff i 0, i)
    else (b, Function.update buff (i + 1) 0, i + 1)

variable {b : Buffer} {buff : ℕ → UInt8} {buffsize i n : ℕ} {ch d : UInt8} {l : List UInt8}

theorem readStringFill_eq : ∃ j, readStringFill n i b buff ch =
      ((readStringLoop n b ch).1, copyInto buff i (readStringLoop n b ch).2, j) ∧
    (j = i + n ∧ (readStringLoop n b ch).2.length = n ∨
      j < i + n ∧ j + 1 = i + (readStringLoop n b ch).2.length) := by
  induction n generalizing i b buff ch with
  | zero =>
    refine ⟨i, ?_, .inl ⟨rfl, rfl⟩⟩
    simp only [readStringFill, readStringLoop, copyInto_nil]
  | succ n ih =>
    simp only [readStringFill, readStringLoop]
    by_cases hch : (bufferRead b 1).2.headD ch = b.stringDelimiter
    · rw [if_pos hch, if_pos hch]
      refine ⟨i, ?_, .inr ⟨by omega, rfl⟩⟩
      rw [← copyInto_update, copyInto_nil]
    · rw [if_neg hch, if_neg hch]
      obtain ⟨j, hj, hend⟩ := @ih (bufferRead b 1).1 (Function.update buff i ((bufferRead b 1).2.headD ch))
        (i + 1) ((bufferRead b 1).2.headD ch)
      refine ⟨j, ?_, ?_⟩
      · rw [hj, copyInto_update]
      · simp only [List.length_cons]
        omega

theorem readStringInto_eq (h : ¬ (bufferGetFull b = 0 ∨ (bufferFindElementInt32 b b.stringDelimiter < 0 ∧
      bufferGetFree b ≠ 0 ∧ bufferGetFull b < buffsize))) : bufferReadStringInto b buff buffsize ch =
    ((readStringLoop (buffsize - 1) b ch).1, Function.update (copyInto buff 0 (readStringLoop (buffsize - 1) b ch).2)
      (readStringLoop (buffsize - 1) b ch).2.length 0, (readStringLoop (buffsize - 1) b ch).2.length) := by
  obtain ⟨j, hj, hend⟩ := @readStringFill_eq b buff 0 (buffsize - 1) ch
  unfold bufferReadStringInto
  simp only
  rw [if_neg h, hj]
  simp only
  rcases hend with ⟨h1, h2⟩ | ⟨h1, h2⟩
  · rw [if_pos (by omega), h2, h1, Nat.zero_add]
  · rw [if_neg (by omega), h2, Nat.zero_add]

theorem lineOf_take_min (n : ℕ) (l : List UInt8) : lineOf d n l = l.take (min (l.idxOf d + 1) n) := by
  induction n generalizing l with
  | zero => simp [lineOf]
  | succ n ih =>
    cases l with
    | nil => simp [lineOf]
    | cons x l =>
      simp only [lineOf]
      by_cases hx : x = d
      · subst hx
        rw [if_pos rfl, List.idxOf_cons_self, Nat.zero_add, Nat.min_eq_left (by omega)]
        rfl
      · rw [if_neg hx, ih, List.idxOf_cons_ne _ hx, Nat.succ_min_succ, List.take_succ_cons]

/-- Without a delimiter the loop fills the whole room, with the last byte again and again when the
buffer is empty. -/
theorem length_readStringLoop (h : b.Valid) (hd : b.stringDelimiter ∉ b.contents)
    (hch : b.contents = [] → ch ≠ b.stringDelimiter) : (readStringLoop n b ch).2.length = n := by
  induction n generalizing b ch with
  | zero => rfl
  | succ n ih =>
    have hne : (bufferRead b 1).2.headD ch ≠ b.stringDelimiter := by
      rw [bufferRead_data h]
      cases hc : b.contents with
      | nil => exact hch hc
      | cons x l =>
        rintro rfl
        exact hd (by rw [hc]; exact List.mem_cons_self ..)
    simp only [readStringLoop]
    rw [if_neg hne, List.length_cons, ih (bufferRead_valid h)]
    · rw [bufferRead_delimiter h, bufferRead_contents h]
      exact fun hm => hd (List.mem_of_mem_drop hm)
    · intro _
      rw [bufferRead_delimiter h]
      exact hne

/-- There is no line to be read yet. -/
def NoLine (b : Buffer) (buffsize : ℕ) : Prop :=
  b.contents = [] ∨ b.stringDelimiter ∉ b.contents ∧ b.contents.length + 1 < b.size ∧ b.contents.length < buffsize

/-- Up to the first delimiter, the room of the caller or the end of what is stored. -/
def lineLength (b : Buffer) (buffsize : ℕ) : ℕ :=
  min (min (b.contents.idxOf b.stringDelimiter + 1) (buffsize - 1)) b.contents.length

/-- What `BUFFER_ReadString` is to do. -/
structure ReadsLine (b : Buffer) (buff : ℕ → UInt8) (buffsize : ℕ) (r : Buffer × (ℕ → UInt8) × ℕ) : Prop where
  nothing_iff : r.2.2 = 0 ∧ r.1 = b ↔ NoLine b buffsize
  count : ¬ NoLine b buffsize → r.2.2 = lineLength b buffsize
  removed : ¬ NoLine b buffsize → r.1.contents = b.contents.drop (lineLength b buffsize)
  copied : ¬ NoLine b buffsize → ∀ i < lineLength b buffsize, some (r.2.1 i) = b.contents[i]?
  terminated : ¬ NoLine b buffsize → lineLength b buffsize < buffsize ∧ r.2.1 (lineLength b buffsize) = 0
  others : ∀ i, (NoLine b buffsize ∨ lineLength b buffsize < i) → r.2.1 i = buff i

/-- A full buffer without a delimiter, and a caller with room for more than it holds. -/
def Overreads (b : Buffer) (buffsize : ℕ) : Prop := b.contents ≠ [] ∧ b.stringDelimiter ∉ b.contents ∧
  b.contents.length + 1 = b.size ∧ b.contents.length + 1 < buffsize

/-- The place of the delimiter is taken for a negative number. -/
def PlaceNegative (b : Buffer) (buffsize : ℕ) : Prop := b.stringDelimiter ∈ b.contents ∧
  0x80000000 ≤ b.contents.idxOf b.stringDelimiter ∧ b.contents.length + 1 < b.size ∧ b.contents.length < buffsize

theorem idxOf?_of_mem (hd : d ∈ l) : l.idxOf? d = some (l.idxOf d) := by
  induction l with
  | nil => exact absurd hd (by simp)
  | cons x l ih =>
    rw [List.idxOf?_cons]
    by_cases hx : x = d
    · subst hx
      simp
    · rw [if_neg (by simpa using hx), ih ((List.mem_cons.mp hd).resolve_left (Ne.symm hx)), List.idxOf_cons_ne _ hx]
      rfl

theorem int32_neg {j : ℕ} (hj : j < 0x100000000) : int32 j < 0 ↔ 0x80000000 ≤ j := by
  unfold int32
  rw [Int.bmod_def]
  omega

theorem findElementInt32_neg (h : b.Valid) : bufferFindElementInt32 b d < 0 ↔
    d ∉ b.contents ∨ 0x80000000 ≤ b.contents.idxOf d := by
  unfold bufferFindElementInt32
  rw [bufferFindElement_eq h]
  by_cases hd : d ∈ b.contents
  · have hlt : b.contents.idxOf d < 0x100000000 := by
      have h1 := List.idxOf_lt_length_of_mem hd
      have h2 := length_contents (b := b)
      have h3 := bufferGetFull_lt h
      have h4 := h.size_lt
      omega
    rw [idxOf?_of_mem hd]
    constructor
    · exact fun hneg => .inr ((int32_neg hlt).mp hneg)
    · rintro (hno | hle)
      · exact absurd hd hno
      · exact (int32_neg hlt).mpr hle
  · rw [List.idxOf?_eq_none_iff.mpr hd]
    constructor
    · exact fun _ => .inl hd
    · exact fun _ => by decide

theorem lineLength_pos (h2 : 2 ≤ buffsize) (hne : b.contents ≠ []) : 0 < lineLength b buffsize := by
  have := List.length_pos_of_ne_nil hne
  simp only [lineLength]
  omega

theorem lineLength_eq : lineLength b buffsize = (lineOf b.stringDelimiter (buffsize - 1) b.contents).length := by
  rw [lineOf_take_min, List.length_take, lineLength]

theorem readsLine_of_enough (h : b.Valid) (h2 : 2 ≤ buffsize) (hno : ¬ NoLine b buffsize)
    (hl : buffsize - 1 ≤ b.contents.length ∨ b.stringDelimiter ∈ b.contents) :
    ReadsLine b buff buffsize ((readStringLoop (buffsize - 1) b ch).1,
      Function.update (copyInto buff 0 (readStringLoop (buffsize - 1) b ch).2)
        (readStringLoop (buffsize - 1) b ch).2.length 0, (readStringLoop (buffsize - 1) b ch).2.length) := by
  obtain ⟨hdata, -, -, -, hrest⟩ := readStringLoop_eq (b := b) h hl
  have hpos : 0 < lineLength b buffsize := lineLength_pos h2 fun he => hno (.inl he)
  have hle : lineLength b buffsize ≤ buffsize - 1 := (Nat.min_le_left _ _).trans (Nat.min_le_right _ _)
  rw [hdata, ← lineLength_eq]
  rw [← lineLength_eq] at hrest
  constructor
  · constructor
    · rintro ⟨h0, -⟩
      exact absurd h0 (Nat.ne_of_gt hpos)
    · exact fun hn => absurd hn hno
  · exact fun _ => rfl
  · exact fun _ => hrest
  · intro _ i hi
    simp only [Function.update_of_ne (Nat.ne_of_lt hi)]
    have hget : (lineOf b.stringDelimiter (buffsize - 1) b.contents)[i]? = b.contents[i]? := by
      rw [lineOf_take_min, List.getElem?_take_of_lt (lt_of_lt_of_le hi (Nat.min_le_left _ _))]
    have hin : i < b.contents.length := lt_of_lt_of_le hi (Nat.min_le_right _ _)
    rw [List.getElem?_eq_getElem hin] at hget ⊢
    have hput : copyInto buff 0 (lineOf b.stringDelimiter (buffsize - 1) b.contents) (0 + i) = b.contents[i] :=
      copyInto_inside hget
    rw [Nat.zero_add] at hput
    rw [hput]
  · intro _
    constructor
    · omega
    · exact Function.update_self ..
  · rintro i (hn | hi)
    · exact absurd hn hno
    · simp only [Function.update_of_ne (Nat.ne_of_gt hi)]
      apply copyInto_outside
      right
      rw [← lineLength_eq]
      omega

theorem bufferReadStringInto_iff (h : b.Valid) (h2 : 2 ≤ buffsize) :
    ReadsLine b buff buffsize (bufferReadStringInto b buff buffsize ch) ↔
      ¬ Overreads b buffsize ∧ ¬ PlaceNegative b buffsize := by
  have hff := free_add_full h
  have hlen := length_contents (b := b)
  have hneg := findElementInt32_neg (d := b.stringDelimiter) h
  have hempty : b.contents = [] ↔ bufferGetFull b = 0 := by
    rw [← hlen, List.length_eq_zero_iff]
  by_cases hguard : bufferGetFull b = 0 ∨ (bufferFindElementInt32 b b.stringDelimiter < 0 ∧
      bufferGetFree b ≠ 0 ∧ bufferGetFull b < buffsize)
  · -- the call gives up
    have heq : bufferReadStringInto b buff buffsize ch = (b, buff, 0) := by
      unfold bufferReadStringInto
      simp only
      rw [if_pos hguard]
    rw [heq]
    by_cases hno : NoLine b buffsize
    · constructor
      · intro _
        constructor
        · rintro ⟨hne, -, hfull, -⟩
          rcases hno with hno | ⟨-, hno, -⟩
          · exact hne hno
          · omega
        · rintro ⟨hmem, -⟩
          rcases hno with hno | ⟨hno, -⟩
          · exact absurd hmem (by rw [hno]; simp)
          · exact hno hmem
      · intro _
        constructor
        · exact ⟨fun _ => hno, fun _ => ⟨rfl, rfl⟩⟩
        · exact fun hn => absurd hno hn
        · exact fun hn => absurd hno hn
        · exact fun hn => absurd hno hn
        · exact fun hn => absurd hno hn
        · exact fun _ _ => rfl
    · have hplace : PlaceNegative b buffsize := by
        rcases hguard with h0 | ⟨hn, hfree, hlt⟩
        · exact absurd (.inl (hempty.mpr h0)) hno
        · have hmem : b.stringDelimiter ∈ b.contents := by
            by_contra hmem
            exact hno (.inr ⟨hmem, by omega, by omega⟩)
          rcases hneg.mp hn with hn | hn
          · exact absurd hmem hn
          · exact ⟨hmem, hn, by omega, by omega⟩
      constructor
      · exact fun hr => absurd (hr.nothing_iff.mp ⟨rfl, rfl⟩) hno
      · exact fun hc => absurd hplace hc.2
  · rw [readStringInto_eq hguard]
    have hno : ¬ NoLine b buffsize := by
      rintro (hno | ⟨hmem, h3, h4⟩)
      · exact hguard (.inl (hempty.mp hno))
      · exact hguard (.inr ⟨hneg.mpr (.inl hmem), by omega, by omega⟩)
    have hplace : ¬ PlaceNegative b buffsize := by
      rintro ⟨-, h3, h4, h5⟩
      exact hguard (.inr ⟨hneg.mpr (.inr h3), by omega, by omega⟩)
    by_cases hover : Overreads b buffsize
    · constructor
      · intro hr
        obtain ⟨hne, hmem, -, hroom⟩ := hover
        have hcount : (readStringLoop (buffsize - 1) b ch).2.length = lineLength b buffsize :=
          hr.count hno
        rw [length_readStringLoop h hmem fun he => absurd he hne] at hcount
        have : lineLength b buffsize ≤ b.contents.length := Nat.min_le_right _ _
        omega
      · exact fun hc => absurd hover hc.1
    · constructor
      · exact fun _ => ⟨hover, hplace⟩
      · intro _
        apply readsLine_of_enough h h2 hno
        by_cases hmem : b.stringDelimiter ∈ b.contents
        · exact .inr hmem
        · left
          by_contra hroom
          have hneg' := hneg.mpr (.inl hmem)
          by_cases hfree : bufferGetFree b = 0
          · exact hover ⟨fun he => hno (.inl he), hmem, by omega, by omega⟩
          · exact hguard (.inr ⟨hneg', hfree, by omega⟩)

theorem bufferReadString_eq (h : b.Valid) (hsize : b.size ≤ 0x80000000) :
    bufferReadString b buffsize = ((bufferReadStringInto b buff buffsize 0).1,
      (bufferReadString b buffsize).2) ∧
      (bufferReadStringInto b buff buffsize 0).2.2 = (bufferReadString b buffsize).2.length := by
  have hneg : bufferFindElementInt32 b b.stringDelimiter < 0 ↔ bufferFindElement b b.stringDelimiter = none := by
    rw [findElementInt32_neg h, bufferFindElement_eq h, List.idxOf?_eq_none_iff]
    constructor
    · rintro (hmem | hle)
      · exact hmem
      · intro hmem
        have h1 := List.idxOf_lt_length_of_mem hmem
        have h2 := length_contents (b := b)
        have h3 := bufferGetFull_lt h
        omega
    · exact .inl
  by_cases hguard : bufferGetFull b = 0 ∨ (bufferFindElementInt32 b b.stringDelimiter < 0 ∧
      bufferGetFree b ≠ 0 ∧ bufferGetFull b < buffsize)
  · have h1 : bufferReadString b buffsize = (b, []) := by
      unfold bufferReadString
      simp only
      rw [if_pos (by rwa [hneg] at hguard)]
    have h2 : bufferReadStringInto b buff buffsize 0 = (b, buff, 0) := by
      unfold bufferReadStringInto
      simp only
      rw [if_pos hguard]
    rw [h1, h2]
    exact ⟨rfl, rfl⟩
  · have h1 : bufferReadString b buffsize = readStringLoop (buffsize - 1) b 0 := by
      unfold bufferReadString
      simp only
      rw [if_neg (by rwa [hneg] at hguard)]
    rw [h1, readStringInto_eq hguard]
    exact ⟨rfl, rfl⟩

/-- Four bytes of memory that are full with `abc`. -/
def fullAbc : Buffer := (bufferWrite (bufferInit 4) [0x61, 0x62, 0x63]).1

theorem fullAbc_valid : fullAbc.Valid := bufferWrite_valid (bufferInit_valid (by decide) (by decide))

theorem bufferReadStringInto_iff_fullAbc : 2 ≤ 3 ∧
    (ReadsLine fullAbc (fun _ => 0) 3 (bufferReadStringInto fullAbc (fun _ => 0) 3 0) ↔
      ¬ Overreads fullAbc 3 ∧ ¬ PlaceNegative fullAbc 3) :=
  ⟨by decide, bufferReadStringInto_iff fullAbc_valid (by decide)⟩

/-- A reader with room for eight bytes gets the last one four times. -/
theorem bufferReadString_repeats : ¬ ∀ (b : Buffer) (buff : ℕ → UInt8) (buffsize : ℕ) (ch : UInt8), b.Valid →
    2 ≤ buffsize → ReadsLine b buff buffsize (bufferReadStringInto b buff buffsize ch) := by
  intro h
  have hr := h fullAbc (fun _ => 0) 8 0 fullAbc_valid (by decide)
  have hno : ¬ NoLine fullAbc 8 := by
    unfold NoLine
    decide
  have hcount := hr.count hno
  exact absurd hcount (by decide)

end Lpc1788Libraries.WiFi

import Mathlib.Data.List.Basic
import Mathlib.Tactic.Common

namespace Lpc1788Libraries.WiFi

/-- `BUFFER_t` with the memory at its `Buffer` pointer. -/
structure Buffer where
  size : ℕ
  inp : ℕ
  out : ℕ
  mem : ℕ → UInt8
  stringDelimiter : UInt8

def copyInto (mem : ℕ → UInt8) (start : ℕ) (data : List UInt8) : ℕ → UInt8 :=
  fun i => if start ≤ i then (data[i - start]?).getD (mem i) else mem i

def bufferInit (size : ℕ) : Buffer := ⟨size, 0, 0, fun _ => 0, 0x0a⟩

def bufferGetFree (b : Buffer) : ℕ :=
  let size := if b.inp = b.out then b.size
    else if b.inp < b.out then b.out - b.inp
    else b.size - (b.inp - b.out)
  (size + 0xffffffff) % 0x100000000

def bufferGetFull (b : Buffer) : ℕ :=
  if b.inp = b.out then 0
  else if b.out < b.inp then b.inp - b.out
  else b.size - (b.out - b.inp)

/-- The `BUFFER_FAST` variant; the second component is the number of bytes stored. -/
def bufferWrite (b : Buffer) (data : List UInt8) : Buffer × ℕ :=
  if data.length = 0 then (b, 0)
  else
    let b := if b.size ≤ b.inp then { b with inp := 0 } else b
    let free := bufferGetFree b
    if free < data.length ∧ free = 0 then (b, 0)
    else
      let count := if free < data.length then free else data.length
      let tocopy := if count < b.size - b.inp then count else b.size - b.inp
      let mem := copyInto b.mem b.inp (data.take tocopy)
      let inp := b.inp + tocopy
      let count := count - tocopy
      let mem := if 0 < count then copyInto mem 0 ((data.drop tocopy).take count) else mem
      let inp := if 0 < count then count else inp
      ({ b with mem := mem, inp := if b.size ≤ inp then 0 else inp }, tocopy + count)

/-- The bytes of `mem` from `start` on. -/
def copyFrom (mem : ℕ → UInt8) (start n : ℕ) : List UInt8 :=
  (List.range n).map fun i => mem (start + i)

def bufferRead (b : Buffer) (count : ℕ) : Buffer × List UInt8 :=
  if count = 0 then (b, [])
  else
    let b := if b.size ≤ b.out then { b with out := 0 } else b
    let full := bufferGetFull b
    if full < count ∧ full = 0 then (b, [])
    else
      let count := if full < count then full else count
      let tocopy := if count < b.size - b.out then count else b.size - b.out
      let out := b.out + tocopy
      let count := count - tocopy
      let out := if 0 < count then count else out
      ({ b with out := if b.size ≤ out then 0 else out },
        copyFrom b.mem b.out tocopy ++ copyFrom b.mem 0 count)

def bufferReset (b : Buffer) : Buffer := { b with inp := 0, out := 0 }

/-- The loop of `BUFFER_FindElement`, from the place `out` on with `num` bytes to look at. -/
def findElementLoop (b : Buffer) (element : UInt8) : ℕ → ℕ → ℕ → Option ℕ
  | 0, _, _ => none
  | num + 1, out, retval =>
    let out := if b.size ≤ out then 0 else out
    if b.mem out = element then some retval
    else findElementLoop b element num (out + 1) (retval + 1)

def bufferFindElement (b : Buffer) (element : UInt8) : Option ℕ :=
  findElementLoop b element (bufferGetFull b) b.out 0

def bufferWriteString (b : Buffer) (buff : List UInt8) : Buffer × ℕ :=
  bufferWrite b (buff.takeWhile (· ≠ 0))

/-- The copy loop of `BUFFER_ReadString` with room for `n` more bytes. A read that finds
nothing leaves `ch` as it was. -/
def readStringLoop : ℕ → Buffer → UInt8 → Buffer × List UInt8
  | 0, b, _ => (b, [])
  | n + 1, b, ch =>
    let r := bufferRead b 1
    let ch := r.2.headD ch
    if ch = b.stringDelimiter then (r.1, [ch])
    else
      let s := readStringLoop n r.1 ch
      (s.1, ch :: s.2)

/-- The first line of the bytes, the delimiter included, cut after `n` bytes. -/
def lineOf (delimiter : UInt8) : ℕ → List UInt8 → List UInt8
  | 0, _ => []
  | _ + 1, [] => []
  | n + 1, x :: l => if x = delimiter then [x] else x :: lineOf delimiter n l

/-- `BUFFER_ReadString` with the bytes it has copied; it returns their number. -/
def bufferReadString (b : Buffer) (buffsize : ℕ) : Buffer × List UInt8 :=
  let freeMem := bufferGetFree b
  let fullMem := bufferGetFull b
  if fullMem = 0 ∨ (bufferFindElement b b.stringDelimiter = none ∧ freeMem ≠ 0 ∧ fullMem < buffsize) then
    (b, [])
  else
    readStringLoop (buffsize - 1) b 0

namespace Buffer

structure Valid (b : Buffer) : Prop where
  inp_lt : b.inp < b.size
  out_lt : b.out < b.size
  size_lt : b.size < 0x100000000

/-- The place of the `i`-th stored byte. -/
def place (b : Buffer) (i : ℕ) : ℕ := if b.out + i < b.size then b.out + i else b.out + i - b.size

/-- The stored bytes, oldest first. -/
def contents (b : Buffer) : List UInt8 := (List.range (bufferGetFull b)).map fun i => b.mem (b.place i)

end Buffer

variable {b : Buffer} {data : List UInt8} {n : ℕ}

theorem bufferInit_valid {size : ℕ} (h : 0 < size) (h' : size < 0x100000000) : (bufferInit size).Valid :=
  ⟨h, h, h'⟩

@[simp] theorem bufferInit_contents {size : ℕ} : (bufferInit size).contents = [] := by
  simp [Buffer.contents, bufferInit, bufferGetFull]

theorem length_contents : b.contents.length = bufferGetFull b := by simp [Buffer.contents]

theorem bufferGetFull_cases (b : Buffer) :
    b.out ≤ b.inp ∧ bufferGetFull b = b.inp - b.out ∨
      b.inp < b.out ∧ bufferGetFull b = b.size - (b.out - b.inp) := by
  simp only [bufferGetFull]
  split_ifs <;> omega

theorem free_add_full (h : b.Valid) : bufferGetFree b + bufferGetFull b + 1 = b.size := by
  obtain ⟨h1, h2, h3⟩ := h
  simp only [bufferGetFree, bufferGetFull]
  split_ifs <;> omega

theorem getElem?_contents {i : ℕ} (hi : i < bufferGetFull b) :
    b.contents[i]? = some (b.mem (b.place i)) := by
  simp [Buffer.contents, hi]

theorem copyInto_inside {mem : ℕ → UInt8} {start i : ℕ} {v : UInt8} (h : data[i]? = some v) :
    copyInto mem start data (start + i) = v := by
  simp [copyInto, h]

theorem copyInto_outside {mem : ℕ → UInt8} {start i : ℕ} (h : i < start ∨ start + data.length ≤ i) :
    copyInto mem start data i = mem i := by
  simp only [copyInto]
  split
  · rw [List.getElem?_eq_none (by omega)]
    rfl
  · rfl

theorem pointer_moved {size p k t : ℕ} (hp : p < size) (hk : k < size) (ht : t = min k (size - p)) :
    (if size ≤ if 0 < k - t then k - t else p + t then 0 else if 0 < k - t then k - t else p + t) =
      if p + k < size then p + k else p + k - size := by
  have hcases : p + k < size ∧ k - t = 0 ∧ p + t = p + k ∨ size ≤ p + k ∧ p + t = size ∧ k - t = p + k - size := by omega
  clear ht
  rcases hcases with ⟨hlt, hrest, hfirst⟩ | ⟨hle, hfirst, hrest⟩
  · rw [hrest, hfirst, if_neg (Nat.lt_irrefl 0), if_neg (Nat.not_le_of_lt hlt), if_pos hlt]
  · rw [hrest, hfirst, if_neg (Nat.not_lt_of_le hle)]
    split_ifs <;> omega

section write

variable {k : ℕ}

theorem copyInto_nil {mem : ℕ → UInt8} {start : ℕ} : copyInto mem start [] = mem := by
  funext i
  apply copyInto_outside
  rw [List.length_nil]
  omega

theorem place_full_add (h : b.Valid) {j : ℕ} (hj : j < bufferGetFree b) :
    b.place (bufferGetFull b + j) = if b.inp + j < b.size then b.inp + j else b.inp + j - b.size := by
  have hfree := free_add_full h
  obtain ⟨h1, h2, -⟩ := h
  unfold Buffer.place
  rcases bufferGetFull_cases b with ⟨hle, hfull⟩ | ⟨hlt, hfull⟩
  · rw [show b.out + (bufferGetFull b + j) = b.inp + j by omega]
  · rw [if_neg (by omega), if_pos (by omega)]
    omega

theorem place_stored (h : b.Valid) {i : ℕ} (hk : k ≤ bufferGetFree b) (hi : i < bufferGetFull b) :
    (b.place i < b.inp ∨ b.inp + k ≤ b.place i) ∧ b.inp + k ≤ b.place i + b.size := by
  have hfree := free_add_full h
  obtain ⟨h1, h2, -⟩ := h
  unfold Buffer.place
  rcases bufferGetFull_cases b with ⟨hle, hfull⟩ | ⟨hlt, hfull⟩
  · rw [if_pos (by omega)]
    omega
  · split_ifs <;> omega

theorem full_written (h : b.Valid) (hk : k ≤ bufferGetFree b) {mem : ℕ → UInt8} :
    bufferGetFull { b with mem := mem, inp := if b.inp + k < b.size then b.inp + k else b.inp + k - b.size } =
      bufferGetFull b + k := by
  have hfree := free_add_full h
  obtain ⟨h1, h2, -⟩ := h
  rcases bufferGetFull_cases b with ⟨hle, hfull⟩ | ⟨hlt, hfull⟩
  · rw [hfull] at hfree ⊢
    clear hfull
    unfold bufferGetFull
    dsimp only
    by_cases hwrap : b.inp + k < b.size
    · rw [if_pos hwrap]
      split_ifs <;> omega
    · rw [if_neg hwrap]
      split_ifs <;> omega
  · rw [hfull] at hfree ⊢
    clear hfull
    unfold bufferGetFull
    dsimp only
    rw [if_pos (by omega : b.inp + k < b.size), if_neg (by omega), if_neg (by omega)]
    omega

theorem bufferWrite_moved (h : b.Valid) (hk : k = min data.length (bufferGetFree b)) (hpos : k ≠ 0) :
    bufferWrite b data = ({ b with
      mem := copyInto (copyInto b.mem b.inp (data.take (min k (b.size - b.inp)))) 0
        ((data.drop (min k (b.size - b.inp))).take (k - min k (b.size - b.inp)))
      inp := if b.inp + k < b.size then b.inp + k else b.inp + k - b.size }, k) := by
  have hfree := free_add_full h
  have hcount : (if bufferGetFree b < data.length then bufferGetFree b else data.length) = k := by
    split <;> omega
  have htake : (if k < b.size - b.inp then k else b.size - b.inp) = min k (b.size - b.inp) := by
    split <;> omega
  have hmoved := @pointer_moved b.size b.inp k _ h.inp_lt (by omega) rfl
  unfold bufferWrite
  rw [if_neg (by omega), if_neg (Nat.not_le_of_lt h.inp_lt)]
  simp only [hcount, htake]
  rw [if_neg (by omega), hmoved, Nat.add_sub_cancel' (Nat.min_le_left _ _)]
  by_cases hrest : 0 < k - min k (b.size - b.inp)
  · rw [if_pos hrest]
  · rw [if_neg hrest, Nat.eq_zero_of_not_pos hrest, List.take_zero, copyInto_nil]

theorem bufferWrite_eq (h : b.Valid) (hk : k = min data.length (bufferGetFree b)) :
    (bufferWrite b data).2 = k ∧ (bufferWrite b data).1.Valid ∧
      (bufferWrite b data).1.size = b.size ∧ (bufferWrite b data).1.out = b.out ∧
      (bufferWrite b data).1.stringDelimiter = b.stringDelimiter ∧
      bufferGetFull (bufferWrite b data).1 = bufferGetFull b + k ∧
      (∀ i < bufferGetFull b, (bufferWrite b data).1.mem (b.place i) = b.mem (b.place i)) ∧
      ∀ j < k, some ((bufferWrite b data).1.mem (b.place (bufferGetFull b + j))) = data[j]? := by
  by_cases h0 : k = 0
  · have hsame : bufferWrite b data = (b, 0) := by
      unfold bufferWrite
      rw [if_neg (Nat.not_le_of_lt h.inp_lt)]
      split
      · rfl
      · rw [if_pos (by omega)]
    rw [hsame, h0]
    exact ⟨rfl, h, rfl, rfl, rfl, rfl, fun _ _ => rfl, by omega⟩
  have hfree := free_add_full h
  have hinp := h.inp_lt
  have hle : k ≤ bufferGetFree b := hk ▸ Nat.min_le_right _ _
  have hdata : k ≤ data.length := hk ▸ Nat.min_le_left _ _
  rw [bufferWrite_moved h hk h0]
  refine ⟨rfl, ⟨?_, h.out_lt, h.size_lt⟩, rfl, rfl, rfl, full_written h hle, ?_, ?_⟩
  · dsimp only
    split_ifs <;> omega
  · intro i hi
    obtain ⟨hfirst, hsecond⟩ := place_stored h hle hi
    dsimp only
    rw [copyInto_outside, copyInto_outside]
    · rw [List.length_take]
      omega
    · rw [List.length_take, List.length_drop]
      omega
  · intro j hj
    rw [place_full_add h (by omega), List.getElem?_eq_getElem (by omega : j < data.length)]
    apply congrArg some
    dsimp only
    split_ifs with hwrap
    · rw [copyInto_outside]
      · apply copyInto_inside
        rw [List.getElem?_take_of_lt (by omega), List.getElem?_eq_getElem (by omega : j < data.length)]
      · rw [List.length_take, List.length_drop]
        omega
    · rw [show b.inp + j - b.size = 0 + (j - min k (b.size - b.inp)) by omega]
      apply copyInto_inside
      rw [List.getElem?_take_of_lt (by omega), List.getElem?_drop,
        show min k (b.size - b.inp) + (j - min k (b.size - b.inp)) = j by omega,
        List.getElem?_eq_getElem (by omega : j < data.length)]

theorem bufferWrite_valid (h : b.Valid) : (bufferWrite b data).1.Valid := (bufferWrite_eq h rfl).2.1

theorem bufferWrite_size (h : b.Valid) : (bufferWrite b data).1.size = b.size :=
  (bufferWrite_eq h rfl).2.2.1

theorem bufferWrite_delimiter (h : b.Valid) :
    (bufferWrite b data).1.stringDelimiter = b.stringDelimiter :=
  (bufferWrite_eq h rfl).2.2.2.2.1

theorem bufferWrite_contents (h : b.Valid) :
    (bufferWrite b data).1.contents = b.contents ++ data.take (bufferGetFree b) := by
  obtain ⟨-, -, hsize, hout, -, hfull, hold, hnew⟩ := @bufferWrite_eq b data _ h rfl
  have hplace : ∀ i, (bufferWrite b data).1.place i = b.place i := by
    intro i
    simp only [Buffer.place, hsize, hout]
  refine List.ext_getElem? fun i => ?_
  by_cases hi : i < bufferGetFull b
  · rw [getElem?_contents (by omega), hplace, hold i hi, List.getElem?_append_left,
      getElem?_contents hi]
    rwa [length_contents]
  · rw [List.getElem?_append_right (by rw [length_contents]; omega), length_contents]
    by_cases hk : i - bufferGetFull b < min data.length (bufferGetFree b)
    · have := hnew _ hk
      rw [show bufferGetFull b + (i - bufferGetFull b) = i by omega] at this
      rw [getElem?_contents (by omega), hplace, this, List.getElem?_take_of_lt (by omega)]
    · rw [List.getElem?_eq_none (by rw [length_contents]; omega),
        List.getElem?_eq_none (by rw [List.length_take]; omega)]

end write

section read

theorem getElem?_copyFrom {mem : ℕ → UInt8} {start i : ℕ} (hi : i < n) :
    (copyFrom mem start n)[i]? = some (mem (start + i)) := by
  simp [copyFrom, hi]

theorem length_copyFrom {mem : ℕ → UInt8} {start : ℕ} : (copyFrom mem start n).length = n := by
  simp [copyFrom]

theorem full_read (h : b.Valid) {k : ℕ} (hk : k ≤ bufferGetFull b) :
    bufferGetFull { b with out := if b.out + k < b.size then b.out + k else b.out + k - b.size } =
      bufferGetFull b - k := by
  obtain ⟨h1, h2, -⟩ := h
  rcases bufferGetFull_cases b with ⟨hle, hfull⟩ | ⟨hlt, hfull⟩
  · rw [hfull] at hk ⊢
    clear hfull
    unfold bufferGetFull
    dsimp only
    rw [if_pos (by omega : b.out + k < b.size)]
    split_ifs <;> omega
  · rw [hfull] at hk ⊢
    clear hfull
    unfold bufferGetFull
    dsimp only
    by_cases hwrap : b.out + k < b.size
    · rw [if_pos hwrap, if_neg (by omega), if_neg (by omega)]
      omega
    · rw [if_neg hwrap]
      split_ifs <;> omega

theorem place_read (h : b.Valid) {k i : ℕ} (hi : k + i < bufferGetFull b) :
    Buffer.place { b with out := if b.out + k < b.size then b.out + k else b.out + k - b.size } i = b.place (k + i) := by
  have hfull : bufferGetFull b < b.size := by
    have := free_add_full h
    omega
  have hout := h.out_lt
  unfold Buffer.place
  dsimp only
  by_cases hwrap : b.out + k < b.size
  · rw [if_pos hwrap, Nat.add_assoc]
  · rw [if_neg hwrap, if_pos (by omega), if_neg (by omega)]
    omega

theorem bufferRead_moved (h : b.Valid) {k : ℕ} (hk : k = min n (bufferGetFull b)) (hpos : k ≠ 0) :
    bufferRead b n = ({ b with out := if b.out + k < b.size then b.out + k else b.out + k - b.size },
      copyFrom b.mem b.out (min k (b.size - b.out)) ++ copyFrom b.mem 0 (k - min k (b.size - b.out))) := by
  have hfree := free_add_full h
  have hcount : (if bufferGetFull b < n then bufferGetFull b else n) = k := by
    split <;> omega
  have htake : (if k < b.size - b.out then k else b.size - b.out) = min k (b.size - b.out) := by
    split <;> omega
  have hmoved := @pointer_moved b.size b.out k _ h.out_lt (by omega) rfl
  unfold bufferRead
  rw [if_neg (by omega), if_neg (Nat.not_le_of_lt h.out_lt)]
  simp only [hcount, htake]
  rw [if_neg (by omega), hmoved]

theorem bufferRead_eq (h : b.Valid) {k : ℕ} (hk : k = min n (bufferGetFull b)) :
    (bufferRead b n).1.Valid ∧ (bufferRead b n).1.size = b.size ∧
      (bufferRead b n).1.stringDelimiter = b.stringDelimiter ∧
      (bufferRead b n).1.mem = b.mem ∧ bufferGetFull (bufferRead b n).1 = bufferGetFull b - k ∧
      (∀ i < bufferGetFull b - k, (bufferRead b n).1.place i = b.place (k + i)) ∧
      (bufferRead b n).2.length = k ∧
      ∀ i < k, (bufferRead b n).2[i]? = some (b.mem (b.place i)) := by
  by_cases h0 : k = 0
  · have hsame : bufferRead b n = (b, []) := by
      unfold bufferRead
      rw [if_neg (Nat.not_le_of_lt h.out_lt)]
      split
      · rfl
      · rw [if_pos (by omega)]
    rw [hsame, h0]
    exact ⟨h, rfl, rfl, rfl, rfl, fun i _ => by rw [Nat.zero_add], rfl, by omega⟩
  have hfree := free_add_full h
  have hout := h.out_lt
  have hle : k ≤ bufferGetFull b := hk ▸ Nat.min_le_right _ _
  rw [bufferRead_moved h hk h0]
  refine ⟨⟨h.inp_lt, ?_, h.size_lt⟩, rfl, rfl, rfl, full_read h hle, ?_, ?_, ?_⟩
  · dsimp only
    split_ifs <;> omega
  · exact fun i hi => place_read h (by omega)
  · rw [List.length_append, length_copyFrom, length_copyFrom]
    omega
  · intro i hi
    unfold Buffer.place
    by_cases hfirst : i < min k (b.size - b.out)
    · rw [List.getElem?_append_left (by rwa [length_copyFrom]), getElem?_copyFrom hfirst, if_pos (by omega)]
    · rw [List.getElem?_append_right (by rw [length_copyFrom]; omega), length_copyFrom,
        getElem?_copyFrom (by omega), if_neg (by omega)]
      congr 2
      omega

theorem bufferRead_valid (h : b.Valid) : (bufferRead b n).1.Valid := (bufferRead_eq h rfl).1

theorem bufferRead_size (h : b.Valid) : (bufferRead b n).1.size = b.size := (bufferRead_eq h rfl).2.1

theorem bufferRead_delimiter (h : b.Valid) :
    (bufferRead b n).1.stringDelimiter = b.stringDelimiter := (bufferRead_eq h rfl).2.2.1

theorem bufferRead_contents (h : b.Valid) : (bufferRead b n).1.contents = b.contents.drop n := by
  obtain ⟨-, -, -, hmem, hfull, hplace, -, -⟩ := bufferRead_eq (n := n) h rfl
  refine List.ext_getElem? fun i => ?_
  rw [List.getElem?_drop]
  by_cases hi : n + i < bufferGetFull b
  · rw [getElem?_contents (by omega), getElem?_contents hi, hmem, hplace i (by omega)]
    rw [Nat.min_eq_left (by omega)]
  · rw [List.getElem?_eq_none (by rw [length_contents]; omega),
      List.getElem?_eq_none (by rw [length_contents]; omega)]

theorem bufferRead_data (h : b.Valid) : (bufferRead b n).2 = b.contents.take n := by
  obtain ⟨-, -, -, -, -, -, hlen, hdata⟩ := bufferRead_eq (n := n) h rfl
  refine List.ext_getElem? fun i => ?_
  by_cases hi : i < min n (bufferGetFull b)
  · rw [hdata i hi, List.getElem?_take_of_lt (by omega), getElem?_contents (by omega)]
  · rw [List.getElem?_eq_none (by omega), List.getElem?_eq_none (by
      rw [List.length_take, length_contents]
      omega)]

end read

section readString

variable {element : UInt8}

theorem findElementLoop_eq (h : b.Valid) {num out retval j : ℕ} (hnum : j + num ≤ bufferGetFull b)
    (hout : num = 0 ∨ (if b.size ≤ out then 0 else out) = b.place j) :
    findElementLoop b element num out retval =
      (((List.range num).map fun i => b.mem (b.place (j + i))).idxOf? element).map (· + retval) := by
  induction num generalizing out retval j with
  | zero => simp [findElementLoop]
  | succ num ih =>
    have hout : (if b.size ≤ out then 0 else out) = b.place j := hout.resolve_left (Nat.succ_ne_zero _)
    have hplace : (if b.size ≤ b.place j + 1 then 0 else b.place j + 1) = b.place (j + 1) := by
      have := bufferGetFull_cases b
      obtain ⟨h1, h2, h3⟩ := h
      simp only [Buffer.place]
      split_ifs <;> omega
    have hlist : (List.range (num + 1)).map (fun i => b.mem (b.place (j + i))) =
        b.mem (b.place j) :: (List.range num).map fun i => b.mem (b.place (j + 1 + i)) := by
      rw [List.range_succ_eq_map, List.map_cons, List.map_map]
      simp [Function.comp_def, Nat.add_assoc, Nat.add_comm 1]
    rw [hlist, List.idxOf?_cons]
    simp only [findElementLoop, hout]
    by_cases he : b.mem (b.place j) = element
    · simp [he]
    · rw [if_neg he, ih (by omega) (.inr hplace)]
      simp only [beq_iff_eq, he, if_false, Option.map_map]
      congr 1
      funext i
      simp only [Function.comp]
      omega

theorem bufferFindElement_eq (h : b.Valid) : bufferFindElement b element = b.contents.idxOf? element := by
  unfold bufferFindElement
  rw [findElementLoop_eq (j := 0) h (by omega)]
  · simp [Buffer.contents]
  · by_cases h0 : bufferGetFull b = 0
    · exact .inl h0
    · right
      obtain ⟨h1, h2, h3⟩ := h
      simp only [Buffer.place]
      split_ifs <;> omega

theorem readStringLoop_eq (h : b.Valid) {ch : UInt8}
    (hl : n ≤ b.contents.length ∨ b.stringDelimiter ∈ b.contents) :
    (readStringLoop n b ch).2 = lineOf b.stringDelimiter n b.contents ∧
      (readStringLoop n b ch).1.Valid ∧ (readStringLoop n b ch).1.size = b.size ∧
      (readStringLoop n b ch).1.stringDelimiter = b.stringDelimiter ∧
      (readStringLoop n b ch).1.contents =
        b.contents.drop (lineOf b.stringDelimiter n b.contents).length := by
  induction n generalizing b ch with
  | zero => exact ⟨rfl, h, rfl, rfl, rfl⟩
  | succ n ih =>
    obtain ⟨x, l, hc⟩ : ∃ x l, b.contents = x :: l := by
      cases hc : b.contents with
      | nil => simp [hc] at hl
      | cons x l => exact ⟨x, l, rfl⟩
    have hdata : (bufferRead b 1).2.headD ch = x := by
      rw [bufferRead_data h, hc]
      rfl
    have hrest : (bufferRead b 1).1.contents = l := by
      rw [bufferRead_contents h, hc]
      rfl
    have hdel := bufferRead_delimiter (n := 1) h
    simp only [readStringLoop, hdata, hc, lineOf]
    by_cases hx : x = b.stringDelimiter
    · simp only [hx, if_true]
      exact ⟨trivial, bufferRead_valid h, bufferRead_size h, hdel, hrest⟩
    · simp only [hx, if_false]
      have hl' : n ≤ (bufferRead b 1).1.contents.length ∨
          (bufferRead b 1).1.stringDelimiter ∈ (bufferRead b 1).1.contents := by
        rw [hdel, hrest]
        rw [hc] at hl
        rcases hl with hl | hl
        · exact .inl (Nat.le_of_succ_le_succ hl)
        · exact .inr ((List.mem_cons.mp hl).resolve_left (Ne.symm hx))
      obtain ⟨h1, h2, h3, h4, h5⟩ := @ih (bufferRead b 1).1 (bufferRead_valid h) x hl'
      rw [hdel, hrest] at h1 h5
      exact ⟨by rw [h1], h2, h3.trans (bufferRead_size h), h4.trans hdel, by rw [h5]; rfl⟩

/-- No line is read from an empty buffer, nor from one with room left that holds neither a
delimiter nor `buffsize` bytes. -/
theorem bufferReadString_none (h : b.Valid) {buffsize : ℕ} (hd : b.stringDelimiter ∉ b.contents)
    (hlen : b.contents.length < buffsize) (hfree : b.contents.length + 1 < b.size) :
    bufferReadString b buffsize = (b, []) := by
  have hff := free_add_full h
  rw [length_contents] at hlen hfree
  unfold bufferReadString
  simp only
  rw [if_pos]
  refine .inr ⟨?_, by omega, hlen⟩
  rw [bufferFindElement_eq h]
  exact List.idxOf?_eq_none_iff.mpr hd

theorem bufferReadString_line (h : b.Valid) {buffsize : ℕ}
    (hne : b.contents ≠ [])
    (hl : b.stringDelimiter ∈ b.contents ∨ buffsize ≤ b.contents.length) :
    (bufferReadString b buffsize).2 = lineOf b.stringDelimiter (buffsize - 1) b.contents ∧
      (bufferReadString b buffsize).1.Valid ∧ (bufferReadString b buffsize).1.size = b.size ∧
      (bufferReadString b buffsize).1.stringDelimiter = b.stringDelimiter ∧
      (bufferReadString b buffsize).1.contents =
        b.contents.drop (lineOf b.stringDelimiter (buffsize - 1) b.contents).length := by
  have hfull : bufferGetFull b ≠ 0 := by
    rw [← length_contents]
    exact fun h0 => hne (List.eq_nil_of_length_eq_zero h0)
  have heq : bufferReadString b buffsize = readStringLoop (buffsize - 1) b 0 := by
    unfold bufferReadString
    simp only
    rw [if_neg]
    rintro (h0 | ⟨h1, -, h3⟩)
    · exact hfull h0
    · rw [bufferFindElement_eq h, List.idxOf?_eq_none_iff] at h1
      rw [← length_contents] at h3
      rcases hl with hl | hl
      · exact h1 hl
      · omega
  rw [heq]
  refine readStringLoop_eq h ?_
  rcases hl with hl | hl
  · exact .inr hl
  · exact .inl (by omega)

end readString

end Lpc1788Libraries.WiFi

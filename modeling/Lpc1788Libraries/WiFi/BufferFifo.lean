import Mathlib.Algebra.Ring.Nat
import Mathlib.Data.List.Infix
import Lpc1788Libraries.WiFi.Buffer

namespace Lpc1788Libraries.WiFi

def bufferGetFullFast (b : Buffer) : ℕ :=
  ((b.size + b.inp) % 0x100000000 + (0x100000000 - b.out)) % 0x100000000 % b.size

/-- The byte loop of `BUFFER_Write`, over the `count` bytes that are left. -/
def writeLoop (b : Buffer) (i : ℕ) : List UInt8 → Buffer × ℕ
  | [] => (b, i)
  | x :: data =>
    let b := { b with mem := Function.update b.mem b.inp x, inp := b.inp + 1 }
    writeLoop (if b.size ≤ b.inp then { b with inp := 0 } else b) (i + 1) data

/-- `BUFFER_Write` without `BUFFER_FAST`. -/
def bufferWriteLoop (b : Buffer) (data : List UInt8) : Buffer × ℕ :=
  if data.length = 0 then (b, 0)
  else
    let b := if b.size ≤ b.inp then { b with inp := 0 } else b
    let free := bufferGetFree b
    if free < data.length ∧ free = 0 then (b, 0)
    else
      let count := if free < data.length then free else data.length
      writeLoop b 0 (data.take count)

/-- The byte loop of `BUFFER_Read`. -/
def readLoop : ℕ → Buffer → Buffer × List UInt8
  | 0, b => (b, [])
  | count + 1, b =>
    let x := b.mem b.out
    let b := { b with out := b.out + 1 }
    let r := readLoop count (if b.size ≤ b.out then { b with out := 0 } else b)
    (r.1, x :: r.2)

/-- `BUFFER_Read` without `BUFFER_FAST`. -/
def bufferReadLoop (b : Buffer) (count : ℕ) : Buffer × List UInt8 :=
  if count = 0 then (b, [])
  else
    let b := if b.size ≤ b.out then { b with out := 0 } else b
    let full := bufferGetFull b
    if full < count ∧ full = 0 then (b, [])
    else readLoop (if full < count then full else count) b

inductive BufferOp where
  | write (data : List UInt8)
  | read (count : ℕ)

/-- A buffer in use, with the bytes its writes have reported as stored and its reads have
returned so far. -/
structure BufferUse where
  buffer : Buffer
  stored : List UInt8
  returned : List UInt8

def BufferUse.step (u : BufferUse) : BufferOp → BufferUse
  | .write data =>
    let w := bufferWrite u.buffer data
    ⟨w.1, u.stored ++ data.take w.2, u.returned⟩
  | .read count =>
    let r := bufferRead u.buffer count
    ⟨r.1, u.stored, u.returned ++ r.2⟩

/-- `BUFFER_Init` with a buffer of any contents, then the calls. -/
def bufferUse (size : ℕ) (mem : ℕ → UInt8) (ops : List BufferOp) : BufferUse :=
  ops.foldl BufferUse.step ⟨{ bufferInit size with mem := mem }, [], []⟩

/-- What a first-in first-out buffer of `size - 1` bytes shows of itself. -/
structure BufferUse.IsFifo (size : ℕ) (u : BufferUse) : Prop where
  size_eq : u.buffer.size = size
  inp_lt : u.buffer.inp < size
  out_lt : u.buffer.out < size
  returned_prefix : u.returned <+: u.stored
  held : u.returned ++ u.buffer.contents = u.stored
  write_count (data : List UInt8) :
    (bufferWrite u.buffer data).2 = min data.length (bufferGetFree u.buffer)
  read_count (count : ℕ) :
    (bufferRead u.buffer count).2.length = min count (bufferGetFull u.buffer)
  free_add_full : bufferGetFree u.buffer + bufferGetFull u.buffer = size - 1
  fullFast : bufferGetFullFast u.buffer = bufferGetFull u.buffer
  write_loop (data : List UInt8) : bufferWriteLoop u.buffer data = bufferWrite u.buffer data
  read_loop (count : ℕ) : bufferReadLoop u.buffer count = bufferRead u.buffer count

variable {b : Buffer} {data : List UInt8} {i n size : ℕ} {mem : ℕ → UInt8}

section loops

theorem copyInto_update {start : ℕ} {x : UInt8} :
    copyInto (Function.update mem start x) (start + 1) data = copyInto mem start (x :: data) := by
  funext j
  rcases Nat.lt_trichotomy j start with hj | rfl | hj
  · have h1 : ¬ start + 1 ≤ j := by omega
    have h2 : ¬ start ≤ j := by omega
    simp [copyInto, h1, h2, Function.update_of_ne (Nat.ne_of_lt hj)]
  · have h1 : ¬ j + 1 ≤ j := by omega
    simp [copyInto, h1]
  · have h1 : start + 1 ≤ j := hj
    have h2 : start ≤ j := by omega
    have h3 : j - start = j - (start + 1) + 1 := by omega
    simp [copyInto, h1, h2, h3, Function.update_of_ne (Nat.ne_of_gt hj)]

theorem writeLoop_append {l : List UInt8} :
    writeLoop b i (data ++ l) = writeLoop (writeLoop b i data).1 (writeLoop b i data).2 l := by
  induction data generalizing b i with
  | nil => rfl
  | cons x data ih =>
    simp only [List.cons_append, writeLoop]
    apply ih

theorem writeLoop_eq (hinp : b.inp < b.size) (hlen : data.length ≤ b.size - b.inp) :
    writeLoop b i data =
      ({ b with
        mem := copyInto b.mem b.inp data
        inp := if b.size ≤ b.inp + data.length then 0 else b.inp + data.length }, i + data.length) := by
  induction data generalizing b i with
  | nil =>
    simp only [writeLoop, copyInto_nil, List.length_nil, Nat.add_zero]
    rw [if_neg (by omega)]
  | cons x data ih =>
    simp only [List.length_cons] at hlen ⊢
    simp only [writeLoop]
    by_cases hend : b.size ≤ b.inp + 1
    · have hnil : data = [] := List.eq_nil_of_length_eq_zero (by omega)
      subst hnil
      rw [if_pos hend]
      simp only [writeLoop, List.length_nil, ← copyInto_update, copyInto_nil]
      rw [if_pos (by omega)]
    · rw [if_neg hend, ih (by simp only; omega) (by simp only; omega)]
      have hend' : b.inp + 1 + data.length = b.inp + (data.length + 1) := by omega
      have hcount : i + 1 + data.length = i + (data.length + 1) := by omega
      simp only [copyInto_update, hend', hcount]

theorem copyFrom_succ {start : ℕ} : copyFrom mem start (n + 1) = mem start :: copyFrom mem (start + 1) n := by
  simp [copyFrom, List.range_succ_eq_map, Function.comp_def, Nat.add_assoc, Nat.add_comm 1]

theorem readLoop_add {m : ℕ} :
    readLoop (n + m) b =
      ((readLoop m (readLoop n b).1).1, (readLoop n b).2 ++ (readLoop m (readLoop n b).1).2) := by
  induction n generalizing b with
  | zero => simp [readLoop]
  | succ n ih =>
    rw [Nat.succ_add]
    simp only [readLoop]
    rw [ih]
    rfl

theorem readLoop_eq (hout : b.out < b.size) (hn : n ≤ b.size - b.out) :
    readLoop n b =
      ({ b with out := if b.size ≤ b.out + n then 0 else b.out + n }, copyFrom b.mem b.out n) := by
  induction n generalizing b with
  | zero =>
    simp only [readLoop, Nat.add_zero]
    rw [if_neg (by omega)]
    rfl
  | succ n ih =>
    simp only [readLoop, copyFrom_succ]
    by_cases hend : b.size ≤ b.out + 1
    · have hzero : n = 0 := by omega
      subst hzero
      rw [if_pos hend, if_pos (by omega)]
      rfl
    · rw [if_neg hend, ih (by simp only; omega) (by simp only; omega)]
      have hend' : b.out + 1 + n = b.out + (n + 1) := by omega
      simp only [hend']

end loops

theorem bufferWriteLoop_eq (h : b.Valid) : bufferWriteLoop b data = bufferWrite b data := by
  have hfree := free_add_full h
  obtain ⟨h1, h2, h3⟩ := h
  unfold bufferWriteLoop bufferWrite
  split
  · rfl
  rw [if_neg (Nat.not_le.mpr h1)]
  simp only
  split
  · rfl
  obtain ⟨k, hk⟩ : ∃ k, k = if bufferGetFree b < data.length then bufferGetFree b else data.length := ⟨_, rfl⟩
  rw [← hk]
  have hkle : k ≤ data.length ∧ k ≤ bufferGetFree b := by
    rw [hk]
    split <;> omega
  obtain ⟨t, ht⟩ : ∃ t, t = if k < b.size - b.inp then k else b.size - b.inp := ⟨_, rfl⟩
  rw [← ht]
  have htle : t ≤ k ∧ t ≤ b.size - b.inp := by
    rw [ht]
    split <;> omega
  have hlen : (data.take t).length = t := by
    rw [List.length_take]
    omega
  have hrest : ((data.drop t).take (k - t)).length = k - t := by
    rw [List.length_take, List.length_drop]
    omega
  have hsplit : data.take k = data.take t ++ (data.drop t).take (k - t) := by
    rw [← List.take_add]
    congr 1
    omega
  rw [hsplit, writeLoop_append, writeLoop_eq h1 (by omega), hlen]
  by_cases hmore : 0 < k - t
  · have hfull : t = b.size - b.inp := by
      split at ht <;> omega
    have hinp : (if b.size ≤ b.inp + t then 0 else b.inp + t) = 0 := if_pos (by omega)
    simp only [hinp]
    rw [writeLoop_eq (by simp only; omega) (by simp only; omega), hrest]
    simp only [Nat.zero_add, if_pos hmore]
  · have hnil : (data.drop t).take (k - t) = [] := List.eq_nil_of_length_eq_zero (by omega)
    simp only [hnil, writeLoop, if_neg hmore]
    congr 1
    omega

theorem bufferReadLoop_eq (h : b.Valid) : bufferReadLoop b n = bufferRead b n := by
  have hfree := free_add_full h
  obtain ⟨h1, h2, h3⟩ := h
  unfold bufferReadLoop bufferRead
  split
  · rfl
  rw [if_neg (Nat.not_le.mpr h2)]
  simp only
  split
  · rfl
  obtain ⟨k, hk⟩ : ∃ k, k = if bufferGetFull b < n then bufferGetFull b else n := ⟨_, rfl⟩
  rw [← hk]
  have hkle : k ≤ bufferGetFull b := by
    rw [hk]
    split <;> omega
  obtain ⟨t, ht⟩ : ∃ t, t = if k < b.size - b.out then k else b.size - b.out := ⟨_, rfl⟩
  rw [← ht]
  have htle : t ≤ k ∧ t ≤ b.size - b.out := by
    rw [ht]
    split <;> omega
  have hsplit : k = t + (k - t) := by omega
  have hread : readLoop k b =
      ((readLoop (k - t) (readLoop t b).1).1, (readLoop t b).2 ++ (readLoop (k - t) (readLoop t b).1).2) := by
    rw [← readLoop_add, ← hsplit]
  rw [hread, readLoop_eq h2 (by omega)]
  by_cases hmore : 0 < k - t
  · have hfull : t = b.size - b.out := by
      split at ht <;> omega
    have hout : (if b.size ≤ b.out + t then 0 else b.out + t) = 0 := if_pos (by omega)
    simp only [hout]
    rw [readLoop_eq (by simp only; omega) (by simp only; omega)]
    simp only [Nat.zero_add, if_pos hmore]
  · have hzero : k - t = 0 := by omega
    simp [hzero, readLoop, copyFrom]

theorem bufferGetFullFast_eq_iff (h : b.Valid) :
    bufferGetFullFast b = bufferGetFull b ↔ b.inp < b.out ∨ b.size + (b.inp - b.out) < 0x100000000 := by
  obtain ⟨h1, h2, h3⟩ := h
  have hfull := bufferGetFull_cases b
  have hsum : ((b.size + b.inp) % 0x100000000 + (0x100000000 - b.out)) % 0x100000000 =
      (b.size + b.inp - b.out) % 0x100000000 := by omega
  unfold bufferGetFullFast
  rw [hsum]
  by_cases hwrap : b.inp < b.out
  · rw [Nat.mod_eq_of_lt (by omega : b.size + b.inp - b.out < 0x100000000), Nat.mod_eq_of_lt (by omega)]
    omega
  · by_cases hover : b.size + (b.inp - b.out) < 0x100000000
    · have heq : (b.size + b.inp - b.out) % 0x100000000 = b.size + (b.inp - b.out) := by omega
      rw [heq, Nat.add_mod_left, Nat.mod_eq_of_lt (by omega)]
      omega
    · have heq : (b.size + b.inp - b.out) % 0x100000000 = b.size + (b.inp - b.out) - 0x100000000 := by
        omega
      rw [heq, Nat.mod_eq_of_lt (by omega)]
      omega

/-- What every call keeps, for every size. -/
structure BufferUse.Kept (size : ℕ) (u : BufferUse) : Prop where
  valid : u.buffer.Valid
  size_eq : u.buffer.size = size
  held : u.returned ++ u.buffer.contents = u.stored

theorem BufferUse.Kept.step {u : BufferUse} (h : u.Kept size) (op : BufferOp) : (u.step op).Kept size := by
  cases op with
  | write data =>
    have hcount := (@bufferWrite_eq u.buffer data _ h.valid rfl).1
    constructor
    · exact bufferWrite_valid h.valid
    · exact (bufferWrite_size h.valid).trans h.size_eq
    · change u.returned ++ (bufferWrite u.buffer data).1.contents =
        u.stored ++ data.take (bufferWrite u.buffer data).2
      rw [bufferWrite_contents h.valid, ← List.append_assoc, h.held, hcount, Nat.min_comm,
        ← List.take_eq_take_min]
  | read count =>
    constructor
    · exact bufferRead_valid h.valid
    · exact (bufferRead_size h.valid).trans h.size_eq
    · change u.returned ++ (bufferRead u.buffer count).2 ++ (bufferRead u.buffer count).1.contents =
        u.stored
      rw [bufferRead_contents h.valid, bufferRead_data h.valid, List.append_assoc, List.take_append_drop, h.held]

variable (mem) in
theorem init_valid (hpos : 0 < size) (h32 : size < 0x100000000) :
    Buffer.Valid { bufferInit size with mem := mem } :=
  ⟨hpos, hpos, h32⟩

theorem bufferUse_kept (hpos : 0 < size) (h32 : size < 0x100000000) (ops : List BufferOp) :
    (bufferUse size mem ops).Kept size := by
  have hinit : BufferUse.Kept size ⟨{ bufferInit size with mem := mem }, [], []⟩ :=
    ⟨init_valid mem hpos h32, rfl, by simp [Buffer.contents, bufferInit, bufferGetFull]⟩
  unfold bufferUse
  induction ops using List.reverseRecOn with
  | nil => exact hinit
  | append_singleton ops op ih =>
    rw [List.foldl_append]
    exact ih.step op

theorem BufferUse.Kept.isFifo {u : BufferUse} (h : u.Kept size)
    (hfast : u.buffer.inp < u.buffer.out ∨ u.buffer.size + (u.buffer.inp - u.buffer.out) < 0x100000000) :
    u.IsFifo size := by
  have hsize := h.size_eq
  constructor
  · exact hsize
  · exact hsize ▸ h.valid.inp_lt
  · exact hsize ▸ h.valid.out_lt
  · exact ⟨_, h.held⟩
  · exact h.held
  · intro data
    exact (bufferWrite_eq h.valid rfl).1
  · intro count
    rw [bufferRead_data h.valid, List.length_take, length_contents]
  · have := free_add_full h.valid
    omega
  · exact (bufferGetFullFast_eq_iff h.valid).mpr hfast
  · intro data
    exact bufferWriteLoop_eq h.valid
  · intro count
    exact bufferReadLoop_eq h.valid

theorem overflowing_write (h32 : size < 0x100000000) (hbig : 0x80000000 < size) :
    ¬ (bufferUse size mem [.write (List.replicate (0x100000000 - size) 0)]).IsFifo size := by
  intro h
  have hvalid := init_valid mem (by omega) h32
  have hfree := free_add_full hvalid
  have hempty : bufferGetFull { bufferInit size with mem := mem } = 0 := rfl
  have hsize : ({ bufferInit size with mem := mem } : Buffer).size = size := rfl
  have hout : ({ bufferInit size with mem := mem } : Buffer).out = 0 := rfl
  obtain ⟨-, hkept, hsize', hout', -, hfull, -, -⟩ :=
    @bufferWrite_eq _ (List.replicate (0x100000000 - size) 0) _ hvalid rfl
  have hfast := (bufferGetFullFast_eq_iff hkept).mp h.fullFast
  have hcases := bufferGetFull_cases (bufferWrite { bufferInit size with mem := mem }
    (List.replicate (0x100000000 - size) 0)).1
  rw [List.length_replicate] at hfull
  omega

theorem buffer_fifo_iff (hpos : 0 < size) (h32 : size < 0x100000000) :
    (∀ (mem : ℕ → UInt8) (ops : List BufferOp), (bufferUse size mem ops).IsFifo size) ↔ size ≤ 0x80000000 := by
  constructor
  · intro h
    by_contra hbig
    exact overflowing_write h32 (Nat.lt_of_not_le hbig) (h (fun _ => 0) _)
  · intro hsmall mem ops
    have hkept : (bufferUse size mem ops).Kept size := bufferUse_kept hpos h32 ops
    apply hkept.isFifo
    have hinp := hkept.valid.inp_lt
    have hsize := hkept.size_eq
    omega

theorem buffer_fifo_iff_eight :
    (∀ (mem : ℕ → UInt8) (ops : List BufferOp), (bufferUse 8 mem ops).IsFifo 8) ↔ 8 ≤ 0x80000000 :=
  buffer_fifo_iff (by decide) (by decide)

theorem buffer_not_fifo :
    ¬ (bufferUse 0x80000001 (fun _ => 0) [.write (List.replicate 0x7fffffff 0)]).IsFifo 0x80000001 :=
  overflowing_write (by decide) (by decide)

end Lpc1788Libraries.WiFi

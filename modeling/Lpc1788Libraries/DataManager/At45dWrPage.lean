import Lpc1788Libraries.DataManager.At45dReads

namespace Lpc1788Libraries.DataManager

open Lpc1788Libraries.Support NorFlash BoundedProgram

def at45dCmdMainMemProgThroughBuf1 : UInt8 := 0x82

/-- Data bytes fill the SRAM buffer one by one, from its start again behind its last byte. -/
def fillBuffer (size : ℕ) : ℕ → List UInt8 → (ℕ → UInt8) → ℕ → UInt8
  | _, [], f => f
  | i, byte :: data, f => fillBuffer size (i + 1) data (Function.update f (i % size) byte)

variable (a : At45dCfg)

/-- What the device does with a frame, the write of a page through its buffer among them. -/
def At45dChip.frameThroughBuffer (t : ℕ) (d : At45dChip) : List UInt8 → At45dChip
  | cmd :: b2 :: b1 :: b0 :: data =>
    if cmd = at45dCmdMainMemProgThroughBuf1 then
      let d := { d with buffer1 := fillBuffer a.pageSize (adrOf b2 b1 b0 % 2 ^ a.byteBits) data d.buffer1 }
      d.store t (adrPage a (adrOf b2 b1 b0)) d.buffer1
    else d.frame a t (cmd :: b2 :: b1 :: b0 :: data)
  | bytes => d.frame a t bytes

def spiFrameThroughBuffer (bytes : List UInt8) : At45dM Unit :=
  Prog.modify fun s => { s with chip := s.chip.frameThroughBuffer a (s.times 0) bytes,
                                times := fun n => s.times (n + 1) }

/-- The count is the page size as an `u8_t`. -/
def at45dWrPage (buffer : List UInt8) (page : ℕ) : At45dM Unit := do
  waitReady
  spiFrameThroughBuffer a
    (at45dCmdMainMemProgThroughBuf1 :: at45dTxAdr a page 0 ++ buffer.take (a.pageSize % 256))
  Prog.modify fun s => { s with readyFlag := false }

variable {a} {size i j n page : ℕ} {data : List UInt8} {f : ℕ → UInt8} {s : At45d}

theorem fillBuffer_outside (h : ∀ k < data.length, (i + k) % size ≠ j) : fillBuffer size i data f j = f j := by
  induction data generalizing i f with
  | nil => rfl
  | cons byte data ih =>
    rw [fillBuffer, ih]
    · exact Function.update_of_ne (h 0 (Nat.zero_lt_succ _)).symm _ _
    · intro k hk
      rw [Nat.add_assoc, Nat.add_comm 1]
      exact h (k + 1) (Nat.succ_lt_succ hk)

theorem mod_ne_of_lt {k l : ℕ} (hkl : k < l) (hl : l < k + size) : (i + k) % size ≠ (i + l) % size := by
  intro h
  have hzero := Nat.sub_mod_eq_zero_of_mod_eq h.symm
  rw [Nat.mod_eq_of_lt (by omega)] at hzero
  omega

theorem fillBuffer_inside (hsize : data.length ≤ size) {k : ℕ} (hk : k < data.length) :
    fillBuffer size i data f ((i + k) % size) = data[k] := by
  induction data generalizing i f k with
  | nil => exact absurd hk (Nat.not_lt_zero _)
  | cons byte data ih =>
    rw [List.length_cons] at hsize hk
    cases k with
    | zero =>
      rw [fillBuffer, fillBuffer_outside]
      · exact Function.update_self ..
      · intro l hl
        rw [Nat.add_assoc, Nat.add_comm 1]
        exact (mod_ne_of_lt (Nat.zero_lt_succ l) (by omega)).symm
    | succ k =>
      have hnext := @ih (i + 1) (Function.update f (i % size) byte) (by omega) k (by omega)
      rw [Nat.add_assoc, Nat.add_comm 1] at hnext
      rw [fillBuffer, hnext, List.getElem_cons_succ]

/-- The start in the page that the device takes from the address of the page. -/
def sentStart (a : At45dCfg) (page : ℕ) : ℕ := sentAdr a page 0 % 2 ^ a.byteBits

theorem sentStart_eq : sentStart a page = sentAdr a page 0 % 2 ^ a.byteBits := rfl

theorem sentPage_eq : sentPage a page = adrPage a (sentAdr a page 0) := by
  obtain ⟨b2, b1, b0, h⟩ := at45dTxAdr_bytes a page 0
  simp only [sentPage, sentAdr, h]

theorem exists_place {start : ℕ} (hsize : 0 < size) (hi : i < size) : ∃ k < size, (start + k) % size = i := by
  refine ⟨(i + size - start % size) % size, Nat.mod_lt _ hsize, ?_⟩
  have hr := Nat.mod_lt start hsize
  have hsum : start + (i + size - start % size) = i + size * (start / size + 1) := by
    have := Nat.div_add_mod start size
    rw [Nat.mul_add]
    omega
  rw [Nat.add_mod_mod, hsum, Nat.add_mul_mod_self_left, Nat.mod_eq_of_lt hi]

theorem at45dWrPage_returns (s : At45d) (data : List UInt8) (page : ℕ) :
    ∃ t, (at45dWrPage a data page).Returns s () t ∧ t.chip.pages = fun q i =>
      if q = sentPage a page then
        fillBuffer a.pageSize (sentStart a page) (data.take (a.pageSize % 256)) s.chip.buffer1 i
      else s.chip.pages q i := by
  obtain ⟨b, hb⟩ := waitReady_returns s
  obtain ⟨b2, b1, b0, hadr⟩ := at45dTxAdr_bytes a page 0
  let bytes := at45dCmdMainMemProgThroughBuf1 :: at45dTxAdr a page 0 ++ data.take (a.pageSize % 256)
  let t : At45d := ⟨false, At45dChip.frameThroughBuffer a (s.times 0) { s.chip with busy := b } bytes,
    fun n => s.times (n + 1)⟩
  refine ⟨t, hb.bind ?_, ?_⟩
  · simp only [spiFrameThroughBuffer, Prog.modify_bind_returns, Prog.returns_modify]
    rfl
  · simp only [t, bytes, hadr, sentPage, sentStart, sentAdr, List.cons_append, At45dChip.frameThroughBuffer,
      if_true, List.nil_append]
    rfl

/-- A page written and read back: the same bytes, and no other page changed. -/
def PageRoundTrip (a : At45dCfg) (data : List UInt8) (page : ℕ) (s : At45d) : Prop :=
  ∃ t u bytes, (at45dWrPage a data page).Returns s () t ∧ (at45dRdPage a page).Returns t bytes u ∧
    bytes = data ∧ u.chip.pages = t.chip.pages ∧
    ∀ q < a.pages, q ≠ page → ∀ i < a.pageSize, t.chip.pages q i = s.chip.pages q i

/-- The bytes that are not sent are in the buffer of the device already. -/
def TailHeld (a : At45dCfg) (data : List UInt8) (page : ℕ) (s : At45d) : Prop :=
  ∀ k < a.pageSize, a.pageSize % 256 ≤ k →
    some (s.chip.buffer1 ((sentStart a page + k) % a.pageSize)) = data[k]?

/-- The page that is programmed is the one meant, or holds the data already. -/
def SentPageRight (a : At45dCfg) (data : List UInt8) (page : ℕ) (s : At45d) : Prop :=
  sentPage a page = page ∨ ∀ k < a.pageSize,
    some (s.chip.pages (sentPage a page) ((sentStart a page + k) % a.pageSize)) = data[k]?

theorem fillBuffer_sent (hlen : data.length = a.pageSize) {k : ℕ} (hk : k < a.pageSize) :
    some (fillBuffer a.pageSize (sentStart a page) (data.take (a.pageSize % 256)) f
      ((sentStart a page + k) % a.pageSize)) =
    if k < a.pageSize % 256 then data[k]? else some (f ((sentStart a page + k) % a.pageSize)) := by
  have hmod := Nat.mod_le a.pageSize 256
  have htake : (data.take (a.pageSize % 256)).length = a.pageSize % 256 := by
    rw [List.length_take, hlen, Nat.min_eq_left hmod]
  split
  · next h =>
    rw [fillBuffer_inside (by omega) (by omega), List.getElem_take, ← List.getElem?_eq_getElem]
  · next h =>
    rw [fillBuffer_outside]
    intro l hl
    exact mod_ne_of_lt (by omega) (by omega)

theorem pageBytes_eq_iff {p : Pages} {q start : ℕ} (hlen : data.length = a.pageSize) :
    pageBytes a p q start a.pageSize = data ↔ ∀ k < a.pageSize, some (p q ((start + k) % a.pageSize)) = data[k]? := by
  constructor
  · rintro rfl k hk
    simp [pageBytes, hk]
  · intro h
    apply List.ext_getElem?
    intro k
    by_cases hk : k < a.pageSize
    · rw [← h k hk]
      simp [pageBytes, hk]
    · rw [List.getElem?_eq_none (by simp [pageBytes]; omega), List.getElem?_eq_none (by omega)]

theorem pageRoundTrip_iff (hlen : data.length = a.pageSize) :
    PageRoundTrip a data page s ↔ TailHeld a data page s ∧ SentPageRight a data page s := by
  obtain ⟨t, ht, hpages⟩ := at45dWrPage_returns (a := a) s data page
  obtain ⟨u, hu, hup⟩ := at45dRdPage_returns (a := a) t page
  rw [← sentPage_eq, ← sentStart_eq] at hu
  have hnew : ∀ i, t.chip.pages (sentPage a page) i =
      fillBuffer a.pageSize (sentStart a page) (data.take (a.pageSize % 256)) s.chip.buffer1 i := by
    intro i
    rw [hpages]
    simp only [if_true]
  -- what the page holds behind the write, by place in the data
  have hplace : ∀ k < a.pageSize,
      some (t.chip.pages (sentPage a page) ((sentStart a page + k) % a.pageSize)) =
        if k < a.pageSize % 256 then data[k]? else some (s.chip.buffer1 ((sentStart a page + k) % a.pageSize)) := by
    intro k hk
    rw [hnew, fillBuffer_sent hlen hk]
  have hread : pageBytes a t.chip.pages (sentPage a page) (sentStart a page) a.pageSize = data ↔
      TailHeld a data page s := by
    rw [pageBytes_eq_iff hlen]
    constructor
    · intro h k hk hsent
      rw [← h k hk, hplace k hk, if_neg (Nat.not_lt.mpr hsent)]
    · intro h k hk
      rw [hplace k hk]
      split
      · rfl
      · next hsent => exact h k hk (Nat.not_lt.mp hsent)
  constructor
  · rintro ⟨t', u', bytes, ht', hu', hbytes, -, hothers⟩
    obtain ⟨-, rfl⟩ := ht.unique ht'
    obtain ⟨heq, -⟩ := hu.unique hu'
    have hback := heq.trans hbytes
    constructor
    · exact hread.mp hback
    · by_cases hsame : sentPage a page = page
      · exact .inl hsame
      · right
        intro k hk
        rw [← hothers _ (sentPage_lt a page) hsame _ (Nat.mod_lt _ (pageSize_le a).1)]
        exact (pageBytes_eq_iff hlen).mp hback k hk
  · rintro ⟨htail, hsent⟩
    have hback := hread.mpr htail
    refine ⟨t, u, _, ht, hu, hback, hup, ?_⟩
    intro q _ hne i hi
    rcases hsent with hsent | hsent
    · rw [hpages]
      simp only
      rw [if_neg (by rwa [hsent])]
    · by_cases hq : q = sentPage a page
      · subst hq
        -- every byte of the page is the place of some byte of the data
        obtain ⟨k, hk, rfl⟩ : ∃ k < a.pageSize, (sentStart a page + k) % a.pageSize = i := by
          exact exists_place (pageSize_le a).1 hi
        have h1 := (pageBytes_eq_iff hlen).mp hback k hk
        rw [← hsent k hk] at h1
        exact Option.some.inj h1
      · rw [hpages]
        simp only
        rw [if_neg hq]

theorem pageRoundTrip_iff_marked : PageRoundTrip at45db041 (List.replicate 264 0) 3 markedChip := by
  refine (pageRoundTrip_iff List.length_replicate).mpr ⟨?_, .inl (by decide)⟩
  intro k hk _
  rw [List.getElem?_replicate, if_pos hk]
  rfl

/-- Of a page of 264 zero bytes only eight are sent. -/
theorem at45dWrPage_loses_tail : ¬ ∀ (a : At45dCfg) (data : List UInt8) (page : ℕ) (s : At45d),
    page < a.pages → data.length = a.pageSize → PageRoundTrip a data page s := by
  intro h
  have hlen : (List.replicate 264 (0 : UInt8)).length = at45db041.pageSize := List.length_replicate
  have hround := h at45db041 (List.replicate 264 0) 3 { markedChip with chip := { markedChip.chip with buffer1 := fun _ => 1 } }
    (by decide) hlen
  obtain ⟨t, u, bytes, ht, hu, hbytes, -⟩ := hround
  obtain ⟨t', ht', hpages⟩ := at45dWrPage_returns (a := at45db041)
    { markedChip with chip := { markedChip.chip with buffer1 := fun _ => 1 } } (List.replicate 264 0) 3
  obtain ⟨u', hu', -⟩ := at45dRdPage_returns (a := at45db041) t' 3
  obtain ⟨-, rfl⟩ := ht.unique ht'
  obtain ⟨heq, -⟩ := hu.unique hu'
  rw [hbytes, hpages] at heq
  have hlast := congrArg (fun l => l[263]?) heq
  revert hlast
  decide +kernel

end Lpc1788Libraries.DataManager

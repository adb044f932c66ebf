import Lpc1788Libraries.Support.BoundedProgram
import Lpc1788Libraries.Support.NorFlash
import Mathlib.Algebra.Ring.Nat

namespace Lpc1788Libraries.DataManager

open Lpc1788Libraries.Support NorFlash BoundedProgram

inductive At45dDevice
  | at45db011
  | at45db021
  | at45db041
  | at45db081
  | at45db161
  | at45db321
  | at45db642
  deriving DecidableEq, Repr

/-- `AT45D_CFG_DEVICE` and `AT45D_CFG_PWR_OF_TWO_PAGE_SIZE`. -/
structure At45dCfg where
  device : At45dDevice
  pwrOfTwoPageSize : Bool
  deriving DecidableEq, Repr

namespace At45dCfg

variable (a : At45dCfg)

def pages : ℕ :=
  match a.device with
  | .at45db011 => 512
  | .at45db021 => 1024
  | .at45db041 => 2048
  | .at45db081 | .at45db161 => 4096
  | .at45db321 | .at45db642 => 8192

def pageSize : ℕ :=
  match a.device with
  | .at45db011 | .at45db021 | .at45db041 | .at45db081 => 256 + if a.pwrOfTwoPageSize then 0 else 8
  | .at45db161 | .at45db321 => 512 + if a.pwrOfTwoPageSize then 0 else 16
  | .at45db642 => 1024 + if a.pwrOfTwoPageSize then 0 else 32

/-- The number of low address bits in which the device takes the byte of a page. -/
def byteBits : ℕ :=
  match a.device with
  | .at45db011 | .at45db021 | .at45db041 | .at45db081 => 8 + if a.pwrOfTwoPageSize then 0 else 1
  | .at45db161 | .at45db321 => 9 + if a.pwrOfTwoPageSize then 0 else 1
  | .at45db642 => 10 + if a.pwrOfTwoPageSize then 0 else 1

end At45dCfg

def at45dCmdBuffer1Write : UInt8 := 0x84
def at45dCmdBuf1ToMainPagePrgWErase : UInt8 := 0x83
def at45dCmdBuf1ToMainPagePrgWoErase : UInt8 := 0x88
def at45dCmdPageErase : UInt8 := 0x81

/-- The device: its pages, its SRAM buffer 1 and the number of status reads for which it will
still report that it is busy. -/
structure At45dChip where
  pages : Pages
  buffer1 : ℕ → UInt8
  busy : ℕ

variable (a : At45dCfg)

def adrOf (b2 b1 b0 : UInt8) : ℕ := b2.toNat * 0x10000 + b1.toNat * 0x100 + b0.toNat

def adrPage (adr : ℕ) : ℕ := adr / 2 ^ a.byteBits % a.pages

/-- Replaces a page, and is busy with it for `t` status reads. -/
def At45dChip.store (d : At45dChip) (t page : ℕ) (bytes : ℕ → UInt8) : At45dChip :=
  { d with pages := fun q i => if q = page then bytes i else d.pages q i, busy := t }

/-- What the device does with the bytes of one chip select frame, by the names of the opcodes.
`t` is the time that the operation takes. -/
def At45dChip.frame (t : ℕ) (d : At45dChip) : List UInt8 → At45dChip
  | cmd :: b2 :: b1 :: b0 :: data =>
    let page := adrPage a (adrOf b2 b1 b0)
    if cmd = at45dCmdBuffer1Write then
      let start := adrOf b2 b1 b0 % 2 ^ a.byteBits
      { d with buffer1 := fun i =>
        if start ≤ i ∧ i < start + data.length then data.getD (i - start) 0 else d.buffer1 i }
    else if cmd = at45dCmdBuf1ToMainPagePrgWErase then
      d.store t page d.buffer1
    else if cmd = at45dCmdBuf1ToMainPagePrgWoErase then
      d.store t page fun i => d.pages page i &&& d.buffer1 i
    else if cmd = at45dCmdPageErase then
      d.store t page fun _ => 0xff
    else d
  | _ => d

/-- The driver's flag and the device. `times` are the durations of the operations to come. -/
structure At45d where
  readyFlag : Bool
  chip : At45dChip
  times : ℕ → ℕ

abbrev At45dM := Prog At45d

def spiFrame (bytes : List UInt8) : At45dM Unit :=
  Prog.modify fun s => { s with chip := s.chip.frame a (s.times 0) bytes, times := fun n => s.times (n + 1) }

/-- The status frame; the answer is the ready bit. -/
def at45dGetStatus : At45dM Bool := do
  let s ← Prog.get
  Prog.modify fun s => { s with chip := { s.chip with busy := s.chip.busy - 1 } }
  return s.chip.busy = 0

def at45dReady : At45dM Bool := do
  if (← Prog.get).readyFlag then
    return true
  else if ← at45dGetStatus then
    Prog.modify fun s => { s with readyFlag := true }
    return true
  else
    return false

def waitReady : At45dM Unit :=
  Prog.loop (fun _ => do
    if ← at45dReady then
      return .inr ()
    else
      return .inl ()) ()

def at45dTxAdr (page startByteInPage : ℕ) : List UInt8 :=
  if a.pageSize &&& (a.pageSize - 1) = 0 then
    [UInt8.ofNat (page / 256 % 256), UInt8.ofNat (page % 256), UInt8.ofNat (startByteInPage % 256)]
  else
    [UInt8.ofNat (page / 128 % 256), UInt8.ofNat ((page * 2 ||| startByteInPage / 256) % 256),
      UInt8.ofNat (startByteInPage % 256)]

/-- The fill loop of `at45d_wr_page_offset`, for `k` more bytes from index `i` on. -/
def bufferBytes (startByteInPage nrOfBytes : ℕ) : ℕ → ℕ → List UInt8 → List UInt8
  | 0, _, _ => []
  | k + 1, i, buffer =>
    if startByteInPage ≤ i ∧ i < startByteInPage + nrOfBytes then
      buffer.headD 0 :: bufferBytes startByteInPage nrOfBytes k (i + 1) buffer.tail
    else
      0xff :: bufferBytes startByteInPage nrOfBytes k (i + 1) buffer

def at45dWrPageOffsetSpi (buffer : List UInt8) (page startByteInPage : ℕ) : At45dM Unit := do
  waitReady
  spiFrame a ([at45dCmdBuffer1Write, 0, 0, 0] ++
    bufferBytes startByteInPage buffer.length a.pageSize 0 buffer)
  Prog.modify fun s => { s with readyFlag := false }
  waitReady
  spiFrame a (at45dCmdBuf1ToMainPagePrgWErase :: at45dTxAdr a page 0)
  Prog.modify fun s => { s with readyFlag := false }

theorem at45dReady_flag {s : At45d} (h : s.readyFlag = true) : at45dReady.Returns s true s := by
  simp [at45dReady, h]

theorem at45dReady_poll {s : At45d} (h : s.readyFlag = false) :
    at45dReady.Returns s (s.chip.busy = 0)
      { s with chip := { s.chip with busy := s.chip.busy - 1 }, readyFlag := s.chip.busy = 0 } := by
  by_cases hb : s.chip.busy = 0 <;> simp [at45dReady, at45dGetStatus, h, hb]

theorem waitReady_returns (s : At45d) :
    ∃ b, waitReady.Returns s () ⟨true, { s.chip with busy := b }, s.times⟩ := by
  have hloop : ∃ r t, waitReady.Returns s r t ∧ ∃ b, t = ⟨true, { s.chip with busy := b }, s.times⟩ := by
    refine Prog.loop_total
      (I := fun k _ t => ∃ b f, t = ⟨f, { s.chip with busy := b }, s.times⟩ ∧ k = b) ?_
      ⟨s.chip.busy, s.readyFlag, rfl, rfl⟩
    rintro b ⟨⟩ t ⟨_, f, rfl, rfl⟩
    cases f with
    | true => exact .inl ⟨(), _, (at45dReady_flag rfl).bind (by simp), b, rfl⟩
    | false =>
      by_cases hb : b = 0
      · refine .inl ⟨(), ⟨true, { s.chip with busy := 0 }, s.times⟩, (at45dReady_poll rfl).bind ?_, 0, rfl⟩
        simp [hb]
      · refine .inr ⟨(), ⟨false, { s.chip with busy := b - 1 }, s.times⟩,
          (at45dReady_poll rfl).bind ?_, b - 1, by omega, b - 1, false, rfl, rfl⟩
        simp [hb]
  obtain ⟨r, t, hr, b, rfl⟩ := hloop
  exact ⟨b, hr⟩

@[simp] theorem length_bufferBytes (start n k i : ℕ) (buffer : List UInt8) :
    (bufferBytes start n k i buffer).length = k := by
  induction k generalizing i buffer with
  | zero => rfl
  | succ k ih => simp only [bufferBytes]; split <;> simp [ih]

theorem getD_bufferBytes (start k i j : ℕ) (data : List UInt8) (hj : j < k) :
    (bufferBytes start data.length k i (data.drop (i - start))).getD j 0 =
      Pages.mask start data (i + j) := by
  induction k generalizing i j with
  | zero => omega
  | succ k ih =>
    have hin : start ≤ i → i < start + data.length →
        (data.drop (i - start)).headD 0 = Pages.mask start data i ∧
          (data.drop (i - start)).tail = data.drop (i + 1 - start) := by
      intro h1 h2
      have h3 : i - start < data.length := by omega
      rw [List.tail_drop, show i - start + 1 = i + 1 - start by omega]
      simp [Pages.mask, show ¬ i < start by omega, List.headD_eq_head?_getD, List.head?_drop, h3]
    have hout : ¬ (start ≤ i ∧ i < start + data.length) →
        Pages.mask start data i = 0xff ∧ data.drop (i - start) = data.drop (i + 1 - start) := by
      intro h
      refine ⟨mask_outside (by omega), ?_⟩
      by_cases h1 : i < start
      · rw [show i - start = 0 by omega, show i + 1 - start = 0 by omega]
      · rw [List.drop_eq_nil_of_le (by omega), List.drop_eq_nil_of_le (by omega)]
    simp only [bufferBytes]
    split
    · next h =>
      obtain ⟨h1, h2⟩ := hin h.1 h.2
      rw [h1, h2]
      cases j with
      | zero => simp
      | succ j => simpa [Nat.add_assoc, Nat.add_comm 1] using ih (i + 1) j (by omega)
    · next h =>
      obtain ⟨h1, h2⟩ := hout h
      rw [h2]
      cases j with
      | zero => simp [h1]
      | succ j => simpa [Nat.add_assoc, Nat.add_comm 1] using ih (i + 1) j (by omega)

/-- The page that the device takes from the address sent for the start of a page. -/
def sentPage (page : ℕ) : ℕ :=
  match at45dTxAdr a page 0 with
  | [b2, b1, b0] => adrPage a (adrOf b2 b1 b0)
  | _ => 0

theorem at45dWrPageOffsetSpi_returns (s : At45d) (data : List UInt8) (page start : ℕ) :
    ∃ t, (at45dWrPageOffsetSpi a data page start).Returns s () t ∧
      ∀ q, ∀ i < a.pageSize, t.chip.pages q i =
        if q = sentPage a page then Pages.mask start data i else s.chip.pages q i := by
  obtain ⟨b, hb⟩ := waitReady_returns s
  let bytes := bufferBytes start data.length a.pageSize 0 data
  let s1 : At45d := ⟨true, { s.chip with busy := b }, s.times⟩
  let s2 : At45d := ⟨false, s1.chip.frame a (s.times 0) ([at45dCmdBuffer1Write, 0, 0, 0] ++ bytes),
    fun n => s.times (n + 1)⟩
  obtain ⟨b', hb'⟩ := waitReady_returns s2
  let s3 : At45d := ⟨true, { s2.chip with busy := b' }, s2.times⟩
  let s4 : At45d := ⟨false,
    s3.chip.frame a (s3.times 0) (at45dCmdBuf1ToMainPagePrgWErase :: at45dTxAdr a page 0),
    fun n => s3.times (n + 1)⟩
  refine ⟨s4, ?_, ?_⟩
  · refine hb.bind ?_
    simp only [spiFrame, Prog.modify_bind_returns]
    refine hb'.bind ?_
    simp only [Prog.modify_bind_returns, Prog.returns_modify]
    rfl
  · intro q i hi
    have hbuf : s3.chip.buffer1 i = Pages.mask start data i := by
      have h := getD_bufferBytes start a.pageSize 0 i data hi
      simp only [Nat.zero_sub, List.drop_zero, Nat.zero_add] at h
      simp [s3, s2, At45dChip.frame, adrOf, bytes, hi, ← h]
    obtain ⟨b2, b1, b0, hadr⟩ : ∃ b2 b1 b0, at45dTxAdr a page 0 = [b2, b1, b0] := by
      unfold at45dTxAdr
      split <;> exact ⟨_, _, _, rfl⟩
    have hpages : s3.chip.pages = s.chip.pages := by simp [s3, s2, s1, At45dChip.frame]
    simp only [s4, hadr, At45dChip.frame, At45dChip.store, sentPage, hpages]
    simp [at45dCmdBuf1ToMainPagePrgWErase, at45dCmdBuffer1Write, hbuf]

/-- The documented effect of a partial write: the data are ANDed into their place and every
other byte of the device is left alone. -/
def PartialWrite (old new : Pages) (page start : ℕ) (data : List UInt8) : Prop :=
  ∀ q < a.pages, ∀ i < a.pageSize, new q i =
    if q = page ∧ start ≤ i ∧ i < start + data.length then old q i &&& data.getD (i - start) 0
    else old q i

/-- The contents for which programming with erase does no more than clear bits. -/
def PartialWriteSafe (old : Pages) (page start : ℕ) (data : List UInt8) : Prop :=
  let sent := sentPage a page
  if sent = page then
    ∀ i < a.pageSize,
      if start ≤ i ∧ i < start + data.length then
        old page i &&& data.getD (i - start) 0 = data.getD (i - start) 0
      else old page i = 0xff
  else
    ∀ i < a.pageSize,
      if start ≤ i ∧ i < start + data.length then
        old page i &&& data.getD (i - start) 0 = old page i ∧ old sent i = data.getD (i - start) 0
      else old sent i = 0xff

theorem sentPage_lt (page : ℕ) : sentPage a page < a.pages := by
  have h : 0 < a.pages := by
    unfold At45dCfg.pages
    split <;> omega
  unfold sentPage
  split
  · exact Nat.mod_lt _ h
  · exact h

theorem mask_eq_ite (start i : ℕ) (data : List UInt8) : Pages.mask start data i =
    if start ≤ i ∧ i < start + data.length then data.getD (i - start) 0 else 0xff := by
  by_cases h : start ≤ i ∧ i < start + data.length
  · have h1 : i - start < data.length := by omega
    simp [Pages.mask, h, show ¬ i < start by omega, h1]
  · rw [if_neg h, mask_outside (by omega)]

/-- `at45d_wr_page_offset` has the documented effect just when the content allows it. -/
theorem at45dWrPageOffset_additive_iff (s : At45d) (data : List UInt8) (page start : ℕ)
    (hpage : page < a.pages) :
    ∃ t, (at45dWrPageOffsetSpi a data page start).Returns s () t ∧
      (PartialWrite a s.chip.pages t.chip.pages page start data ↔
        PartialWriteSafe a s.chip.pages page start data) := by
  obtain ⟨t, ht, hnew⟩ := at45dWrPageOffsetSpi_returns a s data page start
  refine ⟨t, ht, ?_⟩
  have hsent := sentPage_lt a page
  simp only [mask_eq_ite] at hnew
  unfold PartialWrite PartialWriteSafe
  by_cases heq : sentPage a page = page
  · simp only [heq, if_true] at hnew ⊢
    constructor
    · intro h i hi
      have hp := (hnew page i hi).symm.trans (h page hpage i hi)
      by_cases hr : start ≤ i ∧ i < start + data.length
      · simpa [hr] using hp.symm
      · simpa [hr] using hp.symm
    · intro h q _ i hi
      rw [hnew q i hi]
      have hi' := h i hi
      by_cases hq : q = page
      · subst hq
        by_cases hr : start ≤ i ∧ i < start + data.length
        · simp only [hr, and_self, if_true] at hi' ⊢
          exact hi'.symm
        · simp only [hr, and_false, if_true, if_false] at hi' ⊢
          exact hi'.symm
      · simp [hq]
  · simp only [heq, if_false]
    constructor
    · intro h i hi
      have hp := (hnew page i hi).symm.trans (h page hpage i hi)
      have hs := (hnew _ i hi).symm.trans (h (sentPage a page) hsent i hi)
      by_cases hr : start ≤ i ∧ i < start + data.length
      · simp only [hr, Ne.symm heq, heq, if_true, if_false, true_and, false_and] at hp hs ⊢
        exact ⟨hp.symm, hs.symm⟩
      · simp only [hr, heq, if_true, if_false, false_and] at hs ⊢
        exact hs.symm
    · intro h q _ i hi
      rw [hnew q i hi]
      have hi' := h i hi
      by_cases hq : q = sentPage a page
      · by_cases hr : start ≤ i ∧ i < start + data.length
        · simp only [hr, if_true, true_and, hq, heq] at hi' ⊢
          exact hi'.2.symm
        · simp only [hr, if_true, if_false, and_false, hq] at hi' ⊢
          exact hi'.symm
      · by_cases hr : q = page ∧ start ≤ i ∧ i < start + data.length
        · obtain ⟨rfl, hr⟩ := hr
          simp only [hr, if_true, true_and, hq, if_false] at hi' ⊢
          exact hi'.1.symm
        · simp only [hr, hq, if_false]

def at45db041 : At45dCfg := ⟨.at45db041, false⟩

/-- A device whose pages are erased except for a FILE marker at the start of page 0. -/
def markedChip : At45d := ⟨true, ⟨erased.program 0 0 [0x2f], fun _ => 0, 0⟩, fun _ => 3⟩

theorem at45dWrPageOffset_additive_iff_marked : ∃ t, (at45dWrPageOffsetSpi at45db041 [0x1f] 1 4).Returns markedChip () t ∧
    PartialWrite at45db041 markedChip.chip.pages t.chip.pages 1 4 [0x1f] := by
  obtain ⟨t, ht, hiff⟩ := at45dWrPageOffset_additive_iff at45db041 markedChip [0x1f] 1 4 (by decide)
  refine ⟨t, ht, hiff.mpr ?_⟩
  have hsent : sentPage at45db041 1 = 1 := by decide
  have herased : ∀ i, markedChip.chip.pages 1 i = 0xff := by
    intro i
    simp only [markedChip]
    exact program_other (by decide)
  simp only [PartialWriteSafe, hsent, if_true, herased]
  intro i _
  split
  · rw [UInt8.and_comm]
    exact UInt8.and_neg_one
  · trivial

/-- Writing one byte of a record behind a page marker erases the marker. -/
theorem at45dWrPageOffset_erases_marker : ¬ ∀ (s : At45d) (data : List UInt8) (page start : ℕ),
    page < at45db041.pages → start + data.length ≤ at45db041.pageSize →
    ∀ t, (at45dWrPageOffsetSpi at45db041 data page start).Returns s () t →
      PartialWrite at45db041 s.chip.pages t.chip.pages page start data := by
  intro h
  obtain ⟨t, ht, hnew⟩ := at45dWrPageOffsetSpi_returns at45db041 markedChip [0x1f] 0 4
  have h0 := h markedChip [0x1f] 0 4 (by decide) (by decide) t ht 0 (by decide) 0 (by decide)
  rw [hnew 0 0 (by decide)] at h0
  revert h0
  decide

end Lpc1788Libraries.DataManager

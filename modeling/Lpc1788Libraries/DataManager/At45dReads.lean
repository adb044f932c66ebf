import Lpc1788Libraries.DataManager.At45d
import Mathlib.Logic.Function.Iterate

namespace Lpc1788Libraries.DataManager

open Lpc1788Libraries.Support NorFlash BoundedProgram

def at45dCmdContinuousArrayRead : UInt8 := 0xe8
def at45dCmdMainMemoryPageRead : UInt8 := 0xd2

namespace At45dCfg

def flashSizeBytes (a : At45dCfg) : ℕ := a.pages * a.pageSize

def adrMax (a : At45dCfg) : ℕ := a.flashSizeBytes - 1

end At45dCfg

variable (a : At45dCfg)

/-- The byte behind byte `p.2` of page `p.1` for a read that runs on through the pages. -/
def nextPlace (p : ℕ × ℕ) : ℕ × ℕ :=
  if p.2 + 1 < a.pageSize then (p.1, p.2 + 1) else ((p.1 + 1) % a.pages, 0)

def continuousBytes (f : Pages) (p : ℕ × ℕ) (n : ℕ) : List UInt8 :=
  (List.range n).map fun k => f ((nextPlace a)^[k] p).1 ((nextPlace a)^[k] p).2

/-- A read that wraps to the start of its page. -/
def pageBytes (f : Pages) (page start n : ℕ) : List UInt8 :=
  (List.range n).map fun k => f page ((start + k) % a.pageSize)

/-- The `n` bytes with which the device answers behind the bytes of a frame. -/
def At45dChip.answer (d : At45dChip) (n : ℕ) : List UInt8 → List UInt8
  | cmd :: b2 :: b1 :: b0 :: _ =>
    let page := adrPage a (adrOf b2 b1 b0)
    let start := adrOf b2 b1 b0 % 2 ^ a.byteBits
    if cmd = at45dCmdContinuousArrayRead then
      continuousBytes a d.pages (page, start) n
    else if cmd = at45dCmdMainMemoryPageRead then
      pageBytes a d.pages page start n
    else List.replicate n 0xff
  | _ => List.replicate n 0xff

def spiReadFrame (bytes : List UInt8) (n : ℕ) : At45dM (List UInt8) := do
  return (← Prog.get).chip.answer a n bytes

/-- The bytes that `at45d_rd` stores in the buffer; it returns their number. -/
def at45dRd (address nrOfBytes : ℕ) : At45dM (List UInt8) :=
  if a.adrMax < address then
    return []
  else do
    let maxBytesToRead := a.adrMax - address + 1
    let nrOfBytes := if maxBytesToRead < nrOfBytes then maxBytesToRead else nrOfBytes
    waitReady
    let (page, startByteInPage) :=
      if a.pageSize &&& (a.pageSize - 1) = 0 then (address / 256 % 0x10000, address % 256)
      else (address / a.pageSize % 0x10000, address % a.pageSize)
    spiReadFrame a (at45dCmdContinuousArrayRead :: at45dTxAdr a page startByteInPage ++ [0, 0, 0, 0]) nrOfBytes

def at45dRdPage (page : ℕ) : At45dM (List UInt8) := do
  waitReady
  spiReadFrame a (at45dCmdMainMemoryPageRead :: at45dTxAdr a page 0 ++ [0, 0, 0, 0]) a.pageSize

def at45dRdPageOffsetSpi (page startByteInPage nrOfBytes : ℕ) : At45dM (List UInt8) := do
  waitReady
  spiReadFrame a (at45dCmdContinuousArrayRead :: at45dTxAdr a page startByteInPage ++ [0, 0, 0, 0]) nrOfBytes

def sentAdr (page startByteInPage : ℕ) : ℕ :=
  match at45dTxAdr a page startByteInPage with
  | [b2, b1, b0] => adrOf b2 b1 b0
  | _ => 0

variable {a} {s : At45d} {page start n address : ℕ}

theorem at45dTxAdr_bytes (a : At45dCfg) (page start : ℕ) : ∃ b2 b1 b0, at45dTxAdr a page start = [b2, b1, b0] := by
  unfold at45dTxAdr
  split
  · exact ⟨_, _, _, rfl⟩
  · exact ⟨_, _, _, rfl⟩

theorem answer_continuous (d : At45dChip) :
    d.answer a n (at45dCmdContinuousArrayRead :: at45dTxAdr a page start ++ [0, 0, 0, 0]) =
      continuousBytes a d.pages (adrPage a (sentAdr a page start), sentAdr a page start % 2 ^ a.byteBits) n := by
  obtain ⟨b2, b1, b0, h⟩ := at45dTxAdr_bytes a page start
  simp only [sentAdr, h, At45dChip.answer, List.cons_append, if_true]

theorem answer_page (d : At45dChip) :
    d.answer a n (at45dCmdMainMemoryPageRead :: at45dTxAdr a page start ++ [0, 0, 0, 0]) =
      pageBytes a d.pages (adrPage a (sentAdr a page start)) (sentAdr a page start % 2 ^ a.byteBits) n := by
  obtain ⟨b2, b1, b0, h⟩ := at45dTxAdr_bytes a page start
  have hne : at45dCmdMainMemoryPageRead ≠ at45dCmdContinuousArrayRead := by decide
  simp only [sentAdr, h, At45dChip.answer, List.cons_append, if_neg hne, if_true]

theorem answer_congr {d d' : At45dChip} (h : d.pages = d'.pages) (bytes : List UInt8) :
    d.answer a n bytes = d'.answer a n bytes := by
  unfold At45dChip.answer
  rw [h]

theorem read_returns (s : At45d) (bytes : List UInt8) (n : ℕ) :
    ∃ t, (do waitReady; spiReadFrame a bytes n : At45dM (List UInt8)).Returns s (s.chip.answer a n bytes) t ∧
      t.chip.pages = s.chip.pages ∧ t.chip.buffer1 = s.chip.buffer1 := by
  obtain ⟨b, hb⟩ := waitReady_returns s
  refine ⟨⟨true, { s.chip with busy := b }, s.times⟩, hb.bind ?_, rfl, rfl⟩
  simp only [spiReadFrame, Prog.get_bind_returns]
  exact Prog.returns_pure.mpr ⟨answer_congr rfl bytes, rfl⟩

/-- The page and the start in the page that `at45d_rd` sends for a linear address. -/
def rdPlace (a : At45dCfg) (address : ℕ) : ℕ × ℕ :=
  if a.pageSize &&& (a.pageSize - 1) = 0 then (address / 256 % 0x10000, address % 256)
  else (address / a.pageSize % 0x10000, address % a.pageSize)

theorem at45dRd_returns (s : At45d) (hin : address < a.flashSizeBytes) (h : address + n ≤ a.flashSizeBytes) :
    ∃ t, (at45dRd a address n).Returns s (continuousBytes a s.chip.pages
        (adrPage a (sentAdr a (rdPlace a address).1 (rdPlace a address).2),
          sentAdr a (rdPlace a address).1 (rdPlace a address).2 % 2 ^ a.byteBits) n) t ∧
      t.chip.pages = s.chip.pages := by
  have hmax : ¬ a.adrMax < address := by
    unfold At45dCfg.adrMax
    omega
  have hclip : ¬ a.adrMax - address + 1 < n := by
    unfold At45dCfg.adrMax
    omega
  obtain ⟨t, ht, hpages, -⟩ := read_returns (a := a) s
    (at45dCmdContinuousArrayRead :: at45dTxAdr a (rdPlace a address).1 (rdPlace a address).2 ++ [0, 0, 0, 0]) n
  refine ⟨t, ?_, hpages⟩
  rw [answer_continuous] at ht
  unfold at45dRd
  rw [if_neg hmax]
  simp only
  rw [if_neg hclip]
  exact ht

theorem at45dRdPageOffsetSpi_returns (s : At45d) (page start n : ℕ) :
    ∃ t, (at45dRdPageOffsetSpi a page start n).Returns s (continuousBytes a s.chip.pages
        (adrPage a (sentAdr a page start), sentAdr a page start % 2 ^ a.byteBits) n) t ∧
      t.chip.pages = s.chip.pages := by
  obtain ⟨t, ht, hpages, -⟩ := read_returns (a := a) s
    (at45dCmdContinuousArrayRead :: at45dTxAdr a page start ++ [0, 0, 0, 0]) n
  rw [answer_continuous] at ht
  exact ⟨t, ht, hpages⟩

theorem at45dRdPage_returns (s : At45d) (page : ℕ) :
    ∃ t, (at45dRdPage a page).Returns s (pageBytes a s.chip.pages
        (adrPage a (sentAdr a page 0)) (sentAdr a page 0 % 2 ^ a.byteBits) a.pageSize) t ∧
      t.chip.pages = s.chip.pages := by
  obtain ⟨t, ht, hpages, -⟩ := read_returns (a := a) s
    (at45dCmdMainMemoryPageRead :: at45dTxAdr a page 0 ++ [0, 0, 0, 0]) a.pageSize
  rw [answer_page] at ht
  exact ⟨t, ht, hpages⟩

/-- Reads of one byte each with `at45d_rd_page_offset`, from a linear address on. -/
def readByteByByte (a : At45dCfg) : ℕ → ℕ → At45dM (List UInt8)
  | _, 0 => return []
  | address, n + 1 => do
    let byte ← at45dRdPageOffsetSpi a (address / a.pageSize) (address % a.pageSize) 1
    let rest ← readByteByByte a (address + 1) n
    return byte ++ rest

/-- The bytes of the flash by linear address. -/
def linearByte (a : At45dCfg) (f : Pages) (address : ℕ) : UInt8 := f (address / a.pageSize) (address % a.pageSize)

def linearBytes (a : At45dCfg) (f : Pages) (address n : ℕ) : List UInt8 :=
  (List.range n).map fun k => linearByte a f (address + k)

theorem linearBytes_succ (f : Pages) :
    linearBytes a f address (n + 1) = linearByte a f address :: linearBytes a f (address + 1) n := by
  unfold linearBytes
  rw [List.range_succ_eq_map, List.map_cons, List.map_map]
  congr 1
  apply List.map_congr_left
  intro k _
  rw [Function.comp_apply, Nat.succ_eq_add_one, Nat.add_right_comm, Nat.add_assoc address]

/-- The address that the driver sends is the one the device expects. -/
def Addressed (a : At45dCfg) : Prop :=
  ∀ page < a.pages, ∀ start < a.pageSize, sentAdr a page start = page * 2 ^ a.byteBits + start

theorem pageSize_le (a : At45dCfg) : 0 < a.pageSize ∧ a.pageSize ≤ 2 ^ a.byteBits := by
  rcases a with ⟨_ | _ | _ | _ | _ | _ | _, _ | _⟩ <;> decide

theorem place_of_address (h : address < a.flashSizeBytes) :
    address / a.pageSize < a.pages ∧ address % a.pageSize < a.pageSize := by
  constructor
  · exact Nat.div_lt_of_lt_mul (by rw [Nat.mul_comm]; exact h)
  · exact Nat.mod_lt _ (pageSize_le a).1

theorem sentAdr_start (ha : Addressed a) (hp : page < a.pages) (hs : start < a.pageSize) :
    sentAdr a page start % 2 ^ a.byteBits = start := by
  have h := (pageSize_le a).2
  rw [ha page hp start hs, Nat.mul_comm, Nat.mul_add_mod, Nat.mod_eq_of_lt (by omega)]

theorem sentAdr_page (ha : Addressed a) (hp : page < a.pages) (hs : start < a.pageSize) :
    adrPage a (sentAdr a page start) = page := by
  have h := (pageSize_le a).2
  have hpos : 0 < 2 ^ a.byteBits := Nat.two_pow_pos _
  unfold adrPage
  rw [ha page hp start hs, Nat.mul_comm, Nat.mul_add_div hpos, Nat.div_eq_of_lt (by omega), Nat.add_zero,
    Nat.mod_eq_of_lt hp]

theorem sentAdr_injective (ha : Addressed a) {page' start' : ℕ} (hp : page < a.pages) (hs : start < a.pageSize)
    (hp' : page' < a.pages) (hs' : start' < a.pageSize) (h : sentAdr a page start = sentAdr a page' start') :
    page = page' ∧ start = start' := by
  constructor
  · rw [← sentAdr_page ha hp hs, ← sentAdr_page ha hp' hs', h]
  · rw [← sentAdr_start ha hp hs, ← sentAdr_start ha hp' hs', h]

theorem iterate_nextPlace {k : ℕ} (h : address + k < a.flashSizeBytes) :
    (nextPlace a)^[k] (address / a.pageSize, address % a.pageSize) =
      ((address + k) / a.pageSize, (address + k) % a.pageSize) := by
  have hpos := (pageSize_le a).1
  induction k with
  | zero => rfl
  | succ k ih =>
    rw [Function.iterate_succ_apply', ih (by omega)]
    have hplace : (address + k + 1) / a.pageSize < a.pages ∧ (address + k + 1) % a.pageSize < a.pageSize :=
      place_of_address h
    have hdiv := Nat.div_add_mod (address + k) a.pageSize
    unfold nextPlace
    simp only
    split
    · next hlt =>
      have hnext : address + (k + 1) =
          (address + k) % a.pageSize + 1 + a.pageSize * ((address + k) / a.pageSize) := by omega
      rw [hnext, Nat.add_mul_div_left _ _ hpos, Nat.add_mul_mod_self_left, Nat.div_eq_of_lt hlt,
        Nat.mod_eq_of_lt hlt, Nat.zero_add]
    · next hlt =>
      have hlast : (address + k) % a.pageSize + 1 = a.pageSize := by
        have := Nat.mod_lt (address + k) hpos
        omega
      have hnext : address + (k + 1) = a.pageSize * ((address + k) / a.pageSize + 1) := by
        rw [Nat.mul_add, Nat.mul_one]
        omega
      rw [← Nat.add_assoc] at hnext
      rw [hnext, Nat.mul_div_cancel_left _ hpos] at hplace
      rw [← Nat.add_assoc, hnext, Nat.mul_div_cancel_left _ hpos, Nat.mul_mod_right, Nat.mod_eq_of_lt hplace.1]

theorem continuousBytes_eq (f : Pages) (h : address + n ≤ a.flashSizeBytes) :
    continuousBytes a f (address / a.pageSize, address % a.pageSize) n = linearBytes a f address n := by
  apply List.map_congr_left
  intro k hk
  have hk := List.mem_range.mp hk
  rw [iterate_nextPlace (by omega)]
  rfl

theorem readByteByByte_returns (ha : Addressed a) (s : At45d) (h : address + n ≤ a.flashSizeBytes) :
    ∃ t, (readByteByByte a address n).Returns s (linearBytes a s.chip.pages address n) t ∧
      t.chip.pages = s.chip.pages := by
  induction n generalizing address s with
  | zero => exact ⟨s, Prog.returns_pure.mpr ⟨rfl, rfl⟩, rfl⟩
  | succ n ih =>
    have hplace : address / a.pageSize < a.pages ∧ address % a.pageSize < a.pageSize :=
      place_of_address (by omega)
    obtain ⟨t, ht, htp⟩ := at45dRdPageOffsetSpi_returns (a := a) s (address / a.pageSize) (address % a.pageSize) 1
    rw [sentAdr_page ha hplace.1 hplace.2, sentAdr_start ha hplace.1 hplace.2,
      continuousBytes_eq s.chip.pages (by omega)] at ht
    obtain ⟨u, hu, hup⟩ := @ih (address + 1) t (by omega)
    rw [htp] at hu
    refine ⟨u, ht.bind (hu.bind (Prog.returns_pure.mpr ⟨?_, rfl⟩)), hup.trans htp⟩
    rw [linearBytes_succ (n := n)]
    rfl

/-- The driver addresses the device right: distinct places get distinct addresses with the byte of the
page in the low bits, and the continuous read agrees with reads byte by byte. -/
structure AddressesRight (a : At45dCfg) : Prop where
  injective : ∀ page < a.pages, ∀ start < a.pageSize, ∀ page' < a.pages, ∀ start' < a.pageSize,
    sentAdr a page start = sentAdr a page' start' → page = page' ∧ start = start'
  offset_low : ∀ page < a.pages, ∀ start < a.pageSize, sentAdr a page start % 2 ^ a.byteBits = start
  reads : ∀ (s : At45d) (address n : ℕ), address < a.flashSizeBytes → n < 0x10000 →
    address + n ≤ a.flashSizeBytes → ∃ bytes t u, (at45dRd a address n).Returns s bytes t ∧ bytes.length = n ∧
      (readByteByByte a address n).Returns s bytes u

theorem sentAdr_eq : sentAdr a page start =
    if a.pageSize &&& (a.pageSize - 1) = 0 then page / 256 % 256 * 0x10000 + page % 256 * 0x100 + start % 256
    else page / 128 % 256 * 0x10000 + (page * 2 ||| start / 256) % 256 * 0x100 + start % 256 := by
  unfold sentAdr at45dTxAdr
  split_ifs
  · simp [adrOf]
  · simp [adrOf]

theorem addressed_of_small (h : a.pageSize = 256 ∨ a.pageSize = 264) : Addressed a := by
  intro page hp start hs
  have hpages : a.pages ≤ 8192 := by
    rcases a with ⟨_ | _ | _ | _ | _ | _ | _, _ | _⟩ <;> decide
  rw [sentAdr_eq]
  rcases h with h | h
  · have hbits : a.byteBits = 8 := by
      rcases a with ⟨_ | _ | _ | _ | _ | _ | _, _ | _⟩ <;> first | rfl | exact absurd h (by decide)
    rw [hbits, h, if_pos (by decide)]
    omega
  · have hbits : a.byteBits = 9 := by
      rcases a with ⟨_ | _ | _ | _ | _ | _ | _, _ | _⟩ <;> first | rfl | exact absurd h (by decide)
    have hor : page * 2 ||| start / 256 = page * 2 + start / 256 := by
      have hlt : start / 256 < 2 ^ 1 := by omega
      rw [Nat.mul_comm]
      exact (Nat.two_pow_add_eq_or_of_lt hlt page).symm
    rw [hbits, h, if_neg (by decide), hor]
    omega

theorem rdPlace_of_small (h : a.pageSize = 256 ∨ a.pageSize = 264) (hin : address < a.flashSizeBytes) :
    rdPlace a address = (address / a.pageSize, address % a.pageSize) := by
  have hpages : a.pages ≤ 8192 := by
    rcases a with ⟨_ | _ | _ | _ | _ | _ | _, _ | _⟩ <;> decide
  have hpage : address / a.pageSize % 0x10000 = address / a.pageSize :=
    Nat.mod_eq_of_lt (lt_of_lt_of_le (place_of_address hin).1 (by omega))
  unfold rdPlace
  split
  · next hpow =>
    rcases h with h | h
    · rw [h] at hpage ⊢
      rw [hpage]
    · rw [h] at hpow
      exact absurd hpow (by decide)
  · rw [hpage]

theorem addressesRight_iff : AddressesRight a ↔ a.pageSize = 256 ∨ a.pageSize = 264 := by
  constructor
  · intro h
    by_contra hsize
    have hcollide : (256 < a.pageSize ∧ sentAdr a 0 256 = sentAdr a 0 0) ∨
        (512 < a.pageSize ∧ sentAdr a 0 512 = sentAdr a 1 0) := by
      rcases a with ⟨_ | _ | _ | _ | _ | _ | _, _ | _⟩ <;>
        first | exact absurd (by decide) hsize | exact .inl (by decide) | exact .inr (by decide)
    have hpages : 1 < a.pages := by
      rcases a with ⟨_ | _ | _ | _ | _ | _ | _, _ | _⟩ <;> decide
    rcases hcollide with ⟨hlt, hc⟩ | ⟨hlt, hc⟩
    · exact absurd (h.injective 0 (by omega) 256 hlt 0 (by omega) 0 (by omega) hc).2 (by decide)
    · exact absurd (h.injective 0 (by omega) 512 hlt 1 hpages 0 (by omega) hc).1 (by decide)
  · intro h
    have ha := addressed_of_small h
    constructor
    · exact fun page hp start hs page' hp' start' hs' => sentAdr_injective ha hp hs hp' hs'
    · exact fun page hp start hs => sentAdr_start ha hp hs
    · intro s address n hin hn hend
      have hplace := place_of_address hin
      obtain ⟨t, ht, -⟩ := at45dRd_returns s hin hend
      obtain ⟨u, hu, -⟩ := readByteByByte_returns ha s hend
      rw [rdPlace_of_small h hin, sentAdr_page ha hplace.1 hplace.2, sentAdr_start ha hplace.1 hplace.2,
        continuousBytes_eq _ hend] at ht
      exact ⟨_, t, u, ht, by simp [linearBytes], hu⟩

/-- On a device with pages of 528 bytes, byte 512 of page 0 and byte 0 of page 1 have one address. -/
theorem addresses_collide : ¬ ∀ a : At45dCfg, AddressesRight a := by
  intro h
  have hc := (h ⟨.at45db161, false⟩).injective 0 (by decide) 512 (by decide) 1 (by decide) 0 (by decide)
    (by decide)
  exact absurd hc.1 (by decide)

end Lpc1788Libraries.DataManager

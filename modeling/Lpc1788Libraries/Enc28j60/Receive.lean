import Mathlib.Algebra.BigOperators.Group.List.Basic
import Lpc1788Libraries.Enc28j60.Registers

namespace Lpc1788Libraries.Enc28j60

open Lpc1788Libraries.Support

/-- A frame in the receive buffer: where it begins, the room the device has given it, its status
bytes and its data with the CRC. -/
structure StoredFrame where
  start : ℕ
  span : ℕ
  statusLow : UInt8
  statusHigh : UInt8
  data : List UInt8

namespace StoredFrame

def next (f : StoredFrame) : ℕ := rxRing.step f.start f.span

def bytes (f : StoredFrame) : List UInt8 :=
  [low f.next, high f.next, low f.data.length, high f.data.length, f.statusLow, f.statusHigh] ++ f.data

/-- The frame as the device stores it. -/
structure Held (f : StoredFrame) (mem : ℕ → UInt8) : Prop where
  even : f.next % 2 = 0
  crc : 4 ≤ f.data.length
  fits : f.bytes.length ≤ f.span
  span_lt : f.span < rxRing.size
  stored : ∀ i < f.bytes.length, f.bytes[i]? = some (mem (rxRing.step f.start i))

end StoredFrame

/-- The bytes from ERXRDPT up to the write pointer are kept. -/
def Keeps (x : Rx) (mem : ℕ → UInt8) : Prop :=
  ∀ i < rxRing.distance x.erxrdpt x.erxwrpt, mem (rxRing.step x.erxrdpt i) = x.mem (rxRing.step x.erxrdpt i)

/-- A frame arrives at the write pointer. -/
structure Arrives (x : Rx) (f : StoredFrame) (x' : Rx) : Prop where
  start : f.start = x.erxwrpt
  room : rxRing.distance x.erxrdpt x.erxwrpt + f.span < rxRing.size
  held : f.Held x'.mem
  kept : Keeps x x'.mem
  wrpt : x'.erxwrpt = f.next
  count : x'.epktcnt = x.epktcnt + 1
  count_le : x'.epktcnt ≤ 0xff
  erdpt : x'.erdpt = x.erdpt
  erxst : x'.erxst = x.erxst
  erxnd : x'.erxnd = x.erxnd
  erxrdpt : x'.erxrdpt = x.erxrdpt

inductive Event where
  | arrived (f : StoredFrame)
  | received (before : Rx) (maxlen : ℕ) (ret : ℕ × List UInt8) (after : Rx)

inductive Run : Enc → List Event → Prop
  | done (s : Enc) : Run s []
  | arrival {s : Enc} {f : StoredFrame} {x : Rx} {es : List Event} :
    Arrives s.chip.rx f x → Run { s with chip := { s.chip with rx := x } } es → Run s (.arrived f :: es)
  | receive {s : Enc} {maxlen : ℕ} {es : List Event} :
    1 ≤ maxlen → maxlen < 0x10000 → Run (enc28j60PacketReceive s maxlen).1 es →
      Run s (.received s.chip.rx maxlen (enc28j60PacketReceive s maxlen).2
        (enc28j60PacketReceive s maxlen).1.chip.rx :: es)

def nextUnread : List StoredFrame → ℕ → ℕ
  | [], erxwrpt => erxwrpt
  | f :: _, _ => f.start

/-- What a call must do that takes the frame `f`, with `rest` unread behind it. -/
structure TakesFrame (f : StoredFrame) (rest : List StoredFrame) (before : Rx) (maxlen : ℕ)
    (ret : ℕ × List UInt8) (after : Rx) : Prop where
  count : ret.1 = if f.statusLow &&& 0x80 = 0 then 0 else min (f.data.length - 4) (maxlen - 1)
  bytes : ret.2.take ret.1 = f.data.take ret.1
  inside : ret.2.length ≤ maxlen
  counter : after.epktcnt + 1 = before.epktcnt
  odd : after.erxrdpt % 2 = 1
  in_ring : rxRing.Mem after.erxrdpt
  before_next : rxRing.next after.erxrdpt = nextUnread rest after.erxwrpt

def CallHolds (before : Rx) (maxlen : ℕ) (ret : ℕ × List UInt8) (after : Rx) : List StoredFrame → Prop
  | [] => ret = (0, [])
  | f :: rest => TakesFrame f rest before maxlen ret after

/-- Every call takes the oldest of the unread frames. -/
def AllCallsHold : List StoredFrame → List Event → Prop
  | _, [] => True
  | q, .arrived f :: es => AllCallsHold (q ++ [f]) es
  | q, .received before maxlen ret after :: es =>
    CallHolds before maxlen ret after q ∧ AllCallsHold q.tail es

/-- The frames that the calls take. -/
def taken : List StoredFrame → List Event → List StoredFrame
  | _, [] => []
  | q, .arrived f :: es => taken (q ++ [f]) es
  | q, .received _ _ _ _ :: es => q.take 1 ++ taken q.tail es

/-- The frames lie one behind the other from `a` to `b`. -/
def Chain (mem : ℕ → UInt8) : ℕ → List StoredFrame → ℕ → Prop
  | a, [], b => a = b
  | a, f :: q, b => f.start = a ∧ f.Held mem ∧ Chain mem f.next q b

def total (q : List StoredFrame) : ℕ := (q.map StoredFrame.span).sum

/-- The driver, the device and the unread frames `q` are in step. -/
structure RingHolds (s : Enc) (q : List StoredFrame) : Prop where
  bank : bankOf s.chip.econ1 = s.enc28j60Bank
  erxst : s.chip.rx.erxst = rxRing.lo
  erxnd : s.chip.rx.erxnd = rxRing.hi
  rdpt_mem : rxRing.Mem s.chip.rx.erxrdpt
  next_eq : ∃ gap ≤ 1, s.nextPacketPtr = rxRing.step s.chip.rx.erxrdpt gap ∧ gap + total q < rxRing.size
  chain : Chain s.chip.rx.mem s.nextPacketPtr q s.chip.rx.erxwrpt
  count : s.chip.rx.epktcnt = q.length
  count_le : q.length ≤ 0xff

variable {s : Enc} {x x' : Rx} {n a b i len maxlen : ℕ} {f : StoredFrame} {q rest : List StoredFrame}
variable {mem mem' : ℕ → UInt8}

section chain

theorem StoredFrame.length_bytes : f.bytes.length = f.data.length + 6 := by
  simp [StoredFrame.bytes]

theorem chain_end (ha : rxRing.Mem a) (h : Chain mem a q b) : b = rxRing.step a (total q) := by
  induction q generalizing a with
  | nil =>
    rw [show total [] = 0 from rfl, PageRing.step_zero ha]
    exact h.symm
  | cons f q ih =>
    obtain ⟨rfl, -, hrest⟩ := h
    rw [ih PageRing.step_mem hrest, PageRing.step_step]
    rfl

theorem chain_concat (h : Chain mem a q b) (hstart : f.start = b) (hheld : f.Held mem) :
    Chain mem a (q ++ [f]) f.next := by
  induction q generalizing a with
  | nil =>
    obtain rfl : a = b := h
    exact ⟨hstart, hheld, rfl⟩
  | cons g q ih => exact ⟨h.1, h.2.1, ih h.2.2⟩

theorem StoredFrame.Held.keep (h : f.Held mem)
    (hmem : ∀ i < f.span, mem' (rxRing.step f.start i) = mem (rxRing.step f.start i)) : f.Held mem' := by
  refine ⟨h.even, h.crc, h.fits, h.span_lt, ?_⟩
  intro i hi
  rw [hmem i (Nat.lt_of_lt_of_le hi h.fits)]
  exact h.stored i hi

theorem Chain.keep (h : Chain mem a q b)
    (hmem : ∀ i < total q, mem' (rxRing.step a i) = mem (rxRing.step a i)) : Chain mem' a q b := by
  induction q generalizing a with
  | nil => exact h
  | cons f q ih =>
    obtain ⟨rfl, hheld, hrest⟩ := h
    have htotal : total (f :: q) = f.span + total q := rfl
    refine ⟨rfl, ?_, ?_⟩
    · apply hheld.keep
      intro i hi
      apply hmem
      omega
    · apply ih hrest
      intro i hi
      simp only [StoredFrame.next, PageRing.step_step]
      apply hmem
      omega

theorem total_concat : total (q ++ [f]) = total q + f.span := by
  simp [total]

end chain

section arrival

theorem RingHolds.distance (h : RingHolds s q) :
    ∃ gap ≤ 1, s.nextPacketPtr = rxRing.step s.chip.rx.erxrdpt gap ∧
      rxRing.distance s.chip.rx.erxrdpt s.chip.rx.erxwrpt = gap + total q := by
  obtain ⟨gap, hgap, hnext, hroom⟩ := h.next_eq
  refine ⟨gap, hgap, hnext, ?_⟩
  have hend := chain_end (by rw [hnext]; exact PageRing.step_mem) h.chain
  rw [hend, hnext, PageRing.step_step]
  exact PageRing.distance_step h.rdpt_mem hroom

theorem RingHolds.arrive (h : RingHolds s q) (ha : Arrives s.chip.rx f x) :
    RingHolds { s with chip := { s.chip with rx := x } } (q ++ [f]) := by
  obtain ⟨gap, hgap, hnext, hdist⟩ := h.distance
  have hroom := ha.room
  rw [hdist] at hroom
  constructor
  · exact h.bank
  · exact ha.erxst.trans h.erxst
  · exact ha.erxnd.trans h.erxnd
  · change rxRing.Mem x.erxrdpt
    rw [ha.erxrdpt]
    exact h.rdpt_mem
  · refine ⟨gap, hgap, ?_, ?_⟩
    · change s.nextPacketPtr = rxRing.step x.erxrdpt gap
      rw [ha.erxrdpt]
      exact hnext
    · rw [total_concat]
      omega
  · change Chain x.mem s.nextPacketPtr (q ++ [f]) x.erxwrpt
    rw [ha.wrpt]
    refine chain_concat ?_ ha.start ha.held
    apply h.chain.keep
    intro i hi
    rw [hnext, PageRing.step_step]
    apply ha.kept
    omega
  · change x.epktcnt = (q ++ [f]).length
    rw [ha.count, h.count, List.length_append]
    rfl
  · rw [List.length_append, ← h.count]
    exact ha.count ▸ ha.count_le

end arrival

section reading

/-- The hardware with ERDPT `i` bytes behind `a`. -/
def Rx.at (x : Rx) (a i : ℕ) : Rx := { x with erdpt := rxRing.step a i }

theorem readByte_at (hst : x.erxst = rxRing.lo) (hnd : x.erxnd = rxRing.hi) :
    (x.at a i).readByte = (x.at a (i + 1), x.mem (rxRing.step a i)) := by
  have hstep : (if rxRing.step a i = x.erxnd then x.erxst else (rxRing.step a i + 1) % 0x2000) =
      rxRing.step a (i + 1) := by
    rw [← PageRing.next_step, hst, hnd, PageRing.next]
    have hmem : rxRing.Mem (rxRing.step a i) := PageRing.step_mem
    have hle : rxRing.step a i ≤ 0x19fe := hmem.2
    rw [Nat.mod_eq_of_lt (by omega)]
  exact congrArg (fun e => ({ x with erdpt := e }, x.mem (rxRing.step a i))) hstep

theorem readWord_at (h : s.Shows (x.at a i) n) (hst : x.erxst = rxRing.lo) (hnd : x.erxnd = rxRing.hi) :
    (readWord s).1.Shows (x.at a (i + 2)) n ∧
      (readWord s).2 = (x.mem (rxRing.step a i)).toNat ||| (x.mem (rxRing.step a (i + 1))).toNat <<< 8 := by
  obtain ⟨h1, d1⟩ := readOp_shows h
  rw [readByte_at hst hnd] at h1 d1
  obtain ⟨h2, d2⟩ := readOp_shows h1
  rw [readByte_at hst hnd] at h2 d2
  refine ⟨h2, ?_⟩
  simp only [readWord, d1, d2]

theorem readBufferLoop_at (len : ℕ) (h : s.Shows (x.at a i) n) (hst : x.erxst = rxRing.lo)
    (hnd : x.erxnd = rxRing.hi) :
    (readBufferLoop len s).1.Shows (x.at a (i + len)) n ∧
      (readBufferLoop len s).2 = (List.range len).map fun j => x.mem (rxRing.step a (i + j)) := by
  induction len generalizing s i with
  | zero => exact ⟨h, rfl⟩
  | succ len ih =>
    have h1 : Enc.Shows { s with chip := (s.chip.read .readBufMem 0).1 } (x.at a (i + 1)) n := by
      have hread := (readOp_shows h).1
      rwa [readByte_at hst hnd] at hread
    have d1 : (s.chip.read .readBufMem 0).2 = x.mem (rxRing.step a i) := by
      have hread := (readOp_shows h).2
      rwa [readByte_at hst hnd] at hread
    obtain ⟨h2, d2⟩ := ih h1
    refine ⟨?_, ?_⟩
    · rwa [Nat.add_assoc, Nat.add_comm 1] at h2
    · simp only [readBufferLoop, d1, d2, List.range_succ_eq_map, List.map_cons, List.map_map,
        Function.comp_def, Nat.add_zero, Nat.add_assoc, Nat.add_comm 1]

end reading

section frame

theorem StoredFrame.Held.byte (h : f.Held mem) {d : UInt8} (hd : f.bytes[i]? = some d) :
    mem (rxRing.step f.start i) = d := by
  have hi : i < f.bytes.length := (List.getElem?_eq_some_iff.mp hd).1
  have := h.stored i hi
  rw [hd] at this
  exact (Option.some.inj this).symm

theorem StoredFrame.next_lt : f.next < 0x10000 := by
  have hmem : rxRing.Mem f.next := PageRing.step_mem
  have hle : f.next ≤ 0x19fe := hmem.2
  omega

theorem StoredFrame.Held.length_lt (h : f.Held mem) : f.data.length < 0x10000 := by
  have hfits := h.fits
  have hspan := h.span_lt
  have hsize : rxRing.size = 0x19ff := rfl
  rw [StoredFrame.length_bytes] at hfits
  omega

theorem StoredFrame.Held.data_eq (h : f.Held mem) (hlen : len ≤ f.data.length) :
    ((List.range len).map fun j => mem (rxRing.step f.start (6 + j))) = f.data.take len := by
  apply List.ext_getElem?
  intro j
  by_cases hj : j < len
  · have hstored := h.stored (6 + j) (by rw [StoredFrame.length_bytes]; omega)
    have hdata : f.bytes[6 + j]? = f.data[j]? := by
      rw [StoredFrame.bytes, List.getElem?_append_right (by simp)]
      simp
    rw [List.getElem?_take_of_lt hj, ← hdata, hstored, List.getElem?_map, List.getElem?_range hj]
    rfl
  · rw [List.getElem?_eq_none (by simp; omega), List.getElem?_eq_none (by simp; omega)]

theorem status_bit (l h : UInt8) : (l.toNat ||| h.toNat <<< 8) &&& 0x80 = 0 ↔ l &&& 0x80 = 0 := by
  have hhigh : h.toNat <<< 8 &&& 0x80 = 0 := by
    apply Nat.eq_of_testBit_eq
    intro i
    rw [Nat.testBit_and, Nat.testBit_shiftLeft, show 0x80 = 2 ^ 7 from rfl, Nat.testBit_two_pow]
    by_cases hi : 7 = i
    · subst hi
      simp
    · simp [hi]
  rw [Nat.and_or_distrib_right, hhigh, Nat.or_zero, ← UInt8.toNat_inj, UInt8.toNat_and]
  rfl

theorem releaseFrame_shows (h : s.Shows x n) (hn : rxRing.Mem n) :
    (releaseFrame s).Shows { x with erxrdpt := rxRing.prev n, epktcnt := x.epktcnt - 1 } n := by
  have hle : n ≤ 0x19fe := hn.2
  have h1 := writeWord_erxrdpt h (v := s.nextPacketPtr) (by rw [h.next]; omega)
  unfold releaseFrame
  simp only [h1.next]
  have hlo : rxRing.lo = 0 := rfl
  have hhi : rxRing.hi = 0x19fe := rfl
  by_cases hstart : n = 0
  · have hcond : (n : ℤ) - 1 < rxstartInit ∨ rxstopInit < (n : ℤ) - 1 := by
      left
      subst hstart
      decide
    rw [if_pos hcond]
    have h2 := pktdec_shows (writeWord_erxrdpt h1 (v := rxstopInit) (by decide))
    have hprev : rxRing.prev n = rxstopInit := by
      rw [PageRing.prev, hlo, if_pos hstart]
      rfl
    rw [hprev]
    exact h2
  · have hcond : ¬ ((n : ℤ) - 1 < rxstartInit ∨ rxstopInit < (n : ℤ) - 1) := by
      have h0 : rxstartInit = 0 := rfl
      have h1 : rxstopInit = 0x19fe := rfl
      omega
    rw [if_neg hcond]
    have h2 := pktdec_shows (writeWord_erxrdpt h1 (v := n - 1) (by omega))
    have hprev : rxRing.prev n = n - 1 := by
      rw [PageRing.prev, hlo, if_neg hstart]
    rw [hprev]
    exact h2

/-- How many bytes of a frame a call with room for `maxlen` hands over. -/
def StoredFrame.count (f : StoredFrame) (maxlen : ℕ) : ℕ :=
  if f.statusLow &&& 0x80 = 0 then 0 else min (f.data.length - 4) (maxlen - 1)

theorem packetReceive_frame (h : RingHolds s (f :: rest)) (hmax : 1 ≤ maxlen) (hmax' : maxlen < 0x10000) :
    (∃ e, (enc28j60PacketReceive s maxlen).1.Shows { s.chip.rx with
      erdpt := e, erxrdpt := rxRing.prev f.next, epktcnt := s.chip.rx.epktcnt - 1 } f.next) ∧
    (enc28j60PacketReceive s maxlen).2 = (f.count maxlen,
      if f.statusLow &&& 0x80 = 0 then [] else f.data.take (f.count maxlen) ++ [0]) := by
  obtain ⟨hstart, hheld, -⟩ := h.chain
  have hcrc := hheld.crc
  have hlt := hheld.length_lt
  have hshows : s.Shows s.chip.rx s.nextPacketPtr := ⟨h.bank, rfl, rfl⟩
  obtain ⟨hcount, dcount⟩ := read_epktcnt hshows
  have hne : ¬ (enc28j60Read s epktcnt).2 = 0 := by
    have hcnt := h.count
    have hle := h.count_le
    rw [List.length_cons] at hcnt hle
    rw [dcount, hcnt, ← UInt8.toNat_inj, UInt8.toNat_ofNat', UInt8.toNat_zero, Nat.mod_eq_of_lt (by omega)]
    omega
  have hmem : rxRing.Mem f.start := by
    obtain ⟨gap, -, hnext, -⟩ := h.next_eq
    rw [hstart, hnext]
    exact PageRing.step_mem
  have hle : f.start ≤ 0x19fe := hmem.2
  -- ERDPT stands at the start of the frame, and the three words follow
  have h0 := writeWord_erdpt hcount (v := (enc28j60Read s epktcnt).1.nextPacketPtr)
    (by rw [hcount.next, ← hstart]; omega)
  rw [hcount.next, ← hstart] at h0
  have hat : ({ s.chip.rx with erdpt := f.start } : Rx) = s.chip.rx.at f.start 0 := by
    rw [Rx.at, PageRing.step_zero hmem]
  rw [hat] at h0
  obtain ⟨h1, d1⟩ := readWord_at h0 h.erxst h.erxnd
  rw [hheld.byte (i := 0) rfl, hheld.byte (i := 0 + 1) rfl, word_of_bytes StoredFrame.next_lt] at d1
  have h2 : Enc.Shows { (readWord (writeWord (enc28j60Read s epktcnt).1 erdptl erdpth f.start)).1 with
      nextPacketPtr := f.next } (s.chip.rx.at f.start (0 + 2)) f.next := ⟨h1.bank, h1.rx, rfl⟩
  obtain ⟨h3, d3⟩ := readWord_at h2 h.erxst h.erxnd
  rw [hheld.byte (i := 0 + 2) rfl, hheld.byte (i := 0 + 2 + 1) rfl, word_of_bytes hlt] at d3
  obtain ⟨h4, d4⟩ := readWord_at h3 h.erxst h.erxnd
  rw [hheld.byte (i := 0 + 2 + 2) rfl, hheld.byte (i := 0 + 2 + 2 + 1) rfl] at d4
  have hlen : (f.data.length + 0x10000 - 4) % 0x10000 = f.data.length - 4 := by omega
  have hcut : (if (maxlen : ℤ) - 1 < (f.data.length - 4 : ℕ) then (maxlen + 0xffff) % 0x10000
      else f.data.length - 4) = min (f.data.length - 4) (maxlen - 1) := by
    split <;> omega
  unfold enc28j60PacketReceive
  simp only [if_neg hne, hcount.next, ← hstart, d1, d3, d4, hlen, hcut, status_bit]
  unfold StoredFrame.count
  by_cases hbad : f.statusLow &&& 0x80 = 0
  · simp only [if_pos hbad]
    refine ⟨⟨rxRing.step f.start (0 + 2 + 2 + 2), ?_⟩, trivial⟩
    exact releaseFrame_shows h4 PageRing.step_mem
  · simp only [if_neg hbad]
    obtain ⟨h5, d5⟩ := readBufferLoop_at (min (f.data.length - 4) (maxlen - 1)) h4 h.erxst h.erxnd
    refine ⟨⟨rxRing.step f.start (0 + 2 + 2 + 2 + min (f.data.length - 4) (maxlen - 1)), ?_⟩, ?_⟩
    · exact releaseFrame_shows h5 PageRing.step_mem
    simp only [enc28j60ReadBuffer, d5]
    rw [← hheld.data_eq (by omega)]

end frame

end Lpc1788Libraries.Enc28j60

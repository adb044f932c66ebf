import Lpc1788Libraries.Enc28j60.Receive

namespace Lpc1788Libraries.Enc28j60

open Lpc1788Libraries.Support

variable {s t : Enc} {x : Rx} {n maxlen : ℕ} {f : StoredFrame} {q rest : List StoredFrame} {es : List Event}

section calls

theorem RingHolds.of_shows (h : RingHolds s q) (ht : t.Shows s.chip.rx s.nextPacketPtr) : RingHolds t q := by
  obtain ⟨hbank, hrx, hnext⟩ := ht
  refine ⟨hbank, ?_, ?_, ?_, ?_, ?_, ?_, h.count_le⟩
  · rw [hrx]
    exact h.erxst
  · rw [hrx]
    exact h.erxnd
  · rw [hrx]
    exact h.rdpt_mem
  · rw [hrx, hnext]
    exact h.next_eq
  · rw [hrx, hnext]
    exact h.chain
  · rw [hrx]
    exact h.count

theorem RingHolds.receive_empty (h : RingHolds s []) :
    (enc28j60PacketReceive s maxlen).2 = (0, []) ∧ RingHolds (enc28j60PacketReceive s maxlen).1 [] := by
  obtain ⟨hcount, dcount⟩ := read_epktcnt (s := s) ⟨h.bank, rfl, rfl⟩
  have hzero : (enc28j60Read s epktcnt).2 = 0 := by
    rw [dcount, h.count]
    rfl
  have heq : enc28j60PacketReceive s maxlen = ((enc28j60Read s epktcnt).1, 0, []) := if_pos hzero
  rw [heq]
  exact ⟨rfl, h.of_shows hcount⟩

theorem RingHolds.receive_frame (h : RingHolds s (f :: rest)) (hmax : 1 ≤ maxlen) (hmax' : maxlen < 0x10000) :
    RingHolds (enc28j60PacketReceive s maxlen).1 rest := by
  obtain ⟨⟨e, hbank, hrx, hnext⟩, -⟩ := packetReceive_frame h hmax hmax'
  obtain ⟨-, hheld, hrest⟩ := h.chain
  have hmem : rxRing.Mem f.next := PageRing.step_mem
  have hcount := h.count
  have hle := h.count_le
  rw [List.length_cons] at hcount hle
  refine ⟨hbank, ?_, ?_, ?_, ⟨1, Nat.le_refl 1, ?_, ?_⟩, ?_, ?_, by omega⟩
  · rw [hrx]
    exact h.erxst
  · rw [hrx]
    exact h.erxnd
  · rw [hrx]
    exact PageRing.prev_mem hmem
  · rw [hrx, hnext, PageRing.step_one (PageRing.prev_mem hmem), PageRing.next_prev hmem]
  · obtain ⟨gap, -, -, hroom⟩ := h.next_eq
    have htotal : total (f :: rest) = f.span + total rest := rfl
    have hfits := hheld.fits
    rw [StoredFrame.length_bytes] at hfits
    omega
  · rw [hrx, hnext]
    exact hrest
  · rw [hrx]
    change s.chip.rx.epktcnt - 1 = rest.length
    omega

/-- The frame in front is taken as it should be, unless the next one begins at the start of the
buffer. -/
theorem takesFrame_iff (h : RingHolds s (f :: rest)) (hmax : 1 ≤ maxlen) (hmax' : maxlen < 0x10000) :
    TakesFrame f rest s.chip.rx maxlen (enc28j60PacketReceive s maxlen).2
      (enc28j60PacketReceive s maxlen).1.chip.rx ↔ f.next ≠ rxstartInit := by
  obtain ⟨⟨e, -, hrx, hnext⟩, hret⟩ := packetReceive_frame h hmax hmax'
  obtain ⟨-, hheld, hrest⟩ := h.chain
  have hmem : rxRing.Mem f.next := PageRing.step_mem
  have heven := hheld.even
  constructor
  · intro htakes hstart
    have hodd := htakes.odd
    rw [hrx] at hodd
    have hprev : rxRing.prev f.next = rxstopInit := if_pos hstart
    change rxRing.prev f.next % 2 = 1 at hodd
    rw [hprev] at hodd
    exact absurd hodd (by decide)
  · intro hstart
    rw [hret, hrx]
    have hcountle : f.count maxlen ≤ maxlen - 1 := by
      unfold StoredFrame.count
      split
      · exact Nat.zero_le _
      · exact Nat.min_le_right _ _
    constructor
    · rfl
    · by_cases hbad : f.statusLow &&& 0x80 = 0
      · simp [StoredFrame.count, hbad]
      · have hlen : f.count maxlen ≤ f.data.length := by
          rw [StoredFrame.count, if_neg hbad]
          omega
        rw [if_neg hbad, List.take_append_of_le_length (by rw [List.length_take]; omega), List.take_take,
          Nat.min_self]
    · split
      · exact Nat.zero_le _
      · rw [List.length_append, List.length_take, List.length_singleton]
        omega
    · have hcount := h.count
      rw [List.length_cons] at hcount
      change s.chip.rx.epktcnt - 1 + 1 = s.chip.rx.epktcnt
      omega
    · have hprev : rxRing.prev f.next = f.next - 1 := if_neg hstart
      have hpos : f.next ≠ 0 := hstart
      change rxRing.prev f.next % 2 = 1
      rw [hprev]
      omega
    · exact PageRing.prev_mem hmem
    · change rxRing.next (rxRing.prev f.next) = nextUnread rest s.chip.rx.erxwrpt
      rw [PageRing.next_prev hmem]
      cases rest with
      | nil => exact hrest
      | cons g rest => exact hrest.1.symm

end calls

section runs

theorem allCallsHold_iff (h : RingHolds s q) (hrun : Run s es) :
    AllCallsHold q es ↔ ∀ f ∈ taken q es, f.next ≠ rxstartInit := by
  induction hrun generalizing q with
  | done s => simp [AllCallsHold, taken]
  | arrival ha _ ih => exact ih (h.arrive ha)
  | receive hmax hmax' _ ih =>
    cases q with
    | nil =>
      obtain ⟨hret, hholds⟩ := h.receive_empty
      have := ih hholds
      simp only [AllCallsHold, CallHolds, taken, List.tail_nil, List.take_nil, List.nil_append]
      rw [this]
      exact and_iff_right hret
    | cons f rest =>
      have hrest := ih (h.receive_frame hmax hmax')
      simp only [AllCallsHold, CallHolds, taken, List.tail_cons, List.take_succ_cons, List.take_zero,
        List.singleton_append, List.forall_mem_cons]
      exact and_congr (takesFrame_iff h hmax hmax') hrest

/-- The device after its reset, with the receive logic at the start of the buffer. -/
structure AfterReset (s : Enc) : Prop where
  bank : bankOf s.chip.econ1 = 0
  count : s.chip.rx.epktcnt = 0
  wrpt : s.chip.rx.erxwrpt = rxstartInit

theorem initBuffers_shows (h : bankOf s.chip.econ1 = 0) :
    (initBuffers s).Shows
      { s.chip.rx with erxst := rxstartInit, erxrdpt := rxstartInit, erxnd := rxstopInit } rxstartInit := by
  have h1 := writeWord_erxst (s := { s with nextPacketPtr := rxstartInit }) (v := rxstartInit) h (by decide)
  have h2 := writeWord_erxrdpt h1 (v := rxstartInit) (by decide)
  have h3 := writeWord_erxnd h2 (v := rxstopInit) (by decide)
  have h4 := h3.writeWord (v := txstartInit) (l := etxstl) (r := etxsth) (by decide) (by decide)
  exact h4.writeWord (v := txstopInit) (l := etxndl) (r := etxndh) (by decide) (by decide)

theorem initBuffers_ringHolds (h : AfterReset s) : RingHolds (initBuffers s) [] := by
  obtain ⟨hbank, hrx, hnext⟩ := initBuffers_shows h.bank
  refine ⟨hbank, ?_, ?_, ?_, ⟨0, Nat.zero_le _, ?_, ?_⟩, ?_, ?_, Nat.zero_le _⟩
  · rw [hrx]
    rfl
  · rw [hrx]
    rfl
  · rw [hrx]
    exact PageRing.lo_mem
  · rw [hrx, hnext]
    rfl
  · decide
  · rw [hrx, hnext]
    exact h.wrpt.symm
  · rw [hrx]
    exact h.count

/-- What the device makes of its memory when a frame arrives. -/
def Rx.store (x : Rx) (f : StoredFrame) : Rx :=
  { x with
    erxwrpt := f.next
    epktcnt := x.epktcnt + 1
    mem := fun p => (f.bytes[rxRing.distance f.start p]?).getD (x.mem p) }

/-- The frames fit behind each other from `w` on, each with the buffer empty before it. -/
def Fits : ℕ → List StoredFrame → Prop
  | _, [] => True
  | w, f :: fs =>
    f.start = w ∧ f.next % 2 = 0 ∧ 4 ≤ f.data.length ∧ f.data.length + 6 ≤ f.span ∧
      f.span + 1 < rxRing.size ∧ Fits f.next fs

theorem store_arrives (h : RingHolds s []) (hstart : f.start = s.chip.rx.erxwrpt) (heven : f.next % 2 = 0)
    (hcrc : 4 ≤ f.data.length) (hfits : f.data.length + 6 ≤ f.span) (hspan : f.span + 1 < rxRing.size) :
    Arrives s.chip.rx f (s.chip.rx.store f) := by
  obtain ⟨gap, hgap, hnext, hdist⟩ := h.distance
  have hempty : total [] = 0 := rfl
  rw [hempty, Nat.add_zero] at hdist
  have hplace : f.start = rxRing.step s.chip.rx.erxrdpt gap := by
    rw [hstart, ← hnext]
    exact (show s.nextPacketPtr = s.chip.rx.erxwrpt from h.chain).symm
  have hmem : rxRing.Mem f.start := by
    rw [hplace]
    exact PageRing.step_mem
  have hcount : s.chip.rx.epktcnt = 0 := h.count
  constructor
  · exact hstart
  · omega
  · refine ⟨heven, hcrc, ?_, by omega, ?_⟩
    · rw [StoredFrame.length_bytes]
      exact hfits
    · intro i hi
      have hlt := hi
      rw [StoredFrame.length_bytes] at hlt
      simp only [Rx.store]
      rw [PageRing.distance_step hmem (by omega), List.getElem?_eq_getElem hi]
      rfl
  · intro i hi
    have hone : gap = 1 ∧ i = 0 := by omega
    obtain ⟨rfl, rfl⟩ := hone
    have hlast : rxRing.step s.chip.rx.erxrdpt 0 = rxRing.step f.start (rxRing.size - 1) := by
      have hsize := rxRing.size_pos
      rw [hplace, PageRing.step_step, Nat.add_sub_cancel' hsize, PageRing.step_size h.rdpt_mem,
        PageRing.step_zero h.rdpt_mem]
    simp only [Rx.store]
    rw [hlast, PageRing.distance_step hmem (by omega), List.getElem?_eq_none]
    · rfl
    · rw [StoredFrame.length_bytes]
      omega
  · rfl
  · rfl
  · change s.chip.rx.epktcnt + 1 ≤ 0xff
    omega
  · rfl
  · rfl
  · rfl
  · rfl

theorem exists_run {fs : List StoredFrame} (h : RingHolds s []) (hfits : Fits s.chip.rx.erxwrpt fs) :
    ∃ es, Run s es ∧ taken [] es = fs := by
  induction fs generalizing s with
  | nil => exact ⟨[], .done s, rfl⟩
  | cons f fs ih =>
    obtain ⟨hstart, heven, hcrc, hlen, hspan, hrest⟩ := hfits
    have harrives := store_arrives h hstart heven hcrc hlen hspan
    have hholds := h.arrive harrives
    obtain ⟨⟨e, -, hrx, -⟩, -⟩ := packetReceive_frame hholds (show 1 ≤ 0x600 by decide) (by decide)
    obtain ⟨es, hrun, htaken⟩ := ih (hholds.receive_frame (show 1 ≤ 0x600 by decide) (by decide))
      (by rw [hrx]; exact hrest)
    refine ⟨_, .arrival harrives (.receive (by decide) (by decide) hrun), ?_⟩
    simp only [taken, List.nil_append, List.take_succ_cons, List.take_zero, List.tail_cons, htaken,
      List.singleton_append]

theorem packetReceive_iff (h : AfterReset s) (hrun : Run (initBuffers s) es) :
    AllCallsHold [] es ↔ ∀ f ∈ taken [] es, f.next ≠ rxstartInit :=
  allCallsHold_iff (initBuffers_ringHolds h) hrun

def resetDevice : Enc := ⟨⟨0, ⟨0, 0, 0, 0, 0, 0, fun _ => 0⟩, fun _ => 0⟩, 0, 0⟩

theorem resetDevice_afterReset : AfterReset resetDevice := ⟨by decide, rfl, rfl⟩

theorem resetDevice_run (fs : List StoredFrame) (hfits : Fits 0 fs) :
    ∃ es, Run (initBuffers resetDevice) es ∧ taken [] es = fs := by
  have hwrpt : (initBuffers resetDevice).chip.rx.erxwrpt = 0 := by
    rw [(initBuffers_shows resetDevice_afterReset.bank).rx]
    rfl
  exact exists_run (initBuffers_ringHolds resetDevice_afterReset) (by rw [hwrpt]; exact hfits)

theorem packetReceive_iff_short :
    ∃ es, Run (initBuffers resetDevice) es ∧ taken [] es = [⟨0, 12, 0x80, 0, [1, 2, 3, 4, 5, 6]⟩] ∧
      (AllCallsHold [] es ↔ ∀ f ∈ taken [] es, f.next ≠ rxstartInit) := by
  obtain ⟨es, hrun, htaken⟩ := resetDevice_run [⟨0, 12, 0x80, 0, [1, 2, 3, 4, 5, 6]⟩]
    ⟨rfl, rfl, by decide, by decide, by decide, trivial⟩
  exact ⟨es, hrun, htaken, packetReceive_iff resetDevice_afterReset hrun⟩

def zeroFrame (start length : ℕ) : StoredFrame := ⟨start, length + 6, 0x80, 0, List.replicate length 0⟩

/-- Four frames of 1500 bytes and one of 625, which ends with the receive buffer. -/
def boundaryFrames : List StoredFrame :=
  [zeroFrame 0 1500, zeroFrame 1506 1500, zeroFrame 3012 1500, zeroFrame 4518 1500, zeroFrame 6024 625]

theorem erxrdpt_even_at_boundary :
    ∃ es, Run (initBuffers resetDevice) es ∧ taken [] es = boundaryFrames ∧ ¬ AllCallsHold [] es := by
  have hfits : Fits 0 boundaryFrames := by
    simp only [boundaryFrames, Fits, zeroFrame, List.length_replicate]
    decide
  obtain ⟨es, hrun, htaken⟩ := resetDevice_run boundaryFrames hfits
  refine ⟨es, hrun, htaken, ?_⟩
  rw [allCallsHold_iff (initBuffers_ringHolds resetDevice_afterReset) hrun, htaken]
  intro h
  have hlast : zeroFrame 6024 625 ∈ boundaryFrames := List.mem_of_getElem? (i := 4) rfl
  exact h (zeroFrame 6024 625) hlast rfl

end runs

end Lpc1788Libraries.Enc28j60

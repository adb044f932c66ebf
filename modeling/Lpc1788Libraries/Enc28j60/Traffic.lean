import Lpc1788Libraries.Enc28j60.ReceiveRun
import Lpc1788Libraries.Enc28j60.Transmit

namespace Lpc1788Libraries.Enc28j60

open Lpc1788Libraries.Support

def enc28j60hasRxPkt (s : Enc) : Enc × Bool :=
  let count := enc28j60Read s epktcnt
  (count.1, count.2 ≠ 0)

section traffic

/-- A transmission comes to its end, and the device writes its status behind the frame. -/
structure Finishes (c c' : Chip) : Prop where
  busy : c.Transmitting
  econ1 : c'.econ1 = c.econ1 &&& ~~~econ1Txrts
  regs : ∀ r < 0x1b, c'.regs r = c.regs r
  rx : ∃ mem, c'.rx = { c.rx with mem := mem } ∧ ∀ a, (∀ i < 7, a ≠ (c.txnd + 1 + i) % 0x2000) → mem a = c.rx.mem a

inductive Traffic where
  | arrived (f : StoredFrame)
  | finished (transmitted : List UInt8)
  | probed (ret : Bool)
  | received (maxlen : ℕ) (ret : ℕ × List UInt8)
  | sent (packet : List UInt8) (ret : Option Unit)

/-- The calls of the driver and what the device does between them. -/
inductive Flows : Enc → List Traffic → Prop
  | done (s : Enc) : Flows s []
  | arrival {s : Enc} {f : StoredFrame} {x : Rx} {es : List Traffic} (ha : Arrives s.chip.rx f x)
    (hout : ∀ a, ¬ rxRing.Mem a → x.mem a = s.chip.rx.mem a) (hrest : Flows { s with chip := { s.chip with rx := x } } es) :
    Flows s (.arrived f :: es)
  | finish {s : Enc} {c : Chip} {es : List Traffic} (hf : Finishes s.chip c) (hrest : Flows { s with chip := c } es) :
    Flows s (.finished s.chip.transmitted :: es)
  | probe {s : Enc} {es : List Traffic} (hrest : Flows (enc28j60hasRxPkt s).1 es) :
    Flows s (.probed (enc28j60hasRxPkt s).2 :: es)
  | receive {s : Enc} {maxlen : ℕ} {es : List Traffic} (hmax : 1 ≤ maxlen) (hmax' : maxlen < 0x10000)
    (hrest : Flows (enc28j60PacketReceive s maxlen).1 es) : Flows s (.received maxlen (enc28j60PacketReceive s maxlen).2 :: es)
  | send {s : Enc} {packet : List UInt8} {polls accesses commands} {es : List Traffic} (hlen : packet.length ≤ maxPacket)
    (hp : 2 ≤ polls) (hrest : Flows (Bus.enc28j60PacketSend quiet polls packet ⟨s, accesses, commands⟩).2.enc es) :
    Flows s (.sent packet (Bus.enc28j60PacketSend quiet polls packet ⟨s, accesses, commands⟩).1 :: es)

/-- What a call gives that takes the oldest of the unread frames. -/
def Handed (maxlen : ℕ) (ret : ℕ × List UInt8) : List StoredFrame → Prop
  | [] => ret = (0, [])
  | f :: _ => ret.1 = f.count maxlen ∧ ret.2.take ret.1 = f.data.take ret.1 ∧ ret.2.length ≤ maxlen

/-- Frames wait for the driver, and at most one packet, the last one that was sent, waits for its transmission. -/
def InOrder : List StoredFrame → Option (List UInt8) → List Traffic → Prop
  | _, _, [] => True
  | q, p, .arrived f :: es => InOrder (q ++ [f]) p es
  | q, p, .finished transmitted :: es => (∃ packet ∈ p, transmitted = 0x00 :: packet) ∧ InOrder q none es
  | q, p, .probed ret :: es => ret = !q.isEmpty ∧ InOrder q p es
  | q, p, .received maxlen ret :: es => Handed maxlen ret q ∧ InOrder q.tail p es
  | q, _, .sent packet ret :: es => ret = some () ∧ InOrder q (some packet) es

end traffic

variable {s t : Enc} {c : Chip} {x : Rx} {mem : ℕ → UInt8} {a n maxlen polls : ℕ} {f : StoredFrame} {q q' : List StoredFrame}
  {p : Option (List UInt8)} {packet : List UInt8} {es : List Traffic}

section ready

/-- The driver and the device are ready for the unread frames and the packet that is being transmitted. -/
structure Ready (s : Enc) (q : List StoredFrame) (p : Option (List UInt8)) : Prop where
  ring : RingHolds s q
  txrst : s.chip.econ1 &&& econ1Txrst = 0
  txst : s.chip.txst = txstartInit
  busy : s.chip.Transmitting ↔ p.isSome
  txnd : ∀ packet ∈ p, packet.length ≤ maxPacket ∧ s.chip.txnd = txstartInit + packet.length
  transmitted : ∀ packet ∈ p, s.chip.transmitted = 0x00 :: packet

theorem not_mem_rxRing (ha : txstartInit ≤ a) : ¬ rxRing.Mem a := by
  intro hmem
  have hle : a ≤ 0x19fe := hmem.2
  have hstart : txstartInit = 0x19ff := rfl
  omega

theorem RingHolds.outside (h : RingHolds s q) (hbank : bankOf t.chip.econ1 = t.enc28j60Bank)
    (hrx : t.chip.rx = { s.chip.rx with mem := mem }) (hnext : t.nextPacketPtr = s.nextPacketPtr)
    (hmem : ∀ a, rxRing.Mem a → mem a = s.chip.rx.mem a) : RingHolds t q := by
  constructor
  · exact hbank
  · rw [hrx]
    exact h.erxst
  · rw [hrx]
    exact h.erxnd
  · rw [hrx]
    exact h.rdpt_mem
  · rw [hrx, hnext]
    exact h.next_eq
  · rw [hrx, hnext]
    exact h.chain.keep fun i _ => hmem _ PageRing.step_mem
  · rw [hrx]
    exact h.count
  · exact h.count_le

theorem Ready.same (h : Ready s q p) (hring : RingHolds t q') (hsame : SameTx s.chip t.chip) : Ready t q' p := by
  constructor
  · exact hring
  · rw [hsame.txrst]
    exact h.txrst
  · rw [hsame.txst]
    exact h.txst
  · rw [hsame.transmitting]
    exact h.busy
  · rw [hsame.txnd]
    exact h.txnd
  · rw [hsame.transmitted]
    exact h.transmitted

theorem Ready.arrive (h : Ready s q p) (ha : Arrives s.chip.rx f x) (hout : ∀ a, ¬ rxRing.Mem a → x.mem a = s.chip.rx.mem a) :
    Ready { s with chip := { s.chip with rx := x } } (q ++ [f]) p := by
  refine ⟨h.ring.arrive ha, h.txrst, h.txst, h.busy, h.txnd, fun packet hp => ?_⟩
  rw [← h.transmitted packet hp]
  apply List.map_congr_left
  intro i _
  apply hout
  apply not_mem_rxRing
  rw [← h.txst]
  exact Nat.le_add_right _ i

theorem Ready.finish (h : Ready s q p) (hf : Finishes s.chip c) : Ready { s with chip := c } q none := by
  obtain ⟨mem, hrx, hmem⟩ := hf.rx
  obtain ⟨packet, hp⟩ := Option.isSome_iff_exists.mp (h.busy.mp hf.busy)
  obtain ⟨hlen, hnd⟩ := h.txnd packet hp
  have hbits := bits_cleared s.chip.econ1
  constructor
  · refine h.ring.outside ?_ hrx rfl fun a ha => hmem a fun i hi heq => ?_
    · change bankOf c.econ1 = s.enc28j60Bank
      rw [hf.econ1, hbits.2.2]
      exact h.ring.bank
    · have hstart : txstartInit = 0x19ff := rfl
      have hmax : maxPacket = 0x5f9 := rfl
      rw [hnd, Nat.mod_eq_of_lt (by omega)] at heq
      exact not_mem_rxRing (by omega) ha
  · change c.econ1 &&& _ = 0
    rw [hf.econ1]
    exact hbits.2.1 h.txrst
  · rw [← h.txst]
    change (c.regs _).toNat + (c.regs _).toNat * _ = _
    rw [hf.regs etxstl (by decide), hf.regs etxsth (by decide)]
    rfl
  · apply iff_of_false
    · change ¬ (c.econ1 &&& _ ≠ 0)
      rw [hf.econ1, not_not]
      exact hbits.1
    · simp
  · simp
  · simp

theorem Ready.probe (h : Ready s q p) : Ready (enc28j60hasRxPkt s).1 q p ∧ (enc28j60hasRxPkt s).2 = !q.isEmpty := by
  obtain ⟨hshows, hcount⟩ := read_epktcnt (s := s) ⟨h.ring.bank, rfl, rfl⟩
  refine ⟨h.same (h.ring.of_shows hshows) (read_keeps h.ring.bank).same, ?_⟩
  have hle := h.ring.count_le
  change decide ((enc28j60Read s epktcnt).2 ≠ 0) = _
  rw [hcount, h.ring.count]
  cases q with
  | nil => rfl
  | cons f rest =>
    have hne : UInt8.ofNat (f :: rest).length ≠ 0 := by
      rw [List.length_cons] at hle ⊢
      rw [Ne, ← UInt8.toNat_inj, UInt8.toNat_ofNat', UInt8.toNat_zero, Nat.mod_eq_of_lt (by omega)]
      omega
    rw [decide_eq_true hne]
    rfl

theorem handed_frame (hmax : 1 ≤ maxlen) : Handed maxlen
    (f.count maxlen, if f.statusLow &&& 0x80 = 0 then [] else f.data.take (f.count maxlen) ++ [0]) (f :: q) := by
  by_cases hbad : f.statusLow &&& 0x80 = 0
  · have hcount : f.count maxlen = 0 := if_pos hbad
    rw [if_pos hbad, hcount]
    exact ⟨hcount.symm, rfl, Nat.zero_le _⟩
  · have hcount : f.count maxlen = min (f.data.length - 4) (maxlen - 1) := if_neg hbad
    have hlen : (f.data.take (f.count maxlen)).length = f.count maxlen := by
      rw [List.length_take]
      omega
    rw [if_neg hbad]
    refine ⟨rfl, ?_, ?_⟩
    · change (f.data.take (f.count maxlen) ++ [0]).take (f.count maxlen) = _
      rw [List.take_append_of_le_length (Nat.le_of_eq hlen.symm), List.take_take, Nat.min_self]
    · change (f.data.take (f.count maxlen) ++ [0]).length ≤ maxlen
      rw [List.length_append, hlen, List.length_singleton]
      omega

theorem Ready.receive (h : Ready s q p) (hmax : 1 ≤ maxlen) (hmax' : maxlen < 0x10000) :
    Ready (enc28j60PacketReceive s maxlen).1 q.tail p ∧ Handed maxlen (enc28j60PacketReceive s maxlen).2 q := by
  have hsame := (packetReceive_keeps maxlen h.ring.bank).same
  cases q with
  | nil =>
    obtain ⟨hret, hring⟩ := @RingHolds.receive_empty s maxlen h.ring
    exact ⟨h.same hring hsame, hret⟩
  | cons f rest =>
    refine ⟨h.same (h.ring.receive_frame hmax hmax') hsame, ?_⟩
    rw [(packetReceive_frame h.ring hmax hmax').2]
    exact handed_frame hmax

theorem Enc.idle_same : s.idle.chip.rx = s.chip.rx ∧ s.idle.chip.txst = s.chip.txst ∧ s.idle.nextPacketPtr = s.nextPacketPtr := by
  unfold Enc.idle
  split
  · exact ⟨rfl, rfl, rfl⟩
  · exact ⟨rfl, rfl, rfl⟩

theorem Ready.send_loaded (h : Ready s q p) (hlen : packet.length ≤ maxPacket) (hl : Loaded s.idle packet t) :
    Ready { t with chip := { t.chip with econ1 := t.chip.econ1 ||| econ1Txrts } } q (some packet) := by
  obtain ⟨hidle, htxst, hnext⟩ := @Enc.idle_same s
  have hbits := bits_txrts t.chip.econ1
  have hrx := hl.rx
  have hst := hl.txst.trans (htxst.trans h.txst)
  rw [hidle] at hrx
  constructor
  · refine h.ring.outside (hbits.2.2.trans hl.bank) hrx (hl.next.trans hnext) fun a ha => ?_
    apply putBlock_outside
    left
    by_contra hle
    exact not_mem_rxRing (Nat.le_of_not_lt hle) ha
  · exact hbits.2.1 (txrst_of_bits hl.bits (Enc.idle_txrst h.txrst))
  · exact hst
  · exact iff_of_true hbits.1 rfl
  · intro packet' hp
    obtain rfl := Option.some.inj hp
    exact ⟨hlen, hl.txnd⟩
  · intro packet' hp
    obtain rfl := Option.some.inj hp
    have hcount : txstartInit + packet.length + 1 - txstartInit = (0x00 :: packet).length := by
      rw [List.length_cons]
      omega
    change (List.range (t.chip.txnd + 1 - t.chip.txst)).map (fun i => t.chip.rx.mem (t.chip.txst + i)) = _
    rw [hst, hl.txnd, hrx, hcount]
    exact map_putBlock

theorem Ready.send (h : Ready s q p) (packet : List UInt8) (hlen : packet.length ≤ maxPacket) :
    Ready (enc28j60WriteOp (s.idle.load packet) .bitFieldSet econ1 econ1Txrts) q (some packet) := by
  rw [writeOp_econ1]
  exact h.send_loaded hlen (load_loaded packet (Enc.idle_bank h.ring.bank) hlen)

end ready

section reset

theorem writeWord_written {l r : UInt8} {v : ℕ} (h : l &&& bankMask = s.enc28j60Bank → bankOf s.chip.econ1 = s.enc28j60Bank)
    (hl : l &&& addrMask < 0x1b) (hr : r &&& addrMask < 0x1b) :
    bankOf (writeWord s l r v).chip.econ1 = (writeWord s l r v).enc28j60Bank ∧
      (writeWord s l r v).chip.econ1 &&& (econ1Txrst ||| econ1Txrts) = s.chip.econ1 &&& (econ1Txrst ||| econ1Txrts) ∧
      (writeWord s l r v).chip.regs =
        Function.update (Function.update s.chip.regs (l &&& 0x7f) (low v)) (r &&& 0x7f) (high v) := by
  have h₁ := write_written (d := low v) h hl
  have h₂ := write_written (d := high v) (fun _ => h₁.bank) hr
  refine ⟨h₂.bank, h₂.bits.trans h₁.bits, ?_⟩
  rw [← h₁.regs]
  exact h₂.regs

theorem start_updates {regs regs₄ regs₅ : UInt8 → UInt8} {a b d e : UInt8}
    (h₄ : regs₄ = Function.update (Function.update regs (etxstl &&& 0x7f) a) (etxsth &&& 0x7f) b)
    (h₅ : regs₅ = Function.update (Function.update regs₄ (etxndl &&& 0x7f) d) (etxndh &&& 0x7f) e) :
    regs₅ etxstl = a ∧ regs₅ etxsth = b := by
  subst h₄ h₅
  exact ⟨rfl, rfl⟩

theorem initBuffers_ready (h : AfterReset s) (he : s.chip.econ1 = 0) : Ready (initBuffers s) [] none := by
  obtain ⟨hb₁, ht₁, -⟩ := writeWord_written (s := { s with nextPacketPtr := rxstartInit }) (l := erxstl) (r := erxsth)
    (v := rxstartInit) (fun hb => h.bank.trans hb) (by decide) (by decide)
  obtain ⟨hb₂, ht₂, -⟩ := writeWord_written (l := erxrdptl) (r := erxrdpth) (v := rxstartInit) (fun _ => hb₁)
    (by decide) (by decide)
  obtain ⟨hb₃, ht₃, -⟩ := writeWord_written (l := erxndl) (r := erxndh) (v := rxstopInit) (fun _ => hb₂)
    (by decide) (by decide)
  obtain ⟨hb₄, ht₄, hr₄⟩ := writeWord_written (l := etxstl) (r := etxsth) (v := txstartInit) (fun _ => hb₃)
    (by decide) (by decide)
  obtain ⟨hb₅, ht₅, hr₅⟩ := writeWord_written (l := etxndl) (r := etxndh) (v := txstopInit) (fun _ => hb₄)
    (by decide) (by decide)
  have hbits := ht₅.trans (ht₄.trans (ht₃.trans (ht₂.trans ht₁)))
  obtain ⟨hstl, hsth⟩ := start_updates hr₄ hr₅
  have hidle : ∀ e : UInt8, e &&& (econ1Txrst ||| econ1Txrts) = s.chip.econ1 &&& (econ1Txrst ||| econ1Txrts) →
      e &&& econ1Txrst = 0 ∧ e &&& econ1Txrts = 0 := by
    intro e hbits
    rw [← (bits_parts e).1, ← (bits_parts e).2, hbits, he]
    decide
  obtain ⟨htxrst, htxrts⟩ := hidle _ hbits
  constructor
  · exact initBuffers_ringHolds h
  · exact htxrst
  · unfold Chip.txst initBuffers
    simp only [hstl, hsth]
    exact low_add_high (by decide)
  · exact iff_of_false (not_not.mpr htxrts) (by simp)
  · simp
  · simp

end reset

theorem flows_inOrder (h : Ready s q p) (hflows : Flows s es) : InOrder q p es := by
  induction hflows generalizing q p with
  | done s => trivial
  | arrival ha hout _ ih => exact ih (h.arrive ha hout)
  | finish hf _ ih =>
    obtain ⟨packet, hp⟩ := Option.isSome_iff_exists.mp (h.busy.mp hf.busy)
    exact ⟨⟨packet, hp, h.transmitted packet hp⟩, ih (h.finish hf)⟩
  | probe _ ih =>
    obtain ⟨hready, hret⟩ := h.probe
    exact ⟨hret, ih hready⟩
  | receive hmax hmax' _ ih =>
    obtain ⟨hready, hret⟩ := h.receive hmax hmax'
    exact ⟨hret, ih hready⟩
  | send hlen hp _ ih =>
    obtain ⟨hret, henc⟩ := packetSend_ends _ h.ring.bank h.txrst hp ⟨_, _, _⟩ rfl
    rw [henc] at ih
    exact ⟨hret, ih (h.send _ hlen)⟩

/-- Whatever comes in between, the frames are handed over in order, each once, and what the device transmits is the last
packet that was sent, whole and at most once. -/
theorem traffic_inOrder (h : AfterReset s) (he : s.chip.econ1 = 0) (hflows : Flows (initBuffers s) es) : InOrder [] none es :=
  flows_inOrder (initBuffers_ready h he) hflows

/-- The device stores a frame and leaves the rest of its memory as it is. -/
def Rx.storeInside (x : Rx) (f : StoredFrame) : Rx :=
  { x.store f with mem := fun a => if a ≤ rxstopInit then (x.store f).mem a else x.mem a }

theorem arrives_inside (h : Arrives x f (x.store f)) :
    Arrives x f (x.storeInside f) ∧ ∀ a, ¬ rxRing.Mem a → (x.storeInside f).mem a = x.mem a := by
  have hinside : ∀ a i, (x.storeInside f).mem (rxRing.step a i) = (x.store f).mem (rxRing.step a i) :=
    fun a i => if_pos PageRing.step_mem.2
  refine ⟨⟨h.start, h.room, h.held.keep fun i _ => hinside _ i, fun i hi => (hinside _ i).trans (h.kept i hi), h.wrpt, h.count,
    h.count_le, h.erdpt, h.erxst, h.erxnd, h.erxrdpt⟩, ?_⟩
  intro a ha
  apply if_neg
  intro hle
  exact ha ⟨Nat.zero_le a, hle⟩

theorem finishes_idle (h : c.Transmitting) : Finishes c { c with econ1 := c.econ1 &&& ~~~econ1Txrts } :=
  ⟨h, rfl, fun _ _ => rfl, _, rfl, fun _ _ => rfl⟩

theorem traffic_inOrder_both_ways : ∃ ret transmitted probe handed,
    Flows (initBuffers resetDevice) [.sent [0x41, 0x42] ret, .arrived ⟨0, 12, 0x80, 0, [1, 2, 3, 4, 5, 6]⟩,
      .finished transmitted, .probed probe, .received 0x600 handed] ∧
    InOrder [] none [.sent [0x41, 0x42] ret, .arrived ⟨0, 12, 0x80, 0, [1, 2, 3, 4, 5, 6]⟩, .finished transmitted,
      .probed probe, .received 0x600 handed] := by
  have hready := initBuffers_ready resetDevice_afterReset rfl
  obtain ⟨hret, henc⟩ := packetSend_ends [0x41, 0x42] hready.ring.bank hready.txrst (Nat.le_refl 2)
    ⟨initBuffers resetDevice, [], 0⟩ rfl
  have hsent := hready.send [0x41, 0x42] (by decide)
  have hstart : (enc28j60WriteOp ((initBuffers resetDevice).idle.load [0x41, 0x42]) .bitFieldSet econ1 econ1Txrts).chip.rx.erxwrpt
      = 0 := by
    rw [writeOp_econ1]
    have hrx := (load_loaded [0x41, 0x42] (Enc.idle_bank hready.ring.bank) (by decide)).rx
    rw [Enc.idle_same.1, (initBuffers_shows resetDevice_afterReset.bank).rx] at hrx
    exact congrArg Rx.erxwrpt hrx
  rw [← henc] at hsent hstart
  obtain ⟨harrives, hout⟩ := arrives_inside (store_arrives (f := ⟨0, 12, 0x80, 0, [1, 2, 3, 4, 5, 6]⟩) hsent.ring hstart.symm rfl
    (by decide) (by decide) (by decide))
  have hboth := hsent.arrive harrives hout
  have hflows := Flows.send (by decide) (Nat.le_refl 2) (.arrival harrives hout
    (.finish (finishes_idle (hboth.busy.mpr rfl)) (.probe (.receive (show 1 ≤ 0x600 by decide) (by decide) (.done _)))))
  exact ⟨_, _, _, _, hflows, traffic_inOrder resetDevice_afterReset rfl hflows⟩

end Lpc1788Libraries.Enc28j60

import Lpc1788Libraries.Support.ByteBits
import Lpc1788Libraries.Support.MemoryBlock
import Lpc1788Libraries.Enc28j60.Bus
import Lpc1788Libraries.Enc28j60.Registers

namespace Lpc1788Libraries.Enc28j60

open Lpc1788Libraries.Support ByteBits

namespace Chip

def txst (c : Chip) : ℕ := (c.regs etxstl).toNat + (c.regs etxsth).toNat * 0x100

def txnd (c : Chip) : ℕ := (c.regs etxndl).toNat + (c.regs etxndh).toNat * 0x100

def wrpt (c : Chip) : ℕ := (c.regs ewrptl).toNat + (c.regs ewrpth).toNat * 0x100

def Transmitting (c : Chip) : Prop := c.econ1 &&& econ1Txrts ≠ 0

instance (c : Chip) : Decidable c.Transmitting := inferInstanceAs (Decidable (_ ≠ _))

/-- The control byte and the frame that the device transmits. -/
def transmitted (c : Chip) : List UInt8 := (List.range (c.txnd + 1 - c.txst)).map fun i => c.rx.mem (c.txst + i)

/-- What a reset of the transmit logic does to a transmission. -/
def settle (c : Chip) : Chip :=
  if c.econ1 &&& econ1Txrst ≠ 0 then { c with econ1 := c.econ1 &&& ~~~econ1Txrts } else c

end Chip

section bits

theorem bits_or_txrst : ∀ e : UInt8, e &&& econ1Txrst = 0 →
    (((e ||| econ1Txrst) &&& ~~~econ1Txrts) &&& ~~~econ1Txrst) = e &&& ~~~econ1Txrts :=
  forall_byte (by decide +kernel)

theorem bits_txrst : ∀ e : UInt8, (e ||| econ1Txrst) &&& econ1Txrst ≠ 0 ∧ (e &&& ~~~econ1Txrst) &&& econ1Txrst = 0 :=
  forall_byte (by decide +kernel)

theorem bits_cleared : ∀ e : UInt8, (e &&& ~~~econ1Txrts) &&& econ1Txrts = 0 ∧
    (e &&& econ1Txrst = 0 → (e &&& ~~~econ1Txrts) &&& econ1Txrst = 0) ∧
    bankOf (e &&& ~~~econ1Txrts) = bankOf e :=
  forall_byte (by decide +kernel)

theorem bits_txrts : ∀ e : UInt8, (e ||| econ1Txrts) &&& econ1Txrts ≠ 0 ∧
    (e &&& econ1Txrst = 0 → (e ||| econ1Txrts) &&& econ1Txrst = 0) ∧ bankOf (e ||| econ1Txrts) = bankOf e :=
  forall_byte (by decide +kernel)

theorem bits_bank : ∀ e : UInt8, (e &&& ~~~(econ1Bsel1 ||| econ1Bsel0)) &&& (econ1Txrst ||| econ1Txrts) =
    e &&& (econ1Txrst ||| econ1Txrts) := forall_byte (by decide +kernel)

theorem bits_select : ∀ a : UInt8, (a &&& bankMask) >>> 5 &&& (econ1Txrst ||| econ1Txrts) = 0 :=
  forall_byte (by decide +kernel)

theorem bits_parts : ∀ e : UInt8, (e &&& (econ1Txrst ||| econ1Txrts)) &&& econ1Txrst = e &&& econ1Txrst ∧
    (e &&& (econ1Txrst ||| econ1Txrts)) &&& econ1Txrts = e &&& econ1Txrts := forall_byte (by decide +kernel)

end bits

/-- The device with nothing else going on. -/
def quiet : Hardware where
  change _ c := c.settle
  bank _ c := by
    unfold Chip.settle
    split
    · exact (bits_cleared c.econ1).2.2
    · rfl

variable {s t u : Enc} {c c' c'' : Chip} {x : Rx} {n v polls : ℕ} {a d l r : UInt8} {ds packet : List UInt8}

section same

/-- What concerns a transmission is the same. -/
structure SameTx (c c' : Chip) : Prop where
  bits : c'.econ1 &&& (econ1Txrst ||| econ1Txrts) = c.econ1 &&& (econ1Txrst ||| econ1Txrts)
  regs : ∀ r, etxstl ≤ r → r ≤ etxndh → c'.regs r = c.regs r
  mem : c'.rx.mem = c.rx.mem

theorem SameTx.rfl : SameTx c c := ⟨Eq.refl _, fun _ _ _ => Eq.refl _, Eq.refl _⟩

theorem SameTx.trans (h : SameTx c c') (h' : SameTx c' c'') : SameTx c c'' :=
  ⟨h'.bits.trans h.bits, fun r hl hh => (h'.regs r hl hh).trans (h.regs r hl hh), h'.mem.trans h.mem⟩

theorem SameTx.txrst (h : SameTx c c') : c'.econ1 &&& econ1Txrst = c.econ1 &&& econ1Txrst := by
  rw [← (bits_parts c'.econ1).1, h.bits, (bits_parts c.econ1).1]

theorem SameTx.transmitting (h : SameTx c c') : c'.Transmitting ↔ c.Transmitting := by
  rw [Chip.Transmitting, ← (bits_parts c'.econ1).2, h.bits, (bits_parts c.econ1).2, Chip.Transmitting]

theorem SameTx.txst (h : SameTx c c') : c'.txst = c.txst := by
  rw [Chip.txst, h.regs etxstl (by decide) (by decide), h.regs etxsth (by decide) (by decide), Chip.txst]

theorem SameTx.txnd (h : SameTx c c') : c'.txnd = c.txnd := by
  rw [Chip.txnd, h.regs etxndl (by decide) (by decide), h.regs etxndh (by decide) (by decide), Chip.txnd]

theorem SameTx.transmitted (h : SameTx c c') : c'.transmitted = c.transmitted := by
  rw [Chip.transmitted, h.txst, h.txnd, h.mem, Chip.transmitted]

theorem Rx.set_mem : (x.set r d).mem = x.mem := by
  unfold Rx.set
  split_ifs <;> rfl

theorem writeOp_econ1 {op : WriteCommand} : enc28j60WriteOp s op econ1 d = { s with chip := { s.chip with
    econ1 := match op with
      | .writeCtrlReg => d
      | .bitFieldSet => s.chip.econ1 ||| d
      | .bitFieldClr => s.chip.econ1 &&& ~~~d } } := by
  have hselect : ∀ c : Chip, c.select (econ1 &&& addrMask) = econ1 := fun c => by
    unfold Chip.select
    exact if_pos (by decide)
  have hecon : ¬ (econ1 = econ2 ∧ d &&& econ2Pktdec ≠ 0) := fun hcon => absurd hcon.1 (by decide)
  cases op with
  | writeCtrlReg => simp only [enc28j60WriteOp, Chip.write, hselect, Chip.set, if_true]
  | bitFieldSet => simp only [enc28j60WriteOp, Chip.write, hselect, Chip.set, Chip.get, if_neg hecon, if_true]
  | bitFieldClr => simp only [enc28j60WriteOp, Chip.write, hselect, Chip.set, Chip.get, if_true]

theorem clearBank_sameTx :
    SameTx s.chip (enc28j60WriteOp s .bitFieldClr econ1 (econ1Bsel1 ||| econ1Bsel0)).chip := by
  rw [writeOp_econ1]
  exact ⟨bits_bank _, fun _ _ _ => rfl, rfl⟩

theorem selectBank_sameTx :
    SameTx s.chip (enc28j60WriteOp s .bitFieldSet econ1 ((a &&& bankMask) >>> 5)).chip := by
  rw [writeOp_econ1]
  refine ⟨?_, fun _ _ _ => rfl, rfl⟩
  change (s.chip.econ1 ||| (a &&& bankMask) >>> 5) &&& _ = _
  rw [or_and_mask, bits_select, UInt8.or_zero]

theorem setBank_sameTx : SameTx s.chip (enc28j60SetBank s a).chip := by
  unfold enc28j60SetBank
  split
  · exact clearBank_sameTx.trans selectBank_sameTx
  · exact .rfl

/-- A register of one bank gets a byte. -/
structure Enc.Written (s : Enc) (r d : UInt8) (t : Enc) : Prop where
  bank : bankOf t.chip.econ1 = t.enc28j60Bank
  bits : t.chip.econ1 &&& (econ1Txrst ||| econ1Txrts) = s.chip.econ1 &&& (econ1Txrst ||| econ1Txrts)
  rx : t.chip.rx = s.chip.rx.set r d
  regs : t.chip.regs = Function.update s.chip.regs r d
  next : t.nextPacketPtr = s.nextPacketPtr

theorem write_written (h : a &&& bankMask = s.enc28j60Bank → bankOf s.chip.econ1 = s.enc28j60Bank)
    (ha : a &&& addrMask < 0x1b) : s.Written (a &&& 0x7f) d (enc28j60Write s a d) := by
  have hsame := setBank_sameTx (s := s) (a := a)
  obtain ⟨e, hbank, heq⟩ := enc28j60SetBank_eq h
  have hselect : Chip.select { s.chip with econ1 := e } (a &&& addrMask) = a &&& 0x7f := select_eq hbank ha
  rw [heq] at hsame
  rw [enc28j60Write, heq]
  simp only [enc28j60WriteOp, Chip.write, hselect, Chip.set, if_neg (econ1_ne_of_lt ha)]
  exact ⟨hbank, hsame.bits, rfl, rfl, rfl⟩

/-- The driver knows the bank, as before. -/
structure Enc.Keeps (s t : Enc) : Prop where
  bank : bankOf t.chip.econ1 = t.enc28j60Bank
  same : SameTx s.chip t.chip

theorem Enc.Keeps.trans (h : s.Keeps t) (h' : t.Keeps u) : s.Keeps u := ⟨h'.bank, h.same.trans h'.same⟩

theorem Enc.Keeps.next (h : s.Keeps t) (n : ℕ) : s.Keeps { t with nextPacketPtr := n } := ⟨h.bank, h.same⟩

theorem read_keeps (h : bankOf s.chip.econ1 = s.enc28j60Bank) : s.Keeps (enc28j60Read s a).1 := by
  obtain ⟨e, hbank, heq⟩ := enc28j60SetBank_eq (s := s) (a := a) fun _ => h
  have hsame := setBank_sameTx (s := s) (a := a)
  refine ⟨?_, hsame⟩
  change bankOf (enc28j60SetBank s a).chip.econ1 = (enc28j60SetBank s a).enc28j60Bank
  rw [heq]
  exact hbank

theorem write_keeps (h : bankOf s.chip.econ1 = s.enc28j60Bank) (ha : a &&& addrMask < 0x1b)
    (hr : a &&& 0x7f < etxstl ∨ etxndh < a &&& 0x7f) : s.Keeps (enc28j60Write s a d) := by
  have hw := write_written (d := d) (fun _ => h) ha
  refine ⟨hw.bank, hw.bits, fun r hl hh => ?_, ?_⟩
  · rw [hw.regs]
    apply Function.update_of_ne
    rintro rfl
    rcases hr with hr | hr
    · exact absurd hl (UInt8.not_le.mpr hr)
    · exact absurd hh (UInt8.not_le.mpr hr)
  · rw [hw.rx, Rx.set_mem]

theorem writeErdpt_keeps (h : bankOf s.chip.econ1 = s.enc28j60Bank) : s.Keeps (writeWord s erdptl erdpth v) :=
  have hl := write_keeps h (show erdptl &&& addrMask < 0x1b by decide) (.inl (by decide))
  hl.trans (write_keeps hl.bank (by decide) (.inl (by decide)))

theorem writeErxrdpt_keeps (h : bankOf s.chip.econ1 = s.enc28j60Bank) : s.Keeps (writeWord s erxrdptl erxrdpth v) :=
  have hl := write_keeps h (show erxrdptl &&& addrMask < 0x1b by decide) (.inr (by decide))
  hl.trans (write_keeps hl.bank (by decide) (.inr (by decide)))

theorem readOp_keeps (h : bankOf s.chip.econ1 = s.enc28j60Bank) : s.Keeps (enc28j60ReadOp s .readBufMem 0).1 :=
  ⟨h, rfl, fun _ _ _ => rfl, rfl⟩

theorem readWord_keeps (h : bankOf s.chip.econ1 = s.enc28j60Bank) : s.Keeps (readWord s).1 :=
  (readOp_keeps h).trans (readOp_keeps h)

theorem readBufferLoop_keeps {len : ℕ} (h : bankOf s.chip.econ1 = s.enc28j60Bank) : s.Keeps (readBufferLoop len s).1 := by
  induction len generalizing s with
  | zero => exact ⟨h, .rfl⟩
  | succ len ih => exact (readOp_keeps h).trans (ih (readOp_keeps h).bank)

theorem pktdec_keeps (h : bankOf s.chip.econ1 = s.enc28j60Bank) :
    s.Keeps (enc28j60WriteOp s .bitFieldSet econ2 econ2Pktdec) := by
  have hselect : s.chip.select (econ2 &&& addrMask) = econ2 := by
    unfold Chip.select
    exact if_pos (by decide)
  have hdec : True ∧ econ2Pktdec &&& econ2Pktdec ≠ 0 := by decide
  unfold enc28j60WriteOp Chip.write
  simp only [hselect]
  rw [if_pos hdec]
  refine ⟨h, rfl, fun r hl hh => ?_, rfl⟩
  apply Function.update_of_ne
  rintro rfl
  exact absurd hh (by decide)

theorem releaseFrame_keeps (h : bankOf s.chip.econ1 = s.enc28j60Bank) : s.Keeps (releaseFrame s) := by
  have hfirst := writeErxrdpt_keeps (v := s.nextPacketPtr) h
  unfold releaseFrame
  simp only
  split
  · have hsecond := hfirst.trans (writeErxrdpt_keeps (v := rxstopInit) hfirst.bank)
    exact hsecond.trans (pktdec_keeps hsecond.bank)
  · have hsecond := hfirst.trans (writeErxrdpt_keeps (v := (writeWord s erxrdptl erxrdpth s.nextPacketPtr).nextPacketPtr - 1)
      hfirst.bank)
    exact hsecond.trans (pktdec_keeps hsecond.bank)

theorem readRelease_keeps {len : ℕ} (h : bankOf s.chip.econ1 = s.enc28j60Bank) :
    s.Keeps (releaseFrame (readBufferLoop len s).1) :=
  (readBufferLoop_keeps h).trans (releaseFrame_keeps (readBufferLoop_keeps h).bank)

theorem packetReceive_keeps (maxlen : ℕ) (h : bankOf s.chip.econ1 = s.enc28j60Bank) :
    s.Keeps (enc28j60PacketReceive s maxlen).1 := by
  have hcount := read_keeps (a := epktcnt) h
  unfold enc28j60PacketReceive
  simp only
  split
  · exact hcount
  · have hstart := hcount.trans (writeErdpt_keeps (v := (enc28j60Read s epktcnt).1.nextPacketPtr) hcount.bank)
    have hnext := (hstart.trans (readWord_keeps hstart.bank)).next (readWord (writeWord (enc28j60Read s epktcnt).1 erdptl erdpth
      (enc28j60Read s epktcnt).1.nextPacketPtr)).2
    have hlength := hnext.trans (readWord_keeps hnext.bank)
    have hstat := hlength.trans (readWord_keeps hlength.bank)
    split
    · exact hstat.trans (releaseFrame_keeps hstat.bank)
    · exact hstat.trans (readRelease_keeps hstat.bank)

end same

section ends

variable {α β : Type} {p : BusM α} {f : α → BusM β} {y : α} {z : β}

/-- From the state the program comes to its end, with the result and the state that are named. -/
def Ends (s : Enc) (p : BusM α) (y : α) (t : Enc) : Prop := ∀ b : Bus, b.enc = s → (p b).1 = some y ∧ (p b).2.enc = t

theorem Ends.bind (h : Ends s p y t) (h' : Ends t (f y) z u) : Ends s (p >>= f) z u := by
  intro b hb
  obtain ⟨hres, henc⟩ := h b hb
  rw [Waiting.bind_some (Prod.ext hres (Eq.refl (p b).2))]
  exact h' _ henc

theorem ends_pure : Ends s (pure y : BusM α) y s := fun _ hb => ⟨rfl, hb⟩

theorem ends_get {f : Bus → BusM β} (h : ∀ b : Bus, b.enc = s → Ends s (f b) z t) : Ends s (Waiting.get >>= f) z t :=
  fun b hb => h b hb b hb

theorem ends_command {f : Enc → Enc × β} {k : Option UInt8} (h : (f s).1.chip.settle = (f s).1.chip) :
    Ends s (Bus.command quiet f k) (f s).2 (f s).1 := by
  rintro b rfl
  refine ⟨rfl, ?_⟩
  change { (f b.enc).1 with chip := (f b.enc).1.chip.settle } = (f b.enc).1
  rw [h]

theorem Chip.settle_of_idle (h : c.econ1 &&& econ1Txrst = 0) : c.settle = c := if_neg (not_not.mpr h)

theorem writeOp_ends {o : WriteCommand} (h : (enc28j60WriteOp s o a d).chip.econ1 &&& econ1Txrst = 0) :
    Ends s (Bus.enc28j60WriteOp quiet o a d) () (enc28j60WriteOp s o a d) := ends_command (Chip.settle_of_idle h)

theorem setBank_ends (h : s.chip.econ1 &&& econ1Txrst = 0) : Ends s (Bus.enc28j60SetBank quiet a) () (enc28j60SetBank s a) := by
  unfold Bus.enc28j60SetBank
  apply ends_get
  rintro b rfl
  by_cases hbank : a &&& bankMask ≠ b.enc.enc28j60Bank
  · rw [enc28j60SetBank, if_pos hbank, if_pos hbank]
    have hclear := clearBank_sameTx (s := b.enc)
    refine (writeOp_ends (hclear.txrst.trans h)).bind ((writeOp_ends ?_).bind ?_)
    · exact (hclear.trans selectBank_sameTx).txrst.trans h
    · intro b hb
      exact ⟨rfl, congrArg (fun s : Enc => { s with enc28j60Bank := a &&& bankMask }) hb⟩
  · rw [enc28j60SetBank, if_neg hbank, if_neg hbank]
    exact ends_pure

theorem write_ends (h : s.chip.econ1 &&& econ1Txrst = 0) (hw : (enc28j60Write s a d).chip.econ1 &&& econ1Txrst = 0) :
    Ends s (Bus.enc28j60Write quiet a d) () (enc28j60Write s a d) := (setBank_ends h).bind (writeOp_ends hw)

theorem writeWord_ends (h : s.chip.econ1 &&& econ1Txrst = 0) (hl : (enc28j60Write s l (low v)).chip.econ1 &&& econ1Txrst = 0)
    (hr : (writeWord s l r v).chip.econ1 &&& econ1Txrst = 0) : Ends s (Bus.writeWord quiet l r v) () (writeWord s l r v) :=
  (write_ends h hl).bind (write_ends hl hr)

theorem foldl_writeByte_econ1 : (ds.foldl Chip.writeByte c).econ1 = c.econ1 := by
  induction ds generalizing c with
  | nil => rfl
  | cons d ds ih => exact ih

theorem writeBuffer_ends (ds : List UInt8) (h : s.chip.econ1 &&& econ1Txrst = 0) :
    Ends s (Bus.enc28j60WriteBuffer quiet ds) () { s with chip := ds.foldl Chip.writeByte s.chip } := by
  apply ends_command
  apply Chip.settle_of_idle
  change (ds.foldl Chip.writeByte s.chip).econ1 &&& _ = 0
  rw [foldl_writeByte_econ1]
  exact h

/-- The driver's wait for the transmission before. -/
def Enc.idle (s : Enc) : Enc :=
  if s.chip.Transmitting then { s with chip := { s.chip with econ1 := s.chip.econ1 &&& ~~~econ1Txrts } } else s

theorem transmitBusy_ends (h : s.chip.econ1 &&& econ1Txrst = 0) :
    Ends s (Bus.transmitBusy quiet) (decide s.chip.Transmitting) s := by
  have hselect : s.chip.select (econ1 &&& addrMask) = econ1 := by
    unfold Chip.select
    exact if_pos (by decide)
  have hget : (enc28j60ReadOp s .readCtrlReg econ1).2 = s.chip.econ1 := by
    change s.chip.get (s.chip.select (econ1 &&& addrMask)) = _
    rw [hselect]
    exact if_pos rfl
  have hread : Ends s (Bus.readCtrlReg quiet econ1) s.chip.econ1 s := by
    have hcommand := ends_command (f := fun s => enc28j60ReadOp s .readCtrlReg econ1) (k := some econ1)
      (Chip.settle_of_idle h)
    rwa [hget] at hcommand
  exact hread.bind ends_pure

theorem resetTransmit_ends (h : s.chip.econ1 &&& econ1Txrst = 0) : Ends s (Bus.resetTransmit quiet) ()
    { s with chip := { s.chip with econ1 := s.chip.econ1 &&& ~~~econ1Txrts } } := by
  have hset : Ends s (Bus.enc28j60WriteOp quiet .bitFieldSet econ1 econ1Txrst) ()
      { s with chip := { s.chip with econ1 := (s.chip.econ1 ||| econ1Txrst) &&& ~~~econ1Txrts } } := by
    rintro b rfl
    refine ⟨rfl, ?_⟩
    have hsettled : (Bus.enc28j60WriteOp quiet .bitFieldSet econ1 econ1Txrst b).2.enc =
        { enc28j60WriteOp b.enc .bitFieldSet econ1 econ1Txrst with
          chip := (enc28j60WriteOp b.enc .bitFieldSet econ1 econ1Txrst).chip.settle } := rfl
    rw [hsettled, writeOp_econ1, Chip.settle, if_pos (bits_txrst _).1]
  apply hset.bind
  have hclr := writeOp_ends (o := .bitFieldClr) (a := econ1) (d := econ1Txrst)
    (s := { s with chip := { s.chip with econ1 := (s.chip.econ1 ||| econ1Txrst) &&& ~~~econ1Txrts } })
    (by rw [writeOp_econ1]; exact (bits_txrst _).2)
  rw [writeOp_econ1] at hclr
  simp only [bits_or_txrst _ h] at hclr
  exact hclr

theorem wait_ends (h : s.chip.econ1 &&& econ1Txrst = 0) (hp : 2 ≤ polls) :
    Ends s (Waiting.waitWhile (Bus.transmitBusy quiet) (Bus.resetTransmit quiet) polls) () s.idle := by
  obtain ⟨polls, rfl⟩ := Nat.exists_eq_add_of_le' hp
  refine (transmitBusy_ends h).bind ?_
  by_cases hbusy : s.chip.Transmitting
  · rw [decide_eq_true hbusy, Enc.idle, if_pos hbusy]
    have hidle : ¬ Chip.Transmitting { s.chip with econ1 := s.chip.econ1 &&& ~~~econ1Txrts } := not_not.mpr (bits_cleared _).1
    refine (resetTransmit_ends h).bind ((transmitBusy_ends ((bits_cleared _).2.1 h)).bind ?_)
    rw [decide_eq_false hidle]
    exact ends_pure
  · rw [decide_eq_false hbusy, Enc.idle, if_neg hbusy]
    exact ends_pure

end ends

section sending

theorem low_add_high (h : v < 0x10000) : (low v).toNat + (high v).toNat * 0x100 = v := by
  rw [low_toNat, high_toNat h]
  omega

theorem foldl_writeByte (h : c.wrpt + ds.length ≤ 0x2000) :
    (ds.foldl Chip.writeByte c).rx = { c.rx with mem := putBlock c.rx.mem c.wrpt ds } ∧
      ∀ r, etxstl ≤ r → (ds.foldl Chip.writeByte c).regs r = c.regs r := by
  induction ds generalizing c with
  | nil => exact ⟨by rw [putBlock_nil]; rfl, fun _ _ => rfl⟩
  | cons d ds ih =>
    rw [List.length_cons] at h
    have hnext : (c.wrpt + 1) % 0x2000 < 0x10000 := Nat.lt_trans (Nat.mod_lt _ (by omega)) (by omega)
    have hwrpt : (c.writeByte d).wrpt = (c.wrpt + 1) % 0x2000 := low_add_high hnext
    have hregs : ∀ r, etxstl ≤ r → (c.writeByte d).regs r = c.regs r := by
      intro r hr
      have hl : r ≠ ewrptl := by
        rintro rfl
        exact absurd hr (by decide)
      have hh : r ≠ ewrpth := by
        rintro rfl
        exact absurd hr (by decide)
      exact (Function.update_of_ne hh _ _).trans (Function.update_of_ne hl _ _)
    rw [List.foldl_cons, putBlock_cons]
    by_cases hnil : ds = []
    · subst hnil
      rw [putBlock_nil]
      exact ⟨rfl, hregs⟩
    · have hpos := List.length_pos_iff.mpr hnil
      rw [Nat.mod_eq_of_lt (by omega)] at hwrpt
      obtain ⟨hrx, hkept⟩ := ih (by rw [hwrpt]; omega)
      rw [hwrpt] at hrx
      exact ⟨hrx, fun r hr => (hkept r hr).trans (hregs r hr)⟩

/-- The transmit buffer as a call fills it. -/
def Enc.load (s : Enc) (packet : List UInt8) : Enc :=
  let s := writeWord s ewrptl ewrpth txstartInit
  let s := writeWord s etxndl etxndh (txstartInit + packet.length)
  { s with chip := (0x00 :: packet).foldl Chip.writeByte s.chip }

/-- The longest packet that leaves room for the status behind it. -/
def maxPacket : ℕ := 0x5f9

/-- The packet is in the transmit buffer, and only there something has changed. -/
structure Loaded (s : Enc) (packet : List UInt8) (t : Enc) : Prop where
  bank : bankOf t.chip.econ1 = t.enc28j60Bank
  bits : t.chip.econ1 &&& (econ1Txrst ||| econ1Txrts) = s.chip.econ1 &&& (econ1Txrst ||| econ1Txrts)
  rx : t.chip.rx = { s.chip.rx with mem := putBlock s.chip.rx.mem txstartInit (0x00 :: packet) }
  txst : t.chip.txst = s.chip.txst
  txnd : t.chip.txnd = txstartInit + packet.length
  next : t.nextPacketPtr = s.nextPacketPtr

theorem pointer_updates {regs regs' : UInt8 → UInt8} {a b d e : UInt8}
    (h : regs' = Function.update (Function.update (Function.update (Function.update regs (ewrptl &&& 0x7f) a)
      (ewrpth &&& 0x7f) b) (etxndl &&& 0x7f) d) (etxndh &&& 0x7f) e) :
    regs' ewrptl = a ∧ regs' ewrpth = b ∧ regs' etxndl = d ∧ regs' etxndh = e ∧ regs' etxstl = regs etxstl ∧
      regs' etxsth = regs etxsth := by
  subst h
  exact ⟨rfl, rfl, rfl, rfl, rfl, rfl⟩

theorem load_loaded (packet : List UInt8) (h : bankOf s.chip.econ1 = s.enc28j60Bank) (hlen : packet.length ≤ maxPacket) :
    Loaded s packet (s.load packet) := by
  have hmax : maxPacket = 0x5f9 := rfl
  have hstart : txstartInit = 0x19ff := rfl
  have h₁ := write_written (a := ewrptl) (d := low txstartInit) (fun _ => h) (by decide)
  have h₂ := write_written (a := ewrpth) (d := high txstartInit) (fun _ => h₁.bank) (by decide)
  have h₃ := write_written (a := etxndl) (d := low (txstartInit + packet.length)) (fun _ => h₂.bank) (by decide)
  have h₄ := write_written (a := etxndh) (d := high (txstartInit + packet.length)) (fun _ => h₃.bank) (by decide)
  obtain ⟨t, ht⟩ : ∃ t, t = writeWord (writeWord s ewrptl ewrpth txstartInit) etxndl etxndh (txstartInit + packet.length) := ⟨_, rfl⟩
  have hload : s.load packet = { t with chip := (0x00 :: packet).foldl Chip.writeByte t.chip } := by
    rw [ht]
    rfl
  change Enc.Written _ _ _ (writeWord (writeWord s ewrptl ewrpth txstartInit) etxndl etxndh (txstartInit + packet.length)) at h₄
  rw [← ht] at h₄
  have hregs := h₄.regs
  rw [h₃.regs, h₂.regs, h₁.regs] at hregs
  obtain ⟨hwrl, hwrh, hndl, hndh, hstl, hsth⟩ := pointer_updates hregs
  have hrx := h₄.rx
  rw [h₃.rx, h₂.rx, h₁.rx] at hrx
  have hplace : t.chip.wrpt = txstartInit := by
    unfold Chip.wrpt
    rw [hwrl, hwrh]
    exact low_add_high (by decide)
  have hroom : t.chip.wrpt + (0x00 :: packet).length ≤ 0x2000 := by
    rw [hplace, List.length_cons]
    omega
  obtain ⟨hmem, hkept⟩ := foldl_writeByte hroom
  rw [hplace] at hmem
  constructor
  · rw [hload, foldl_writeByte_econ1]
    exact h₄.bank
  · rw [hload, foldl_writeByte_econ1]
    exact h₄.bits.trans (h₃.bits.trans (h₂.bits.trans h₁.bits))
  · rw [hload, hmem, hrx]
    rfl
  · rw [hload]
    unfold Chip.txst
    rw [hkept etxstl (by decide), hkept etxsth (by decide), hstl, hsth]
  · rw [hload]
    unfold Chip.txnd
    rw [hkept etxndl (by decide), hkept etxndh (by decide), hndl, hndh]
    exact low_add_high (by omega)
  · rw [hload]
    exact h₄.next.trans (h₃.next.trans (h₂.next.trans h₁.next))

theorem txrst_of_bits (h : c'.econ1 &&& (econ1Txrst ||| econ1Txrts) = c.econ1 &&& (econ1Txrst ||| econ1Txrts))
    (hc : c.econ1 &&& econ1Txrst = 0) : c'.econ1 &&& econ1Txrst = 0 := by
  rw [← (bits_parts c'.econ1).1, h, (bits_parts c.econ1).1]
  exact hc

theorem pointers_end (hbank : bankOf s.chip.econ1 = s.enc28j60Bank) (h : s.chip.econ1 &&& econ1Txrst = 0)
    (hl : l &&& addrMask < 0x1b) (hr : r &&& addrMask < 0x1b) :
    Ends s (Bus.writeWord quiet l r v) () (writeWord s l r v) ∧
      bankOf (writeWord s l r v).chip.econ1 = (writeWord s l r v).enc28j60Bank ∧
      (writeWord s l r v).chip.econ1 &&& econ1Txrst = 0 := by
  have h₁ := write_written (d := low v) (fun _ => hbank) hl
  have h₂ := write_written (d := high v) (fun _ => h₁.bank) hr
  have hfirst := txrst_of_bits h₁.bits h
  have hsecond := txrst_of_bits h₂.bits hfirst
  exact ⟨writeWord_ends h hfirst hsecond, h₂.bank, hsecond⟩

theorem Enc.idle_bank (h : bankOf s.chip.econ1 = s.enc28j60Bank) : bankOf s.idle.chip.econ1 = s.idle.enc28j60Bank := by
  unfold Enc.idle
  split
  · exact (bits_cleared _).2.2.trans h
  · exact h

theorem Enc.idle_txrst (h : s.chip.econ1 &&& econ1Txrst = 0) : s.idle.chip.econ1 &&& econ1Txrst = 0 := by
  unfold Enc.idle
  split
  · exact (bits_cleared _).2.1 h
  · exact h

theorem fill_ends (h : s.chip.econ1 &&& econ1Txrst = 0) :
    Ends s (Bus.enc28j60WriteBuffer quiet [0x00] >>= fun _ => Bus.enc28j60WriteBuffer quiet packet >>= fun _ =>
      Bus.enc28j60WriteOp quiet .bitFieldSet econ1 econ1Txrts) ()
      (enc28j60WriteOp { s with chip := (0x00 :: packet).foldl Chip.writeByte s.chip } .bitFieldSet econ1 econ1Txrts) := by
  apply (writeBuffer_ends [0x00] h).bind
  have hpacket := writeBuffer_ends packet (s := { s with chip := s.chip.writeByte 0x00 }) h
  apply hpacket.bind
  apply writeOp_ends
  rw [writeOp_econ1]
  refine (bits_txrts _).2.1 ?_
  change Chip.econ1 (List.foldl Chip.writeByte (s.chip.writeByte 0x00) packet) &&& _ = 0
  rw [foldl_writeByte_econ1]
  exact h

theorem packetSend_ends (packet : List UInt8) (hbank : bankOf s.chip.econ1 = s.enc28j60Bank) (h : s.chip.econ1 &&& econ1Txrst = 0) (hp : 2 ≤ polls) :
    Ends s (Bus.enc28j60PacketSend quiet polls packet) ()
      (enc28j60WriteOp (s.idle.load packet) .bitFieldSet econ1 econ1Txrts) := by
  obtain ⟨hwr, hwrbank, hwrtx⟩ := pointers_end (l := ewrptl) (r := ewrpth) (v := txstartInit) (Enc.idle_bank hbank)
    (Enc.idle_txrst h) (by decide) (by decide)
  obtain ⟨hnd, -, hndtx⟩ := pointers_end (l := etxndl) (r := etxndh) (v := txstartInit + packet.length) hwrbank hwrtx
    (by decide) (by decide)
  exact (wait_ends h hp).bind (hwr.bind (hnd.bind (fill_ends hndtx)))

end sending

end Lpc1788Libraries.Enc28j60

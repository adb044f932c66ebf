import Mathlib.Algebra.Ring.Nat
import Lpc1788Libraries.Enc28j60.Chip

namespace Lpc1788Libraries.Enc28j60

/-- The driver knows the bank, and the receive hardware and the packet pointer are as named. -/
structure Enc.Shows (s : Enc) (x : Rx) (n : ℕ) : Prop where
  bank : bankOf s.chip.econ1 = s.enc28j60Bank
  rx : s.chip.rx = x
  next : s.nextPacketPtr = n

variable {s : Enc} {x : Rx} {n v : ℕ} {a d : UInt8}

section words

theorem low_toNat (v : ℕ) : (low v).toNat = v % 0x100 := by
  simp [low]

theorem high_toNat (h : v < 0x10000) : (high v).toNat = v / 0x100 := by
  have : v / 0x100 < 0x100 := by omega
  simp [high, Nat.mod_eq_of_lt this]

theorem setHigh_setLow {w : ℕ} (h : v < 0x10000) : setHigh (setLow w (low v)) (high v) = v := by
  simp only [setHigh, setLow, low_toNat, high_toNat h]
  omega

theorem word_of_bytes (h : v < 0x10000) : (low v).toNat ||| (high v).toNat <<< 8 = v := by
  have hlow := (low v).toNat_lt
  rw [Nat.or_comm, ← Nat.shiftLeft_add_eq_or_of_lt (by omega), Nat.shiftLeft_eq, low_toNat, high_toNat h]
  omega

end words

section banks

theorem or_and_mask (x y m : UInt8) : (x ||| y) &&& m = (x &&& m) ||| (y &&& m) :=
  UInt8.eq_of_toBitVec_eq BitVec.and_or_distrib_right

theorem bankOf_or (e d : UInt8) : bankOf (e ||| d) = bankOf e ||| bankOf d := by
  rw [bankOf, or_and_mask, UInt8.shiftLeft_or]
  rfl

theorem bankOf_cleared (e : UInt8) : bankOf (e &&& ~~~(econ1Bsel1 ||| econ1Bsel0)) = 0 := by
  have hzero : ~~~(econ1Bsel1 ||| econ1Bsel0) &&& (econ1Bsel1 ||| econ1Bsel0) = 0 := by decide
  rw [bankOf, UInt8.and_assoc, hzero, UInt8.and_zero]
  rfl

theorem bankOf_bits (a : UInt8) : bankOf ((a &&& bankMask) >>> 5) = a &&& bankMask := by
  apply UInt8.toBitVec_inj.mp
  change ((a.toBitVec &&& 0x60#8) >>> 5 &&& 0x03#8) <<< 5 = a.toBitVec &&& 0x60#8
  apply BitVec.eq_of_getLsbD_eq
  intro i hi
  have hcases : i < 5 ∨ i = 5 ∨ i = 6 ∨ i = 7 := by omega
  rcases hcases with hlow | rfl | rfl | rfl
  · have hmask : ∀ i < 5, (0x60#8).getLsbD i = false := by decide
    simp [BitVec.getLsbD_shiftLeft, hlow, hmask i hlow]
  · simp
  · simp
  · simp

theorem bankOf_switch (e a : UInt8) :
    bankOf (e &&& ~~~(econ1Bsel1 ||| econ1Bsel0) ||| (a &&& bankMask) >>> 5) = a &&& bankMask := by
  rw [bankOf_or, bankOf_cleared, bankOf_bits, UInt8.zero_or]

/-- `enc28j60SetBank` leaves the device in the bank of the address, unless the driver is wrong
about the bank and the address lies in the one it has in mind. -/
theorem enc28j60SetBank_eq (h : a &&& bankMask = s.enc28j60Bank → bankOf s.chip.econ1 = s.enc28j60Bank) :
    ∃ e, bankOf e = a &&& bankMask ∧
      enc28j60SetBank s a = ⟨{ s.chip with econ1 := e }, a &&& bankMask, s.nextPacketPtr⟩ := by
  by_cases hsame : a &&& bankMask = s.enc28j60Bank
  · refine ⟨s.chip.econ1, by rw [hsame, h hsame], ?_⟩
    rw [enc28j60SetBank, if_neg (not_not.mpr hsame), hsame]
  · refine ⟨_, bankOf_switch s.chip.econ1 a, ?_⟩
    rw [enc28j60SetBank, if_pos hsame]
    have hselect : ∀ c : Chip, c.select (econ1 &&& addrMask) = econ1 := fun c => by
      unfold Chip.select
      exact if_pos (by decide)
    have hset : ∀ (c : Chip) (d : UInt8), c.set econ1 d = { c with econ1 := d } := fun c d => if_pos rfl
    have hget : ∀ c : Chip, c.get econ1 = c.econ1 := fun c => if_pos rfl
    have hecon : ¬ (econ1 = econ2 ∧ (a &&& bankMask) >>> 5 &&& econ2Pktdec ≠ 0) :=
      fun hcon => absurd hcon.1 (by decide)
    simp only [enc28j60WriteOp, Chip.write, hselect, hset, hget, if_neg hecon]

theorem select_eq {c : Chip} (hbank : bankOf c.econ1 = a &&& bankMask) (ha : a &&& addrMask < 0x1b) :
    c.select (a &&& addrMask) = a &&& 0x7f := by
  have hidem : a &&& addrMask &&& addrMask = a &&& addrMask := by
    rw [UInt8.and_assoc]
    rfl
  have hor : a &&& bankMask ||| a &&& addrMask = a &&& 0x7f := by
    rw [UInt8.and_comm a, UInt8.and_comm a, ← or_and_mask, UInt8.and_comm]
    rfl
  simp only [Chip.select, hidem, hbank, hor]
  exact if_neg (UInt8.not_le.mpr ha)

theorem econ1_ne_of_lt (ha : a &&& addrMask < 0x1b) : a &&& 0x7f ≠ econ1 := by
  intro he
  have hmask : a &&& addrMask = econ1 &&& addrMask := by
    rw [← he, UInt8.and_assoc]
    rfl
  rw [hmask] at ha
  exact absurd ha (by decide)

theorem enc28j60Write_eq (h : a &&& bankMask = s.enc28j60Bank → bankOf s.chip.econ1 = s.enc28j60Bank)
    (ha : a &&& addrMask < 0x1b) :
    ∃ e, bankOf e = a &&& bankMask ∧ enc28j60Write s a d =
      ⟨⟨e, s.chip.rx.set (a &&& 0x7f) d, Function.update s.chip.regs (a &&& 0x7f) d⟩,
        a &&& bankMask, s.nextPacketPtr⟩ := by
  obtain ⟨e, hbank, heq⟩ := enc28j60SetBank_eq h
  refine ⟨e, hbank, ?_⟩
  rw [enc28j60Write, heq]
  have hselect : Chip.select { s.chip with econ1 := e } (a &&& addrMask) = a &&& 0x7f :=
    select_eq hbank ha
  simp only [enc28j60WriteOp, Chip.write, hselect, Chip.set, if_neg (econ1_ne_of_lt ha)]

end banks

section shows

theorem writeWord_shows {l r : UInt8}
    (h : l &&& bankMask = s.enc28j60Bank → bankOf s.chip.econ1 = s.enc28j60Bank)
    (hl : l &&& addrMask < 0x1b) (hr : r &&& addrMask < 0x1b) :
    (writeWord s l r v).Shows ((s.chip.rx.set (l &&& 0x7f) (low v)).set (r &&& 0x7f) (high v))
      s.nextPacketPtr := by
  obtain ⟨e, hbank, heq⟩ := enc28j60Write_eq (d := low v) h hl
  obtain ⟨e', hbank', heq'⟩ := enc28j60Write_eq (s := enc28j60Write s l (low v)) (d := high v) (a := r)
    (fun _ => by rw [heq]; exact hbank) hr
  rw [heq] at heq'
  unfold writeWord
  rw [heq, heq']
  exact ⟨hbank', rfl, rfl⟩

theorem Enc.Shows.writeWord {l r : UInt8} (h : s.Shows x n) (hl : l &&& addrMask < 0x1b)
    (hr : r &&& addrMask < 0x1b) :
    (writeWord s l r v).Shows ((x.set (l &&& 0x7f) (low v)).set (r &&& 0x7f) (high v)) n := by
  have hw := writeWord_shows (s := s) (v := v) (fun _ => h.bank) hl hr
  rwa [h.rx, h.next] at hw

theorem writeWord_erdpt (h : s.Shows x n) (hv : v < 0x10000) :
    (writeWord s erdptl erdpth v).Shows { x with erdpt := v } n := by
  have hw := h.writeWord (v := v) (l := erdptl) (r := erdpth) (by decide) (by decide)
  have hset : ((x.set (erdptl &&& 0x7f) (low v)).set (erdpth &&& 0x7f) (high v)) =
      { x with erdpt := setHigh (setLow x.erdpt (low v)) (high v) } := rfl
  rwa [hset, setHigh_setLow hv] at hw

theorem writeWord_erxrdpt (h : s.Shows x n) (hv : v < 0x10000) :
    (writeWord s erxrdptl erxrdpth v).Shows { x with erxrdpt := v } n := by
  have hw := h.writeWord (v := v) (l := erxrdptl) (r := erxrdpth) (by decide) (by decide)
  have hset : ((x.set (erxrdptl &&& 0x7f) (low v)).set (erxrdpth &&& 0x7f) (high v)) =
      { x with erxrdpt := setHigh (setLow x.erxrdpt (low v)) (high v) } := rfl
  rwa [hset, setHigh_setLow hv] at hw

theorem writeWord_erxnd (h : s.Shows x n) (hv : v < 0x10000) :
    (writeWord s erxndl erxndh v).Shows { x with erxnd := v } n := by
  have hw := h.writeWord (v := v) (l := erxndl) (r := erxndh) (by decide) (by decide)
  have hset : ((x.set (erxndl &&& 0x7f) (low v)).set (erxndh &&& 0x7f) (high v)) =
      { x with erxnd := setHigh (setLow x.erxnd (low v)) (high v) } := rfl
  rwa [hset, setHigh_setLow hv] at hw

theorem writeWord_erxst (h : bankOf s.chip.econ1 = 0) (hv : v < 0x10000) :
    (writeWord s erxstl erxsth v).Shows { s.chip.rx with erxst := v } s.nextPacketPtr := by
  have hw := writeWord_shows (s := s) (v := v) (l := erxstl) (r := erxsth)
    (fun hb => by rw [← hb]; exact h) (by decide) (by decide)
  have hset : ((s.chip.rx.set (erxstl &&& 0x7f) (low v)).set (erxsth &&& 0x7f) (high v)) =
      { s.chip.rx with erxst := setHigh (setLow s.chip.rx.erxst (low v)) (high v) } := rfl
  rwa [hset, setHigh_setLow hv] at hw

theorem read_epktcnt (h : s.Shows x n) :
    (enc28j60Read s epktcnt).1.Shows x n ∧ (enc28j60Read s epktcnt).2 = UInt8.ofNat x.epktcnt := by
  obtain ⟨e, hbank, heq⟩ := enc28j60SetBank_eq (s := s) (a := epktcnt) fun _ => h.bank
  unfold enc28j60Read
  rw [heq]
  have hselect : Chip.select { s.chip with econ1 := e } (epktcnt &&& addrMask) = epktcnt &&& 0x7f :=
    select_eq hbank (by decide)
  simp only [enc28j60ReadOp, Chip.read, hselect]
  refine ⟨⟨hbank, h.rx, h.next⟩, ?_⟩
  rw [← h.rx]
  rfl

theorem readOp_shows (h : s.Shows x n) :
    (enc28j60ReadOp s .readBufMem 0).1.Shows x.readByte.1 n ∧
      (enc28j60ReadOp s .readBufMem 0).2 = x.readByte.2 := by
  simp only [enc28j60ReadOp, Chip.read]
  rw [h.rx]
  exact ⟨⟨h.bank, rfl, h.next⟩, rfl⟩

theorem pktdec_shows (h : s.Shows x n) :
    (enc28j60WriteOp s .bitFieldSet econ2 econ2Pktdec).Shows { x with epktcnt := x.epktcnt - 1 } n := by
  have hselect : s.chip.select (econ2 &&& addrMask) = econ2 := by
    unfold Chip.select
    exact if_pos (by decide)
  have hdec : True ∧ econ2Pktdec &&& econ2Pktdec ≠ 0 := by decide
  have heq : s.chip.write .bitFieldSet (econ2 &&& addrMask) econ2Pktdec =
      { s.chip with
        rx := { s.chip.rx with epktcnt := s.chip.rx.epktcnt - 1 }
        regs := Function.update s.chip.regs econ2
          (s.chip.get econ2 ||| (econ2Pktdec &&& ~~~econ2Pktdec)) } := by
    simp only [Chip.write, hselect]
    rw [if_pos hdec]
    rfl
  rw [enc28j60WriteOp, heq, h.rx]
  exact ⟨h.bank, rfl, h.next⟩

end shows

end Lpc1788Libraries.Enc28j60

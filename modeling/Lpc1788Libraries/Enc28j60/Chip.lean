import Lpc1788Libraries.Support.PageRing

namespace Lpc1788Libraries.Enc28j60

open Lpc1788Libraries.Support

def addrMask : UInt8 := 0x1f
def bankMask : UInt8 := 0x60

def econ2 : UInt8 := 0x1e
def econ1 : UInt8 := 0x1f
def erdptl : UInt8 := 0x00
def erdpth : UInt8 := 0x01
def etxstl : UInt8 := 0x04
def etxsth : UInt8 := 0x05
def etxndl : UInt8 := 0x06
def etxndh : UInt8 := 0x07
def erxstl : UInt8 := 0x08
def erxsth : UInt8 := 0x09
def erxndl : UInt8 := 0x0a
def erxndh : UInt8 := 0x0b
def erxrdptl : UInt8 := 0x0c
def erxrdpth : UInt8 := 0x0d
def epktcnt : UInt8 := 0x39

def econ1Bsel1 : UInt8 := 0x02
def econ1Bsel0 : UInt8 := 0x01
def econ2Pktdec : UInt8 := 0x40

def rxstartInit : ℕ := 0x0
def rxstopInit : ℕ := 0x1fff - 0x0600 - 1
def txstartInit : ℕ := 0x1fff - 0x0600
def txstopInit : ℕ := 0x1fff

/-- The addresses of the receive buffer. -/
def rxRing : PageRing := ⟨rxstartInit, rxstopInit, by decide⟩

/-- The receive hardware: its pointers, the packet counter and the buffer memory. -/
structure Rx where
  erdpt : ℕ
  erxst : ℕ
  erxnd : ℕ
  erxrdpt : ℕ
  erxwrpt : ℕ
  epktcnt : ℕ
  mem : ℕ → UInt8

/-- The device: ECON1 with the bank bits, the receive hardware, and the bytes written to all
other registers, by bank and address. -/
structure Chip where
  econ1 : UInt8
  rx : Rx
  regs : UInt8 → UInt8

def low (v : ℕ) : UInt8 := UInt8.ofNat (v % 0x100)
def high (v : ℕ) : UInt8 := UInt8.ofNat (v / 0x100)

def setLow (v : ℕ) (d : UInt8) : ℕ := v / 0x100 * 0x100 + d.toNat
def setHigh (v : ℕ) (d : UInt8) : ℕ := v % 0x100 + d.toNat * 0x100

/-- The bank bits as they stand in register addresses. -/
def bankOf (e : UInt8) : UInt8 := (e &&& (econ1Bsel1 ||| econ1Bsel0)) <<< 5

/-- The register that the five address bits select; the last five are the same in all banks. -/
def Chip.select (c : Chip) (address : UInt8) : UInt8 :=
  let a := address &&& addrMask
  if 0x1b ≤ a then a else bankOf c.econ1 ||| a

def Rx.set (x : Rx) (r d : UInt8) : Rx :=
  if r = Enc28j60.erdptl then { x with erdpt := setLow x.erdpt d }
  else if r = erdpth then { x with erdpt := setHigh x.erdpt d }
  else if r = erxstl then { x with erxst := setLow x.erxst d }
  else if r = erxsth then { x with erxst := setHigh x.erxst d }
  else if r = erxndl then { x with erxnd := setLow x.erxnd d }
  else if r = erxndh then { x with erxnd := setHigh x.erxnd d }
  else if r = erxrdptl then { x with erxrdpt := setLow x.erxrdpt d }
  else if r = erxrdpth then { x with erxrdpt := setHigh x.erxrdpt d }
  else x

def Chip.get (c : Chip) (r : UInt8) : UInt8 :=
  if r = Enc28j60.econ1 then c.econ1
  else if r = epktcnt then UInt8.ofNat c.rx.epktcnt
  else c.regs r

def Chip.set (c : Chip) (r d : UInt8) : Chip :=
  if r = Enc28j60.econ1 then { c with econ1 := d }
  else { c with rx := c.rx.set r d, regs := Function.update c.regs r d }

inductive ReadCommand where
  | readCtrlReg
  | readBufMem

inductive WriteCommand where
  | writeCtrlReg
  | bitFieldSet
  | bitFieldClr

/-- A read of the buffer memory moves ERDPT on, from the end of the receive buffer to its start. -/
def Rx.readByte (x : Rx) : Rx × UInt8 :=
  ({ x with erdpt := if x.erdpt = x.erxnd then x.erxst else (x.erdpt + 1) % 0x2000 }, x.mem x.erdpt)

def Chip.read (c : Chip) (op : ReadCommand) (address : UInt8) : Chip × UInt8 :=
  match op with
  | .readCtrlReg => (c, c.get (c.select address))
  | .readBufMem => ({ c with rx := c.rx.readByte.1 }, c.rx.readByte.2)

/-- A bit-field write; setting PKTDEC in ECON2 takes one from the packet counter. -/
def Chip.write (c : Chip) (op : WriteCommand) (address data : UInt8) : Chip :=
  let r := c.select address
  match op with
  | .writeCtrlReg => c.set r data
  | .bitFieldSet =>
    if r = econ2 ∧ data &&& econ2Pktdec ≠ 0 then
      let c := c.set r (c.get r ||| (data &&& ~~~econ2Pktdec))
      { c with rx := { c.rx with epktcnt := c.rx.epktcnt - 1 } }
    else c.set r (c.get r ||| data)
  | .bitFieldClr => c.set r (c.get r &&& ~~~data)

/-- The device with the driver's static variables. -/
structure Enc where
  chip : Chip
  enc28j60Bank : UInt8
  nextPacketPtr : ℕ

def enc28j60ReadOp (s : Enc) (op : ReadCommand) (address : UInt8) : Enc × UInt8 :=
  let r := s.chip.read op (address &&& addrMask)
  ({ s with chip := r.1 }, r.2)

def enc28j60WriteOp (s : Enc) (op : WriteCommand) (address data : UInt8) : Enc :=
  { s with chip := s.chip.write op (address &&& addrMask) data }

/-- The loop of `enc28j60ReadBuffer`. -/
def readBufferLoop : ℕ → Enc → Enc × List UInt8
  | 0, s => (s, [])
  | len + 1, s =>
    let b := s.chip.read .readBufMem 0
    let r := readBufferLoop len { s with chip := b.1 }
    (r.1, b.2 :: r.2)

/-- `enc28j60ReadBuffer` with the bytes it stores from `data` on, the closing zero included. -/
def enc28j60ReadBuffer (s : Enc) (len : ℕ) : Enc × List UInt8 :=
  let r := readBufferLoop len s
  (r.1, r.2 ++ [0])

def enc28j60SetBank (s : Enc) (address : UInt8) : Enc :=
  if address &&& bankMask ≠ s.enc28j60Bank then
    let s := enc28j60WriteOp s .bitFieldClr econ1 (econ1Bsel1 ||| econ1Bsel0)
    let s := enc28j60WriteOp s .bitFieldSet econ1 ((address &&& bankMask) >>> 5)
    { s with enc28j60Bank := address &&& bankMask }
  else s

def enc28j60Read (s : Enc) (address : UInt8) : Enc × UInt8 :=
  enc28j60ReadOp (enc28j60SetBank s address) .readCtrlReg address

def enc28j60Write (s : Enc) (address data : UInt8) : Enc :=
  enc28j60WriteOp (enc28j60SetBank s address) .writeCtrlReg address data

/-- Two reads of the buffer memory, put together as the low and the high byte of a word. -/
def readWord (s : Enc) : Enc × ℕ :=
  let l := enc28j60ReadOp s .readBufMem 0
  let h := enc28j60ReadOp l.1 .readBufMem 0
  (h.1, l.2.toNat ||| h.2.toNat <<< 8)

/-- The two writes of a pointer to a pair of registers. -/
def writeWord (s : Enc) (addressL addressH : UInt8) (v : ℕ) : Enc :=
  enc28j60Write (enc28j60Write s addressL (low v)) addressH (high v)

/-- The part of `enc28j60Init` that sets up the packet buffer. -/
def initBuffers (s : Enc) : Enc :=
  let s := { s with nextPacketPtr := rxstartInit }
  let s := writeWord s erxstl erxsth rxstartInit
  let s := writeWord s erxrdptl erxrdpth rxstartInit
  let s := writeWord s erxndl erxndh rxstopInit
  let s := writeWord s etxstl etxsth txstartInit
  writeWord s etxndl etxndh txstopInit

/-- The end of `enc28j60PacketReceive`: the frame's memory is given back. -/
def releaseFrame (s : Enc) : Enc :=
  let s := writeWord s erxrdptl erxrdpth s.nextPacketPtr
  let s :=
    if (s.nextPacketPtr : ℤ) - 1 < rxstartInit ∨ rxstopInit < (s.nextPacketPtr : ℤ) - 1 then
      writeWord s erxrdptl erxrdpth rxstopInit
    else writeWord s erxrdptl erxrdpth (s.nextPacketPtr - 1)
  enc28j60WriteOp s .bitFieldSet econ2 econ2Pktdec

/-- `enc28j60PacketReceive`: the length it returns and the bytes it stores from `packet` on. -/
def enc28j60PacketReceive (s : Enc) (maxlen : ℕ) : Enc × ℕ × List UInt8 :=
  let count := enc28j60Read s epktcnt
  if count.2 = 0 then (count.1, 0, [])
  else
    let s := writeWord count.1 erdptl erdpth count.1.nextPacketPtr
    let next := readWord s
    let s := { next.1 with nextPacketPtr := next.2 }
    let length := readWord s
    let len := (length.2 + 0x10000 - 4) % 0x10000
    let rxstat := readWord length.1
    let len := if (maxlen : ℤ) - 1 < len then (maxlen + 0xffff) % 0x10000 else len
    if rxstat.2 &&& 0x80 = 0 then (releaseFrame rxstat.1, 0, [])
    else
      let r := enc28j60ReadBuffer rxstat.1 len
      (releaseFrame r.1, len, r.2)

end Lpc1788Libraries.Enc28j60

import Lpc1788Libraries.Enc28j60.Chip
import Lpc1788Libraries.Support.Waiting

namespace Lpc1788Libraries.Enc28j60

open Lpc1788Libraries.Support

section registers

def eie : UInt8 := 0x1b
def ewrptl : UInt8 := 0x02
def ewrpth : UInt8 := 0x03
def epmm0 : UInt8 := 0x28
def epmm1 : UInt8 := 0x29
def epmcsl : UInt8 := 0x30
def epmcsh : UInt8 := 0x31
def erxfcon : UInt8 := 0x38
def macon1 : UInt8 := 0xc0
def macon2 : UInt8 := 0xc1
def macon3 : UInt8 := 0xc2
def mabbipg : UInt8 := 0xc4
def maipgl : UInt8 := 0xc6
def maipgh : UInt8 := 0xc7
def mamxfll : UInt8 := 0xca
def mamxflh : UInt8 := 0xcb
def micmd : UInt8 := 0xd2
def miregadr : UInt8 := 0xd4
def miwrl : UInt8 := 0xd6
def miwrh : UInt8 := 0xd7
def mirdl : UInt8 := 0xd8
def mirdh : UInt8 := 0xd9
def maadr1 : UInt8 := 0xe0
def maadr0 : UInt8 := 0xe1
def maadr3 : UInt8 := 0xe2
def maadr2 : UInt8 := 0xe3
def maadr5 : UInt8 := 0xe4
def maadr4 : UInt8 := 0xe5
def mistat : UInt8 := 0xea
def erevid : UInt8 := 0x72
def ecocon : UInt8 := 0x75

def phid1 : UInt8 := 0x02
def phid2 : UInt8 := 0x03
def phcon2 : UInt8 := 0x10
def phstat2 : UInt8 := 0x11

def econ1Txrst : UInt8 := 0x80
def econ1Txrts : UInt8 := 0x08
def econ1Rxen : UInt8 := 0x04
def erxfconCrcen : UInt8 := 0x20
def macon1Txpaus : UInt8 := 0x08
def macon1Rxpaus : UInt8 := 0x04
def macon1Marxen : UInt8 := 0x01
def macon3Padcfg0 : UInt8 := 0x20
def macon3Txcrcen : UInt8 := 0x10
def macon3Frmlnen : UInt8 := 0x02
def micmdMiird : UInt8 := 0x01
def mistatBusy : UInt8 := 0x01
def phcon2Hdldis : UInt16 := 0x0100
def phstat2Lstat : UInt16 := 0x0400

def maxFramelen : ℕ := 1500

end registers

/-- A soft reset, after which the first bank is selected. -/
def Chip.softReset (c : Chip) : Chip := { c with econ1 := 0 }

/-- A byte for the buffer memory goes where EWRPT points, and moves it on. -/
def Chip.writeByte (c : Chip) (d : UInt8) : Chip :=
  let p := (c.regs ewrptl).toNat + (c.regs ewrpth).toNat * 0x100
  let next := (p + 1) % 0x2000
  { c with
    rx := { c.rx with mem := Function.update c.rx.mem p d }
    regs := Function.update (Function.update c.regs ewrptl (low next)) ewrpth (high next) }

/-- What the device does by itself after each command; it leaves the bank bits alone. -/
structure Hardware where
  change : ℕ → Chip → Chip
  bank : ∀ n c, bankOf (change n c).econ1 = bankOf c.econ1

/-- A register command, with the bank that is selected when the device gets it. -/
structure Access where
  address : UInt8
  bank : UInt8
  deriving DecidableEq

/-- The register is the same in all banks, or the bank is its own. -/
def Access.Right (a : Access) : Prop := a.address &&& addrMask < 0x1b → a.bank = a.address &&& bankMask

/-- The device with the driver's variables, and the register commands it got. -/
structure Bus where
  enc : Enc
  accesses : List Access
  commands : ℕ

abbrev BusM := Waiting Bus

namespace Bus

variable (hw : Hardware) (polls : ℕ)

def command {β : Type} (f : Enc → Enc × β) (register : Option UInt8) : BusM β := fun b =>
  let r := f b.enc
  (some r.2,
    { enc := { r.1 with chip := hw.change b.commands r.1.chip }
      accesses := (register.map fun a => ⟨a, bankOf b.enc.chip.econ1⟩).toList ++ b.accesses
      commands := b.commands + 1 })

def readCtrlReg (address : UInt8) : BusM UInt8 :=
  command hw (fun s => enc28j60ReadOp s .readCtrlReg address) (some address)

def readBufMem : BusM UInt8 := command hw (fun s => enc28j60ReadOp s .readBufMem 0) none

def enc28j60WriteOp (op : WriteCommand) (address data : UInt8) : BusM Unit :=
  command hw (fun s => (Enc28j60.enc28j60WriteOp s op address data, ())) (some address)

def softReset : BusM Unit := command hw (fun s => ({ s with chip := s.chip.softReset }, ())) none

def enc28j60ReadBuffer (len : ℕ) : BusM (List UInt8) := command hw (fun s => Enc28j60.enc28j60ReadBuffer s len) none

def enc28j60WriteBuffer (data : List UInt8) : BusM Unit :=
  command hw (fun s => ({ s with chip := data.foldl Chip.writeByte s.chip }, ())) none

def enc28j60SetBank (address : UInt8) : BusM Unit := do
  let b ← Waiting.get
  if address &&& bankMask ≠ b.enc.enc28j60Bank then
    enc28j60WriteOp hw .bitFieldClr econ1 (econ1Bsel1 ||| econ1Bsel0)
    enc28j60WriteOp hw .bitFieldSet econ1 ((address &&& bankMask) >>> 5)
    Waiting.modify fun b => { b with enc := { b.enc with enc28j60Bank := address &&& bankMask } }
  else pure ()

def enc28j60Read (address : UInt8) : BusM UInt8 := do
  enc28j60SetBank hw address
  readCtrlReg hw address

def enc28j60Write (address data : UInt8) : BusM Unit := do
  enc28j60SetBank hw address
  enc28j60WriteOp hw .writeCtrlReg address data

def phyBusy : BusM Bool := do
  let stat ← enc28j60Read hw mistat
  pure (stat &&& mistatBusy ≠ 0)

def enc28j60PhyWrite (address : UInt8) (data : UInt16) : BusM Unit := do
  enc28j60Write hw miregadr address
  enc28j60Write hw miwrl data.toUInt8
  enc28j60Write hw miwrh (data >>> 8).toUInt8
  Waiting.waitWhile (phyBusy hw) (pure ()) polls

def enc28j60PhyRead (address : UInt8) : BusM UInt16 := do
  enc28j60Write hw miregadr address
  enc28j60Write hw micmd micmdMiird
  Waiting.waitWhile (phyBusy hw) (pure ()) polls
  enc28j60Write hw micmd 0x00
  let h ← enc28j60Read hw mirdh
  let l ← enc28j60Read hw mirdl
  pure (h.toUInt16 <<< 8 ||| l.toUInt16)

def enc28j60clkout (clk : UInt8) : BusM Unit := enc28j60Write hw ecocon (clk &&& 0x7)

def enc28j60getrev : BusM UInt8 := enc28j60Read hw erevid

structure PhyId where
  revLev : UInt8
  partNo : UInt8
  revId : UInt8
  oui : UInt32

def enc28j60GetOUI : BusM PhyId := do
  let phid1 ← enc28j60PhyRead hw polls phid1
  let phid2 ← enc28j60PhyRead hw polls phid2
  let revId ← enc28j60getrev hw
  pure
    { partNo := ((phid2 &&& 0x03f0) >>> 4).toUInt8
      revLev := (phid2 &&& 0x000F).toUInt8
      revId
      oui := (phid2.toUInt32 &&& 0x0000FC00) <<< 6 ||| phid1.toUInt32 }

def enc28j60linkup : BusM Bool := do
  let stat ← enc28j60PhyRead hw polls phstat2
  pure (stat &&& phstat2Lstat ≠ 0)

def writeWord (addressL addressH : UInt8) (v : ℕ) : BusM Unit := do
  enc28j60Write hw addressL (low v)
  enc28j60Write hw addressH (high v)

def initReceive : BusM Unit := do
  Waiting.modify fun b => { b with enc := { b.enc with nextPacketPtr := rxstartInit } }
  writeWord hw erxstl erxsth rxstartInit
  writeWord hw erxrdptl erxrdpth rxstartInit
  writeWord hw erxndl erxndh rxstopInit
  writeWord hw etxstl etxsth txstartInit
  writeWord hw etxndl etxndh txstopInit

def initFilter : BusM Unit := do
  enc28j60Write hw erxfcon erxfconCrcen
  enc28j60Write hw epmm0 0x3f
  enc28j60Write hw epmm1 0x30
  enc28j60Write hw epmcsl 0xf9
  enc28j60Write hw epmcsh 0xf7

def initMac : BusM Unit := do
  enc28j60Write hw macon1 (macon1Marxen ||| macon1Txpaus ||| macon1Rxpaus)
  enc28j60Write hw macon2 0x00
  enc28j60WriteOp hw .bitFieldSet macon3 (macon3Padcfg0 ||| macon3Txcrcen ||| macon3Frmlnen)
  enc28j60Write hw maipgl 0x12
  enc28j60Write hw maipgh 0x0C
  enc28j60Write hw mabbipg 0x12
  writeWord hw mamxfll mamxflh maxFramelen

def initAddress (oui : UInt32) : BusM Unit := do
  enc28j60Write hw maadr5 ((oui &&& 0x00FF0000) >>> 16).toUInt8
  enc28j60Write hw maadr4 ((oui &&& 0x0000FF00) >>> 8).toUInt8
  enc28j60Write hw maadr3 (oui &&& 0x000000FF).toUInt8
  enc28j60Write hw maadr2 0x14
  enc28j60Write hw maadr1 0x12
  enc28j60Write hw maadr0 0x66

def enc28j60Init : BusM Unit := do
  let phy ← enc28j60GetOUI hw polls
  softReset hw
  initReceive hw
  initFilter hw
  initMac hw
  initAddress hw phy.oui
  enc28j60PhyWrite hw polls phcon2 phcon2Hdldis
  enc28j60SetBank hw econ1
  enc28j60WriteOp hw .bitFieldSet eie 0
  enc28j60WriteOp hw .bitFieldSet econ1 econ1Rxen

def transmitBusy : BusM Bool := do
  let e ← readCtrlReg hw econ1
  pure (e &&& econ1Txrts ≠ 0)

def resetTransmit : BusM Unit := do
  enc28j60WriteOp hw .bitFieldSet econ1 econ1Txrst
  enc28j60WriteOp hw .bitFieldClr econ1 econ1Txrst

/-- `packet` are the bytes of the packet, of which there are `len`. -/
def enc28j60PacketSend (packet : List UInt8) : BusM Unit := do
  Waiting.waitWhile (transmitBusy hw) (resetTransmit hw) polls
  writeWord hw ewrptl ewrpth txstartInit
  writeWord hw etxndl etxndh (txstartInit + packet.length)
  enc28j60WriteBuffer hw [0x00]
  enc28j60WriteBuffer hw packet
  enc28j60WriteOp hw .bitFieldSet econ1 econ1Txrts

def readWord : BusM ℕ := do
  let l ← readBufMem hw
  let h ← readBufMem hw
  pure (l.toNat ||| h.toNat <<< 8)

def releaseFrame : BusM Unit := do
  let b ← Waiting.get
  writeWord hw erxrdptl erxrdpth b.enc.nextPacketPtr
  let b ← Waiting.get
  if (b.enc.nextPacketPtr : ℤ) - 1 < rxstartInit ∨ rxstopInit < (b.enc.nextPacketPtr : ℤ) - 1 then
    writeWord hw erxrdptl erxrdpth rxstopInit
  else writeWord hw erxrdptl erxrdpth (b.enc.nextPacketPtr - 1)
  enc28j60WriteOp hw .bitFieldSet econ2 econ2Pktdec

def enc28j60PacketReceive (maxlen : ℕ) : BusM (ℕ × List UInt8) := do
  let count ← enc28j60Read hw epktcnt
  if count = 0 then pure (0, [])
  else
    let b ← Waiting.get
    writeWord hw erdptl erdpth b.enc.nextPacketPtr
    let next ← readWord hw
    Waiting.modify fun b => { b with enc := { b.enc with nextPacketPtr := next } }
    let len ← readWord hw
    let len := (len + 0x10000 - 4) % 0x10000
    let rxstat ← readWord hw
    let len := if (maxlen : ℤ) - 1 < len then (maxlen + 0xffff) % 0x10000 else len
    if rxstat &&& 0x80 = 0 then
      releaseFrame hw
      pure (0, [])
    else
      let bytes ← enc28j60ReadBuffer hw len
      releaseFrame hw
      pure (len, bytes)

/-- The calls of the driver's interface. -/
inductive Call
  | init
  | read (address : UInt8)
  | write (address data : UInt8)
  | phyRead (address : UInt8)
  | phyWrite (address : UInt8) (data : UInt16)
  | clkout (clk : UInt8)
  | getOUI
  | linkup
  | packetSend (packet : List UInt8)
  | packetReceive (maxlen : ℕ)

def Call.exec : Call → BusM Unit
  | init => enc28j60Init hw polls
  | read address => do
    let _ ← enc28j60Read hw address
    pure ()
  | write address data => enc28j60Write hw address data
  | phyRead address => do
    let _ ← enc28j60PhyRead hw polls address
    pure ()
  | phyWrite address data => enc28j60PhyWrite hw polls address data
  | clkout clk => enc28j60clkout hw clk
  | getOUI => do
    let _ ← enc28j60GetOUI hw polls
    pure ()
  | linkup => do
    let _ ← enc28j60linkup hw polls
    pure ()
  | packetSend packet => enc28j60PacketSend hw polls packet
  | packetReceive maxlen => do
    let _ ← enc28j60PacketReceive hw maxlen
    pure ()

def execCalls : List Call → BusM Unit
  | [] => pure ()
  | c :: calls => do
    c.exec hw polls
    execCalls calls

end Bus

end Lpc1788Libraries.Enc28j60

import Lpc1788Libraries.Support.PageRing
import Lpc1788Libraries.Support.NorFlash

namespace Lpc1788Libraries.DataManager

open Lpc1788Libraries.Support NorFlash

inductive LogFsCfgType
  | linear
  | circular
  deriving DecidableEq, Repr

/-- The options of `log_fs_cfg.h`. The fields about them are the `#error` checks of `log_fs.h` and the size
assertion of `log_fs_init`; that a page holds a file block and that its size is a `uint16_t` is assumed. -/
structure LogFsCfg where
  pageSize : ℕ
  pageStart : ℕ
  pageEnd : ℕ
  recDataSize : ℕ
  type : LogFsCfgType
  maxPages : ℕ
  /-- `DBG` is set and `DBG_CFG_LEVEL` is not zero, so that `DBG_ASSERT` can block. -/
  dbg : Bool
  maxPages_le : maxPages ≤ pageEnd - pageStart + 1
  pageStart_lt : pageStart < pageEnd
  pageEnd_lt : pageEnd < 0x8000
  pageEnd_maxPages_lt : pageEnd + maxPages < 0xffff
  fileBlock_le : 13 ≤ pageSize
  recBlock_le : 4 + (recDataSize + 2) ≤ pageSize
  pageSize_lt : pageSize < 0x10000

def logFsPageInvalid : ℕ := 0xffff

def logFsMarkerFree : UInt8 := 0xff
def logFsMarkerFile : UInt8 := 0x2f
def logFsMarkerRecord : UInt8 := 0x1f
def logFsMarkerBad : UInt8 := 0x00

structure LogFsPageHeader where
  marker : UInt8
  nr : ℕ
  crc : UInt8
  deriving DecidableEq, Repr

structure LogFsTimeStamp where
  year : UInt8
  month : UInt8
  day : UInt8
  hour : UInt8
  min : UInt8
  sec : UInt8
  deriving DecidableEq, Repr

structure LogFsFile where
  startPage : ℕ
  timeStamp : LogFsTimeStamp
  deriving DecidableEq, Repr

structure LogFsFileInfo where
  file : LogFsFile
  crc : UInt8
  deriving DecidableEq, Repr

structure LogFsRecBlock where
  marker : UInt8
  data : List UInt8
  crc : UInt8
  deriving DecidableEq, Repr

structure LogFsAdr where
  page : ℕ
  offset : ℕ
  deriving DecidableEq, Repr

/-- The static variable `log_fs`. -/
structure LogFs where
  pageHeader : LogFsPageHeader
  fileInfo : LogFsFileInfo
  recordBlock : LogFsRecBlock
  filePageFirst : ℕ
  filePageLast : ℕ
  filePageNrNext : ℕ
  recPageFirst : ℕ
  recPageLast : ℕ
  recPageNrNext : ℕ
  recAdrRd : LogFsAdr
  recAdrWr : LogFsAdr
  deriving DecidableEq, Repr

inductive LogFsErr
  | none
  | fileDoesNotExist
  | fileAlreadyExists
  | fileInvalid
  | empty
  | full
  | writeFail
  | noFile
  | noRecord
  deriving DecidableEq, Repr

def pageHeaderSize : ℕ := 4

def fileInfoSize : ℕ := 9

def recOffsetFirst : ℕ := pageHeaderSize

namespace LogFsCfg

variable (c : LogFsCfg)

def ring : PageRing := ⟨c.pageStart, c.pageEnd, Nat.le_of_lt c.pageStart_lt⟩

def recBlockSize : ℕ := c.recDataSize + 2

def recPageDataSize : ℕ := c.pageSize - pageHeaderSize

def recordsPerPage : ℕ := c.recPageDataSize / c.recBlockSize

def recOffsetLast : ℕ := pageHeaderSize + (c.recordsPerPage - 1) * c.recBlockSize

end LogFsCfg

def u16Lo (x : ℕ) : UInt8 := UInt8.ofNat (x % 256)

def u16Hi (x : ℕ) : UInt8 := UInt8.ofNat (x / 256 % 256)

def u16Of (lo hi : UInt8) : ℕ := lo.toNat + 256 * hi.toNat

theorem u16Of_lo_hi {x : ℕ} (h : x < 0x10000) : u16Of (u16Lo x) (u16Hi x) = x := by
  simp only [u16Of, u16Lo, u16Hi, UInt8.toNat_ofNat']
  omega

theorem u16Of_lt (lo hi : UInt8) : u16Of lo hi < 0x10000 := by
  have := lo.toNat_lt
  have := hi.toNat_lt
  simp only [u16Of]
  omega

namespace LogFsPageHeader

/-- The bytes that the CRC covers. -/
def body (h : LogFsPageHeader) : List UInt8 := [h.marker, u16Lo h.nr, u16Hi h.nr]

def toBytes (h : LogFsPageHeader) : List UInt8 := h.body ++ [h.crc]

def ofBytes (b : List UInt8) : LogFsPageHeader :=
  ⟨b.getD 0 0, u16Of (b.getD 1 0) (b.getD 2 0), b.getD 3 0⟩

@[simp] theorem length_toBytes (h : LogFsPageHeader) : h.toBytes.length = pageHeaderSize := rfl

theorem ofBytes_toBytes {h : LogFsPageHeader} (hn : h.nr < 0x10000) : ofBytes h.toBytes = h := by
  simp [ofBytes, toBytes, body, u16Of_lo_hi hn]

end LogFsPageHeader

namespace LogFsTimeStamp

def toBytes (t : LogFsTimeStamp) : List UInt8 := [t.year, t.month, t.day, t.hour, t.min, t.sec]

end LogFsTimeStamp

namespace LogFsFileInfo

def body (i : LogFsFileInfo) : List UInt8 :=
  [u16Lo i.file.startPage, u16Hi i.file.startPage] ++ i.file.timeStamp.toBytes

def toBytes (i : LogFsFileInfo) : List UInt8 := i.body ++ [i.crc]

def ofBytes (b : List UInt8) : LogFsFileInfo :=
  ⟨⟨u16Of (b.getD 0 0) (b.getD 1 0),
    ⟨b.getD 2 0, b.getD 3 0, b.getD 4 0, b.getD 5 0, b.getD 6 0, b.getD 7 0⟩⟩, b.getD 8 0⟩

@[simp] theorem length_toBytes (i : LogFsFileInfo) : i.toBytes.length = fileInfoSize := rfl

theorem ofBytes_toBytes {i : LogFsFileInfo} (h : i.file.startPage < 0x10000) :
    ofBytes i.toBytes = i := by
  simp [ofBytes, toBytes, body, LogFsTimeStamp.toBytes, u16Of_lo_hi h]

end LogFsFileInfo

namespace LogFsRecBlock

def body (b : LogFsRecBlock) : List UInt8 := b.marker :: b.data

def toBytes (b : LogFsRecBlock) : List UInt8 := b.body ++ [b.crc]

def ofBytes (n : ℕ) (b : List UInt8) : LogFsRecBlock :=
  ⟨b.getD 0 0, (b.drop 1).take n, b.getD (n + 1) 0⟩

@[simp] theorem length_toBytes (b : LogFsRecBlock) : b.toBytes.length = b.data.length + 2 := by
  simp [toBytes, body]

theorem ofBytes_toBytes (b : LogFsRecBlock) : ofBytes b.data.length b.toBytes = b := by
  simp [ofBytes, toBytes, body]

end LogFsRecBlock

/-- One shift of the inner loop of `log_fs_crc_calc`. -/
def logFsCrcShift (crc : UInt8) : UInt8 :=
  if crc &&& 1 ≠ 0 then (crc >>> 1) ^^^ 0xb2 else crc >>> 1

def logFsCrcByte (crc byte : UInt8) : UInt8 := logFsCrcShift^[8] (crc ^^^ byte)

def logFsCrcCalc (data : List UInt8) : UInt8 := data.foldl logFsCrcByte 0xff

def logFsCrcPageHeader (h : LogFsPageHeader) : UInt8 := logFsCrcCalc h.body

def logFsCrcFileInfo (i : LogFsFileInfo) : UInt8 := logFsCrcCalc i.body

def logFsCrcRecordBlock (b : LogFsRecBlock) : UInt8 := logFsCrcCalc b.body

end Lpc1788Libraries.DataManager

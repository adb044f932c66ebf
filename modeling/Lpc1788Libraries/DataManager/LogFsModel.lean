import Lpc1788Libraries.Support.BoundedProgram
import Lpc1788Libraries.DataManager.LogFsTypes

namespace Lpc1788Libraries.DataManager

open Lpc1788Libraries.Support NorFlash BoundedProgram

/-- The memory of the program and of the device. `images` holds the flash contents that the
page primitives have replaced, newest first. -/
structure Sys where
  logFs : LogFs
  flash : Pages
  images : List Pages

abbrev SysM := Prog Sys

def setLogFs (f : LogFs → LogFs) : SysM Unit := Prog.modify fun s => { s with logFs := f s.logFs }

def getLogFs : SysM LogFs := do return (← Prog.get).logFs

def Sys.putFlash (s : Sys) (f : Pages) : Sys := { s with flash := f, images := s.flash :: s.images }

def at45dRdPageOffset (page startByteInPage nrOfBytes : ℕ) : SysM (List UInt8) := do
  return (← Prog.get).flash.read page startByteInPage nrOfBytes

def at45dWrPageOffset (data : List UInt8) (page startByteInPage : ℕ) : SysM Unit :=
  Prog.modify fun s => s.putFlash (s.flash.program page startByteInPage data)

def at45dErasePage (page : ℕ) : SysM Unit := Prog.modify fun s => s.putFlash (s.flash.erase page)

variable (c : LogFsCfg)

/-- `DBG_ASSERT` that a page lies in the file system. -/
def dbgAssertPage (page : ℕ) : SysM Unit :=
  Prog.check (c.dbg = true → c.pageStart ≤ page ∧ page ≤ c.pageEnd)

def logFsPageNext (page : ℕ) : SysM ℕ := do
  dbgAssertPage c page
  return if page = c.pageEnd then c.pageStart else (page + 1) % 0x10000

def logFsPagePrevious (page : ℕ) : SysM ℕ := do
  dbgAssertPage c page
  return if page = c.pageStart then c.pageEnd else (page + 0xffff) % 0x10000

def validMarker (marker : UInt8) : Prop :=
  marker = logFsMarkerFree ∨ marker = logFsMarkerFile ∨ marker = logFsMarkerRecord ∨
    marker = logFsMarkerBad

instance (marker : UInt8) : Decidable (validMarker marker) :=
  inferInstanceAs (Decidable (_ ∨ _ ∨ _ ∨ _))

def logFsMarkerRd (page offset : ℕ) : SysM UInt8 := do
  let marker := (← at45dRdPageOffset page offset 1).getD 0 0
  if validMarker marker then
    return marker
  else
    at45dWrPageOffset [logFsMarkerBad] page offset
    return logFsMarkerBad

def logFsMarkerWr (marker : UInt8) (page offset : ℕ) : SysM Bool := do
  at45dWrPageOffset [marker] page offset
  let markerRd ← logFsMarkerRd page offset
  if markerRd ≠ marker then
    at45dWrPageOffset [logFsMarkerBad] page offset
    return false
  else
    return true

def logFsPageHeaderRd (page : ℕ) : SysM UInt8 := do
  let marker ← logFsMarkerRd page 0
  if marker = logFsMarkerFree ∨ marker = logFsMarkerBad then
    return marker
  else
    let bytes ← at45dRdPageOffset page 0 pageHeaderSize
    let header := LogFsPageHeader.ofBytes bytes
    setLogFs fun l => { l with pageHeader := header }
    if logFsCrcPageHeader header ≠ header.crc then
      let _ ← logFsMarkerWr logFsMarkerBad page 0
      return logFsMarkerBad
    else
      return header.marker

def logFsPageHeaderWr (page : ℕ) : SysM Bool := do
  setLogFs fun l => { l with pageHeader := { l.pageHeader with crc := logFsCrcPageHeader l.pageHeader } }
  let header := (← getLogFs).pageHeader
  at45dWrPageOffset header.toBytes page 0
  let pageHeaderRd ← at45dRdPageOffset page 0 pageHeaderSize
  if pageHeaderRd = header.toBytes then
    return true
  else
    let _ ← logFsMarkerWr logFsMarkerBad page 0
    return false

def logFsFileBlockRd (page : ℕ) : SysM Bool := do
  if (← logFsPageHeaderRd page) ≠ logFsMarkerFile then
    return false
  else
    let bytes ← at45dRdPageOffset page pageHeaderSize fileInfoSize
    let info := LogFsFileInfo.ofBytes bytes
    setLogFs fun l => { l with fileInfo := info }
    if info.crc ≠ logFsCrcFileInfo info then
      let _ ← logFsMarkerWr logFsMarkerBad page 0
      return false
    else if info.file.startPage ≠ page then
      let _ ← logFsMarkerWr logFsMarkerBad page 0
      return false
    else
      return true

def LogFsFileInfo.forPage (i : LogFsFileInfo) (page : ℕ) : LogFsFileInfo :=
  let file := { i.file with startPage := page }
  ⟨file, logFsCrcFileInfo ⟨file, i.crc⟩⟩

def logFsFileBlockWr (page : ℕ) : SysM Bool := do
  setLogFs fun l => { l with pageHeader := { l.pageHeader with marker := logFsMarkerFile } }
  if !(← logFsPageHeaderWr page) then
    return false
  else
    setLogFs fun l => { l with fileInfo := l.fileInfo.forPage page }
    let info := (← getLogFs).fileInfo
    at45dWrPageOffset info.toBytes page pageHeaderSize
    let fileBlockRd ← at45dRdPageOffset page pageHeaderSize fileInfoSize
    if fileBlockRd = info.toBytes then
      return true
    else
      let _ ← logFsMarkerWr logFsMarkerBad page 0
      return false

def logFsRecordBlockRd (page offset : ℕ) : SysM Bool := do
  if (← logFsMarkerRd page offset) ≠ logFsMarkerRecord then
    return false
  else
    let bytes ← at45dRdPageOffset page offset c.recBlockSize
    let block := LogFsRecBlock.ofBytes c.recDataSize bytes
    setLogFs fun l => { l with recordBlock := block }
    if block.crc ≠ logFsCrcRecordBlock block then
      let _ ← logFsMarkerWr logFsMarkerBad page offset
      return false
    else
      return true

def LogFsRecBlock.seal (data : List UInt8) : LogFsRecBlock :=
  ⟨logFsMarkerRecord, data, logFsCrcRecordBlock ⟨logFsMarkerRecord, data, 0⟩⟩

def logFsRecordBlockWr (page offset : ℕ) : SysM Bool := do
  if c.pageSize ≤ offset + c.recBlockSize then
    return false
  else
    setLogFs fun l => { l with recordBlock := .seal l.recordBlock.data }
    let block := (← getLogFs).recordBlock
    at45dWrPageOffset block.toBytes page offset
    let recordBlockRd ← at45dRdPageOffset page offset c.recBlockSize
    if recordBlockRd ≠ block.toBytes then
      let _ ← logFsMarkerWr logFsMarkerBad page offset
      return false
    else
      return true

def logFsRecordPagesBoundStart : SysM ℕ := do
  logFsPageNext c (← getLogFs).fileInfo.file.startPage

def logFsRecordPagesBoundEnd : SysM ℕ := do
  let filePage := (← getLogFs).fileInfo.file.startPage
  if c.maxPages ≠ 0 then
    let filePage := (filePage + c.maxPages) % 0x10000
    return if c.pageEnd < filePage then filePage - (c.pageEnd - c.pageStart) else filePage
  else
    logFsPagePrevious c filePage

def findFirstRound (marker : UInt8) (pageEnd page : ℕ) : SysM (ℕ ⊕ ℕ) := do
  if (← logFsPageHeaderRd page) = marker then
    return .inr page
  else if page = pageEnd then
    return .inr logFsPageInvalid
  else
    return .inl (← logFsPageNext c page)

def logFsPageHeaderFindFirst (marker : UInt8) (pageStart pageEnd : ℕ) : SysM ℕ := do
  dbgAssertPage c pageStart
  dbgAssertPage c pageEnd
  Prog.loop (findFirstRound c marker pageEnd) pageStart

def findNextRound (marker : UInt8) (pageStart pageEnd pageCurrent page : ℕ) : SysM (ℕ ⊕ ℕ) := do
  let page ← if page = pageEnd then pure pageStart else logFsPageNext c page
  if page = pageCurrent then
    return .inr logFsPageInvalid
  else if (← logFsPageHeaderRd page) = marker then
    return .inr page
  else
    return .inl page

def logFsPageHeaderFindNext (marker : UInt8) (pageStart pageEnd pageCurrent : ℕ) : SysM ℕ := do
  dbgAssertPage c pageStart
  dbgAssertPage c pageEnd
  dbgAssertPage c pageCurrent
  Prog.loop (findNextRound c marker pageStart pageEnd pageCurrent) pageCurrent

def LogFs.zero : LogFs where
  pageHeader := ⟨0, 0, 0⟩
  fileInfo := ⟨⟨0, 0, 0, 0, 0, 0, 0⟩, 0⟩
  recordBlock := ⟨0, List.replicate c.recDataSize 0, 0⟩
  filePageFirst := 0
  filePageLast := 0
  filePageNrNext := 0
  recPageFirst := 0
  recPageLast := 0
  recPageNrNext := 0
  recAdrRd := ⟨0, 0⟩
  recAdrWr := ⟨0, 0⟩

/-- `log_fs_nr_t` arithmetic. -/
def nrDiff (nrNext nr : ℕ) : ℕ := (nrNext + 0x10000 - nr) % 0x10000

def largestDiffRound (marker : UInt8) (pageStart pageEnd : ℕ) (save : ℕ → ℕ → ℕ → LogFs → LogFs)
    (pageFirst : ℕ) : ℕ × ℕ → SysM (ℕ × ℕ ⊕ Unit) := fun (page, diffLargest) => do
  let nr := (← getLogFs).pageHeader.nr
  let pageNext ← logFsPageHeaderFindNext c marker pageStart pageEnd page
  if pageNext = logFsPageInvalid then
    setLogFs (save page page ((nr + 1) % 0x10000))
    return .inr ()
  else
    let nrNext := (← getLogFs).pageHeader.nr
    let diff := nrDiff nrNext nr
    if diffLargest < diff then
      setLogFs (save pageNext page ((nr + 1) % 0x10000))
    let diffLargest := if diffLargest < diff then diff else diffLargest
    if pageNext ≠ pageFirst then
      return .inl (pageNext, diffLargest)
    else
      return .inr ()

/-- The search for the largest difference of rolling numbers, which `log_fs_init` makes over the
FILE pages and `log_fs_open` over the RECORD pages. `save` keeps the candidates for the first
and the last page and the next number. -/
def largestDiff (marker : UInt8) (pageStart pageEnd : ℕ) (save : ℕ → ℕ → ℕ → LogFs → LogFs)
    (pageFirst : ℕ) : SysM Unit :=
  Prog.loop (largestDiffRound c marker pageStart pageEnd save pageFirst) (pageFirst, 0)

def saveFilePages (first last nrNext : ℕ) (l : LogFs) : LogFs :=
  { l with filePageFirst := first, filePageLast := last, filePageNrNext := nrNext }

def saveRecPages (first last nrNext : ℕ) (l : LogFs) : LogFs :=
  { l with recPageFirst := first, recPageLast := last, recPageNrNext := nrNext }

def logFsInit : SysM LogFsErr := do
  setLogFs fun _ => LogFs.zero c
  let filePageFirst ← logFsPageHeaderFindFirst c logFsMarkerFile c.pageStart c.pageEnd
  if filePageFirst = logFsPageInvalid then
    setLogFs fun l => { l with filePageFirst := logFsPageInvalid, filePageLast := logFsPageInvalid }
    return .none
  else
    largestDiff c logFsMarkerFile c.pageStart c.pageEnd saveFilePages filePageFirst
    return .none

def resetRecords (page : ℕ) (l : LogFs) : LogFs :=
  { l with
    recPageFirst := logFsPageInvalid, recPageLast := logFsPageInvalid, recPageNrNext := 0
    recAdrRd := { l.recAdrRd with page := logFsPageInvalid }
    recAdrWr := ⟨page, recOffsetFirst⟩ }

def lastRecordRound : ℕ × ℕ → SysM (ℕ × ℕ ⊕ ℕ) := fun (page, pageLastRecord) => do
  let page ← logFsPageNext c page
  let marker ← logFsPageHeaderRd page
  let pageLastRecord := if marker = logFsMarkerRecord then page else pageLastRecord
  if marker ≠ logFsMarkerFile then
    return .inl (page, pageLastRecord)
  else
    return .inr pageLastRecord

def freePageRound (page : ℕ) : SysM (ℕ ⊕ ℕ) := do
  if (← logFsMarkerRd page 0) = logFsMarkerFree then
    return .inr page
  else
    let page := (page + 1) % 0x10000
    if page ≤ c.pageEnd then
      return .inl page
    else
      return .inr c.pageStart

/-- The page that `log_fs_create` takes, or `none` when the file system is full. -/
def createPage : SysM (Option ℕ) := do
  let filePageLast := (← getLogFs).filePageLast
  if filePageLast ≠ logFsPageInvalid then
    let pageLastRecord ← Prog.loop (lastRecordRound c) (filePageLast, filePageLast)
    let pageNewFile ← logFsPageNext c pageLastRecord
    if (← logFsMarkerRd pageNewFile 0) = logFsMarkerFile then
      return none
    else if (← logFsMarkerRd (← logFsPageNext c pageNewFile) 0) = logFsMarkerFile then
      return none
    else
      return some pageNewFile
  else
    return some (← Prog.loop (freePageRound c) c.pageStart)

def eraseIfNotFree (page : ℕ) : SysM Unit := do
  if (← logFsMarkerRd page 0) ≠ logFsMarkerFree then
    at45dErasePage page
  else
    return ()

def logFsCreate (timeStamp : LogFsTimeStamp) : SysM LogFsErr := do
  match ← createPage c with
  | none => return .full
  | some pageNewFile =>
    eraseIfNotFree pageNewFile
    setLogFs fun l => { l with
      pageHeader := { l.pageHeader with nr := l.filePageNrNext }
      fileInfo := { l.fileInfo with file := { l.fileInfo.file with timeStamp := timeStamp } } }
    if !(← logFsFileBlockWr pageNewFile) then
      return .writeFail
    else
      setLogFs fun l => { l with
        filePageLast := pageNewFile
        filePageFirst := if l.filePageFirst = logFsPageInvalid then pageNewFile else l.filePageFirst
        filePageNrNext := (l.filePageNrNext + 1) % 0x10000 }
      let page ← logFsPageNext c pageNewFile
      eraseIfNotFree page
      setLogFs (resetRecords page)
      return .none

def logFsFileFindFirst : SysM (LogFsErr × Option LogFsFile) := do
  let l ← getLogFs
  if l.filePageFirst = logFsPageInvalid then
    return (.noFile, none)
  else if !(← logFsFileBlockRd l.filePageFirst) then
    return (.fileInvalid, none)
  else
    return (.none, some (← getLogFs).fileInfo.file)

def logFsFileFindLast : SysM (LogFsErr × Option LogFsFile) := do
  let l ← getLogFs
  if l.filePageLast = logFsPageInvalid then
    return (.noFile, none)
  else if !(← logFsFileBlockRd l.filePageLast) then
    return (.fileInvalid, none)
  else
    return (.none, some (← getLogFs).fileInfo.file)

def fileSearchRound (go : ℕ → SysM ℕ) (stop page : ℕ) :
    SysM (ℕ ⊕ LogFsErr × Option LogFsFile) := do
  let page ← go page
  if ← logFsFileBlockRd page then
    return .inr (.none, some (← getLogFs).fileInfo.file)
  else if page ≠ stop then
    return .inl page
  else
    return .inr (.noFile, none)

/-- The search that `log_fs_file_find_next` and `log_fs_file_find_previous` make, page by page
as `go` says and up to the page `stop`. -/
def fileSearch (go : ℕ → SysM ℕ) (stop : ℕ) : SysM (LogFsErr × Option LogFsFile) := do
  Prog.loop (fileSearchRound go stop) (← getLogFs).fileInfo.file.startPage

def logFsFileFindNext : SysM (LogFsErr × Option LogFsFile) := do
  let l ← getLogFs
  if l.filePageLast = logFsPageInvalid then
    return (.noFile, none)
  else if l.fileInfo.file.startPage = l.filePageLast then
    return (.noFile, none)
  else
    fileSearch (logFsPageNext c) l.filePageLast

def logFsFileFindPrevious : SysM (LogFsErr × Option LogFsFile) := do
  let l ← getLogFs
  if l.filePageFirst = logFsPageInvalid then
    return (.noFile, none)
  else if l.fileInfo.file.startPage = l.filePageFirst then
    return (.noFile, none)
  else
    fileSearch (logFsPagePrevious c) l.filePageFirst

/-- The pages between which `log_fs_open` looks for records, or `none` when the next page
starts another file. -/
def recSearchPages : SysM (Option (ℕ × ℕ)) := do
  let recSearchPageStart ← logFsRecordPagesBoundStart c
  if (← logFsPageHeaderRd recSearchPageStart) = logFsMarkerFile then
    setLogFs (resetRecords recSearchPageStart)
    return none
  else
    let recSearchPageEnd ← logFsRecordPagesBoundEnd c
    let l ← getLogFs
    if l.filePageFirst ≠ l.filePageLast then
      let recSearchPageEnd ← logFsPageHeaderFindFirst c logFsMarkerFile recSearchPageStart
        l.fileInfo.file.startPage
      if recSearchPageEnd = recSearchPageStart then
        setLogFs (resetRecords recSearchPageStart)
        return none
      else if recSearchPageEnd ≠ logFsPageInvalid then
        return some (recSearchPageStart, ← logFsPagePrevious c recSearchPageEnd)
      else
        return some (recSearchPageStart, ← logFsRecordPagesBoundEnd c)
    else
      return some (recSearchPageStart, recSearchPageEnd)

def freeOffsetRound (recPage offset : ℕ) : SysM (ℕ ⊕ Option ℕ) := do
  if c.recOffsetLast < offset then
    return .inr none
  else if (← logFsMarkerRd recPage offset) = logFsMarkerFree then
    return .inr (some offset)
  else
    return .inl ((offset + c.recBlockSize) % 0x10000)

/-- The first free record offset of a page. -/
def freeOffset (recPage : ℕ) : SysM (Option ℕ) :=
  Prog.loop (freeOffsetRound c recPage) recOffsetFirst

/-- `page == log_fs_page_next(log_fs_record_pages_bound_end())` -/
def isBoundPage (page : ℕ) : SysM Bool := do
  return page = (← logFsPageNext c (← logFsRecordPagesBoundEnd c))

/-- The page that the circular option goes on with when it has come to `page`. -/
def circularPage (page : ℕ) : SysM ℕ := do
  if ← isBoundPage c page then
    logFsRecordPagesBoundStart c
  else if (← logFsMarkerRd page 0) = logFsMarkerFile then
    logFsRecordPagesBoundStart c
  else
    return page

def logFsOpen (file : LogFsFile) : SysM LogFsErr := do
  if !(← logFsFileBlockRd file.startPage) then
    return .fileInvalid
  else
    match ← recSearchPages c with
    | none => return .none
    | some (recSearchPageStart, recSearchPageEnd) =>
      let recPageFirst ← logFsPageHeaderFindFirst c logFsMarkerRecord recSearchPageStart
        recSearchPageEnd
      if recPageFirst = logFsPageInvalid then
        setLogFs (resetRecords recSearchPageStart)
        eraseIfNotFree recSearchPageStart
        return .none
      else
        largestDiff c logFsMarkerRecord recSearchPageStart recSearchPageEnd saveRecPages recPageFirst
        let recPage := (← getLogFs).recPageLast
        match ← freeOffset c recPage with
        | some offset =>
          setLogFs fun l => { l with recAdrWr := ⟨recPage, offset⟩ }
          return .none
        | none =>
          let recPage ← logFsPageNext c recPage
          match c.type with
          | .linear =>
            if !(← isBoundPage c recPage) then
              let marker ← logFsMarkerRd recPage 0
              if marker ≠ logFsMarkerFile ∧ marker ≠ logFsMarkerFree then
                at45dErasePage recPage
            setLogFs fun l => { l with recAdrWr := ⟨recPage, recOffsetFirst⟩ }
            return .none
          | .circular =>
            let recPage ← circularPage c recPage
            at45dErasePage recPage
            if recPage = (← getLogFs).recPageFirst then
              let page ← logFsPageHeaderFindNext c logFsMarkerRecord recSearchPageStart
                recSearchPageEnd recPage
              setLogFs fun l => { l with recPageFirst := page }
            setLogFs fun l => { l with recAdrWr := ⟨recPage, recOffsetFirst⟩ }
            return .none

def deleteRound (page : ℕ) : SysM (ℕ ⊕ ℕ) := do
  let page ← logFsPagePrevious c page
  let marker ← logFsPageHeaderRd page
  if marker = logFsMarkerRecord then
    let _ ← logFsMarkerWr logFsMarkerBad page 0
  if marker ≠ logFsMarkerFile then
    return .inl page
  else
    return .inr page

def logFsFileDelete (file : LogFsFile) : SysM LogFsErr := do
  let l ← getLogFs
  if file.startPage ≠ l.filePageFirst then
    return .fileInvalid
  else if !(← logFsFileBlockRd file.startPage) then
    return .fileInvalid
  else
    let page ← if l.filePageFirst = l.filePageLast then do
        setLogFs fun l => { l with
          filePageFirst := logFsPageInvalid, filePageLast := logFsPageInvalid }
        pure file.startPage
      else do
        let page ← logFsPageHeaderFindNext c logFsMarkerFile l.filePageFirst l.filePageLast
          l.filePageFirst
        setLogFs fun l => { l with filePageFirst := page }
        pure page
    let page ← Prog.loop (deleteRound c) page
    let _ ← logFsMarkerWr logFsMarkerBad page 0
    return .none

abbrev RecordRd := LogFsErr × List UInt8

def nextRecordPageRound (page : ℕ) : SysM (ℕ ⊕ Option ℕ) := do
  match c.type with
  | .linear =>
    let page ← logFsPageNext c page
    if page = (← getLogFs).recAdrRd.page then
      setLogFs fun l => { l with recAdrRd := { l.recAdrRd with page := logFsPageInvalid } }
      return .inr none
    else
      let marker ← logFsPageHeaderRd page
      if marker = logFsMarkerFile then
        return .inr none
      else if marker ≠ logFsMarkerRecord then
        return .inl page
      else
        return .inr (some page)
  | .circular =>
    let page ← if page = (← logFsRecordPagesBoundEnd c) then logFsRecordPagesBoundStart c
      else logFsPageNext c page
    if (⟨page, recOffsetFirst⟩ : LogFsAdr) = (← getLogFs).recAdrWr then
      return .inr none
    else if (← logFsPageHeaderRd page) ≠ logFsMarkerRecord then
      return .inl page
    else
      return .inr (some page)

/-- The next page with records for `log_fs_record_rd_next`, or `none` at the end. -/
def nextRecordPage (page : ℕ) : SysM (Option ℕ) := Prog.loop (nextRecordPageRound c) page

def readFound (adr : LogFsAdr) (nrOfBytes : ℕ) : SysM RecordRd := do
  setLogFs fun l => { l with recAdrRd := adr }
  return (.none, (← getLogFs).recordBlock.data.take nrOfBytes)

/-- The address that `log_fs_record_rd_next` looks at after `page` and `offset`. -/
def nextRecordAdr (page offset : ℕ) : SysM (Option LogFsAdr) := do
  if c.recOffsetLast ≤ offset then
    return (← nextRecordPage c page).map fun page => ⟨page, recOffsetFirst⟩
  else
    return some ⟨page, (offset + c.recBlockSize) % 0x10000⟩

def recordRdNextRound (nrOfBytes : ℕ) (adr : LogFsAdr) : SysM (LogFsAdr ⊕ RecordRd) := do
  match ← nextRecordAdr c adr.page adr.offset with
  | none => return .inr (.noRecord, [])
  | some adr =>
    if adr = (← getLogFs).recAdrWr then
      return .inr (.noRecord, [])
    else if ← logFsRecordBlockRd c adr.page adr.offset then
      return .inr (← readFound adr nrOfBytes)
    else
      return .inl adr

def logFsRecordRdNext (nrOfBytes : ℕ) : SysM RecordRd := do
  Prog.loop (recordRdNextRound c (min nrOfBytes c.recDataSize)) (← getLogFs).recAdrRd

def previousRecordPageRound (page : ℕ) : SysM (ℕ ⊕ Option ℕ) := do
  match c.type with
  | .linear =>
    let page ← logFsPagePrevious c page
    if page = (← getLogFs).fileInfo.file.startPage then
      return .inr none
    else if (← logFsPageHeaderRd page) ≠ logFsMarkerRecord then
      return .inl page
    else
      return .inr (some page)
  | .circular =>
    let page ← if page = (← logFsRecordPagesBoundStart c) then logFsRecordPagesBoundEnd c
      else logFsPagePrevious c page
    if page = (← getLogFs).recAdrWr.page then
      return .inr none
    else if (← logFsPageHeaderRd page) ≠ logFsMarkerRecord then
      return .inl page
    else
      return .inr (some page)

/-- The previous page with records for `log_fs_record_rd_previous`, or `none` at the start. -/
def previousRecordPage (page : ℕ) : SysM (Option ℕ) := Prog.loop (previousRecordPageRound c) page

/-- The address that `log_fs_record_rd_previous` looks at after `page` and `offset`. -/
def previousRecordAdr (page offset : ℕ) : SysM (Option LogFsAdr) := do
  if offset ≤ recOffsetFirst then
    return (← previousRecordPage c page).map fun page => ⟨page, c.recOffsetLast⟩
  else
    return some ⟨page, (offset + 0x10000 - c.recBlockSize) % 0x10000⟩

def recordRdPreviousRound (nrOfBytes : ℕ) (adr : LogFsAdr) : SysM (LogFsAdr ⊕ RecordRd) := do
  match ← previousRecordAdr c adr.page adr.offset with
  | none => return .inr (.noRecord, [])
  | some adr =>
    if ← logFsRecordBlockRd c adr.page adr.offset then
      return .inr (← readFound adr nrOfBytes)
    else
      return .inl adr

def logFsRecordRdPrevious (nrOfBytes : ℕ) : SysM RecordRd := do
  Prog.loop (recordRdPreviousRound c (min nrOfBytes c.recDataSize)) (← getLogFs).recAdrRd

def logFsRecordRdFirst (nrOfBytes : ℕ) : SysM RecordRd := do
  let l ← getLogFs
  if l.recPageFirst = logFsPageInvalid then
    return (.noRecord, [])
  else
    let page ← logFsPagePrevious c l.recPageFirst
    setLogFs fun l => { l with recAdrRd := ⟨page, c.recOffsetLast⟩ }
    logFsRecordRdNext c nrOfBytes

def logFsRecordRdLast (nrOfBytes : ℕ) : SysM RecordRd := do
  let l ← getLogFs
  if l.recPageLast = logFsPageInvalid then
    return (.noRecord, [])
  else
    setLogFs fun l => { l with recAdrRd := l.recAdrWr }
    logFsRecordRdPrevious c nrOfBytes

/-- The copy loop of `log_fs_record_wr`: cut to the record size, or filled up with `0xff`. -/
def recordData : ℕ → List UInt8 → List UInt8
  | 0, _ => []
  | n + 1, [] => 0xff :: recordData n []
  | n + 1, b :: data => b :: recordData n data

/-- Moves `rec_page_first` on when its page has been erased. -/
def recPageFirstErased (page : ℕ) : SysM Unit := do
  let recPageFirst := (← getLogFs).recPageFirst
  if page = recPageFirst then
    let start ← logFsRecordPagesBoundStart c
    let stop ← logFsRecordPagesBoundEnd c
    let next ← logFsPageHeaderFindNext c logFsMarkerRecord start stop recPageFirst
    setLogFs fun l => { l with recPageFirst := next }
  else
    return ()

/-- What `log_fs_record_wr` does when the header of `page` could not be written. -/
def recordHeaderFailed (page : ℕ) : SysM LogFsErr := do
  let page ← logFsPageNext c page
  let marker ← logFsMarkerRd page 0
  let reached ← if marker = logFsMarkerFile then pure true else isBoundPage c page
  match c.type with
  | .linear =>
    if reached then
      return .full
    else
      at45dErasePage page
      setLogFs fun l => { l with recAdrWr := { l.recAdrWr with page := page } }
      return .writeFail
  | .circular =>
    let page ← if reached then logFsRecordPagesBoundStart c else pure page
    at45dErasePage page
    setLogFs fun l => { l with recAdrWr := { l.recAdrWr with page := page } }
    recPageFirstErased c page
    return .writeFail

/-- The start of a record page; an error code when no record can be written there. -/
def recordPageStart (page : ℕ) : SysM (Option LogFsErr) := do
  let marker ← logFsMarkerRd page 0
  let full ← match c.type with
    | .linear => if marker = logFsMarkerFile then pure true else isBoundPage c page
    | .circular => pure false
  if full then
    return some .full
  else
    if marker = logFsMarkerBad then
      at45dErasePage page
    setLogFs fun l => { l with
      pageHeader := { l.pageHeader with marker := logFsMarkerRecord, nr := l.recPageNrNext } }
    if !(← logFsPageHeaderWr page) then
      return some (← recordHeaderFailed c page)
    else
      setLogFs fun l => { l with
        recPageNrNext := (l.recPageNrNext + 1) % 0x10000
        recPageLast := page
        recPageFirst := if l.recPageFirst = logFsPageInvalid then page else l.recPageFirst }
      return none

/-- Moves the write address behind the record at `page` and `offset`. -/
def recordAdvance (page offset : ℕ) : SysM Unit := do
  if offset = c.recOffsetLast then
    let page ← logFsPageNext c page
    let page ← match c.type with
      | .linear => do
        if !(← isBoundPage c page) then
          if (← logFsMarkerRd page 0) ≠ logFsMarkerFile then
            at45dErasePage page
        pure page
      | .circular => do
        let page ← circularPage c page
        at45dErasePage page
        recPageFirstErased c page
        pure page
    setLogFs fun l => { l with recAdrWr := ⟨page, recOffsetFirst⟩ }
  else
    setLogFs fun l => { l with
      recAdrWr := { l.recAdrWr with offset := (offset + c.recBlockSize) % 0x10000 } }

def logFsRecordWr (data : List UInt8) : SysM LogFsErr := do
  let adr := (← getLogFs).recAdrWr
  let started ← if adr.offset = recOffsetFirst then recordPageStart c adr.page else pure none
  match started with
  | some err => return err
  | none =>
    setLogFs fun l => { l with
      recordBlock := { l.recordBlock with data := recordData c.recDataSize data } }
    let success ← logFsRecordBlockWr c adr.page adr.offset
    recordAdvance c adr.page adr.offset
    return if success then .none else .writeFail

end Lpc1788Libraries.DataManager

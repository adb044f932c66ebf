import Lpc1788Libraries.DataManager.LogFsFrame

namespace Lpc1788Libraries.DataManager

open Lpc1788Libraries.Support NorFlash BoundedProgram

abbrev Rec := List UInt8

/-- What a page holds, as far as the file system can tell. `header` is a FILE page whose file
info has not been written. -/
inductive PageView
  | free
  | bad
  | header (nr : ℕ)
  | file (nr : ℕ) (timeStamp : LogFsTimeStamp)
  | record (nr : ℕ) (recs : List Rec)

namespace PageView

def marker : PageView → UInt8
  | free => logFsMarkerFree
  | bad => logFsMarkerBad
  | header _ => logFsMarkerFile
  | file _ _ => logFsMarkerFile
  | record _ _ => logFsMarkerRecord

def nr : PageView → ℕ
  | free => 0
  | bad => 0
  | header nr => nr
  | file nr _ => nr
  | record nr _ => nr

end PageView

def sealedHeader (marker : UInt8) (nr : ℕ) : LogFsPageHeader :=
  ⟨marker, nr, logFsCrcPageHeader ⟨marker, nr, 0⟩⟩

def fileInfoOf (page : ℕ) (timeStamp : LogFsTimeStamp) : LogFsFileInfo :=
  ⟨⟨page, timeStamp⟩, logFsCrcFileInfo ⟨⟨page, timeStamp⟩, 0⟩⟩

variable (c : LogFsCfg)

def recOffset (k : ℕ) : ℕ := recOffsetFirst + k * c.recBlockSize

/-- The page starts with a header for `marker` and `nr` that passes its CRC. -/
def HeaderAt (f : Pages) (page : ℕ) (marker : UInt8) (nr : ℕ) : Prop :=
  nr < 0x10000 ∧ f.read page 0 pageHeaderSize = (sealedHeader marker nr).toBytes

def ErasedFrom (f : Pages) (page n : ℕ) : Prop := ∀ i, n ≤ i → f page i = 0xff

def RecordsAt (f : Pages) (page : ℕ) (recs : List Rec) : Prop :=
  recs.length ≤ c.recordsPerPage ∧ ErasedFrom f page (recOffset c recs.length) ∧
    ∀ k d, recs[k]? = some d → d.length = c.recDataSize ∧
      f.read page (recOffset c k) c.recBlockSize = (LogFsRecBlock.seal d).toBytes

def Holds (f : Pages) (page : ℕ) : PageView → Prop
  | .free => ErasedFrom f page 0
  | .bad => f page 0 = logFsMarkerBad
  | .header nr => HeaderAt f page logFsMarkerFile nr ∧ ErasedFrom f page pageHeaderSize
  | .file nr timeStamp => HeaderAt f page logFsMarkerFile nr ∧
      f.read page pageHeaderSize fileInfoSize = (fileInfoOf page timeStamp).toBytes
  | .record nr recs => HeaderAt f page logFsMarkerRecord nr ∧ RecordsAt c f page recs

variable {c}

section arithmetic

theorem recBlockSize_pos : 0 < c.recBlockSize := by simp [LogFsCfg.recBlockSize]

theorem recordsPerPage_pos : 0 < c.recordsPerPage := by
  have h := c.recBlock_le
  apply Nat.div_pos _ recBlockSize_pos
  simp only [LogFsCfg.recBlockSize, LogFsCfg.recPageDataSize, pageHeaderSize]
  omega

theorem recOffset_zero : recOffset c 0 = recOffsetFirst := by simp [recOffset]

theorem recOffset_succ (k : ℕ) : recOffset c (k + 1) = recOffset c k + c.recBlockSize := by
  simp only [recOffset, Nat.add_mul, Nat.one_mul, Nat.add_assoc]

theorem recOffset_last : recOffset c (c.recordsPerPage - 1) = c.recOffsetLast := rfl

theorem recOffset_mono {j k : ℕ} (h : j ≤ k) : recOffset c j ≤ recOffset c k :=
  Nat.add_le_add_left (Nat.mul_le_mul_right _ h) _

theorem recOffset_strict {j k : ℕ} (h : j < k) : recOffset c j < recOffset c k :=
  Nat.add_lt_add_left (Nat.mul_lt_mul_of_pos_right h recBlockSize_pos) _

theorem recOffset_inj {j k : ℕ} : recOffset c j = recOffset c k ↔ j = k := by
  refine ⟨fun h => ?_, fun h => h ▸ rfl⟩
  rcases Nat.lt_trichotomy j k with hj | hj | hj
  · have := recOffset_strict (c := c) hj; omega
  · exact hj
  · have := recOffset_strict (c := c) hj; omega

theorem recOffset_records_le : recOffset c c.recordsPerPage ≤ c.pageSize := by
  have h := Nat.div_mul_le_self c.recPageDataSize c.recBlockSize
  have h' := c.recBlock_le
  simp only [recOffset, LogFsCfg.recordsPerPage, LogFsCfg.recPageDataSize, recOffsetFirst,
    pageHeaderSize] at *
  omega

theorem recOffset_lt {k : ℕ} (h : k ≤ c.recordsPerPage) : recOffset c k < 0x10000 := by
  have h1 := recOffset_mono (c := c) h
  have h2 := recOffset_records_le (c := c)
  have h3 := c.pageSize_lt
  omega

theorem pageHeaderSize_le_recOffset (k : ℕ) : pageHeaderSize ≤ recOffset c k :=
  Nat.le_add_right _ _

end arithmetic

def PageView.seenBy (v : PageView) (h : LogFsPageHeader) : LogFsPageHeader :=
  match v with
  | .free => h
  | .bad => h
  | v => sealedHeader v.marker v.nr

namespace Sys

variable (s : Sys)

def setHeader (h : LogFsPageHeader) : Sys := { s with logFs := { s.logFs with pageHeader := h } }

/-- The state after the header of a page has been read. -/
def seen (v : PageView) : Sys := s.setHeader (v.seenBy s.logFs.pageHeader)

def setFileInfo (i : LogFsFileInfo) : Sys := { s with logFs := { s.logFs with fileInfo := i } }

def setRecordBlock (b : LogFsRecBlock) : Sys := { s with logFs := { s.logFs with recordBlock := b } }

@[simp] theorem seen_flash (v : PageView) : (s.seen v).flash = s.flash := rfl

@[simp] theorem setHeader_flash (h : LogFsPageHeader) : (s.setHeader h).flash = s.flash := rfl

@[simp] theorem setFileInfo_flash (i : LogFsFileInfo) : (s.setFileInfo i).flash = s.flash := rfl

@[simp] theorem setRecordBlock_flash (b : LogFsRecBlock) : (s.setRecordBlock b).flash = s.flash := rfl

@[simp] theorem setHeader_setHeader (g h : LogFsPageHeader) :
    (s.setHeader g).setHeader h = s.setHeader h := rfl

end Sys

section reading

variable {s : Sys} {f : Pages} {page offset nr : ℕ} {v : PageView} {m : UInt8}

theorem markerRd_returns (h : validMarker (s.flash page offset)) :
    (logFsMarkerRd page offset).Returns s (s.flash page offset) s := by
  simp [logFsMarkerRd, Pages.read, h]

theorem markerRd_invalid (h : ¬validMarker (s.flash page offset)) : (logFsMarkerRd page offset).Returns s
    logFsMarkerBad (s.putFlash (s.flash.program page offset [logFsMarkerBad])) := by
  simp only [logFsMarkerRd, at45dRd_bind]
  rw [if_neg (by simpa [Pages.read] using h)]
  simp

theorem markerRd_terminates (page offset : ℕ) (s : Sys) : (logFsMarkerRd page offset).Terminates s := by
  by_cases hv : validMarker (s.flash page offset)
  · exact (markerRd_returns hv).terminates
  · exact (markerRd_invalid hv).terminates

theorem markerWr_bad_returns : (logFsMarkerWr logFsMarkerBad page offset).Returns s true
    (s.putFlash (s.flash.program page offset [logFsMarkerBad])) := by
  have hb : (s.flash.program page offset [logFsMarkerBad]) page offset = logFsMarkerBad := by
    have h0 : Pages.mask offset [logFsMarkerBad] offset = logFsMarkerBad :=
      mask_inside (k := 0) (by simp)
    rw [program_same, h0]
    simp [logFsMarkerBad]
  let t := s.putFlash (s.flash.program page offset [logFsMarkerBad])
  have hr : (logFsMarkerRd page offset).Returns t logFsMarkerBad t := by
    have hv : validMarker (t.flash page offset) := by
      simp [t, Sys.putFlash, hb, validMarker]
    simpa [t, Sys.putFlash, hb] using markerRd_returns hv
  simp only [logFsMarkerWr, at45dWr_bind]
  refine hr.bind ?_
  simp [t]

theorem HeaderAt.marker_eq (h : HeaderAt f page m nr) : f page 0 = m := by
  have h0 : (f.read page 0 pageHeaderSize)[0]? = some (f page 0) := getElem?_read (by decide)
  rw [h.2] at h0
  simpa [LogFsPageHeader.toBytes, LogFsPageHeader.body, sealedHeader, eq_comm] using h0

theorem HeaderAt.ofBytes (h : HeaderAt f page m nr) :
    LogFsPageHeader.ofBytes (f.read page 0 pageHeaderSize) = sealedHeader m nr := by
  rw [h.2]
  exact LogFsPageHeader.ofBytes_toBytes h.1

theorem Holds.marker_eq (h : Holds c f page v) : f page 0 = v.marker := by
  cases v with
  | free => exact h 0 (Nat.le_refl _)
  | bad => exact h
  | header nr => exact h.1.marker_eq
  | file nr ts => exact h.1.marker_eq
  | record nr recs => exact h.1.marker_eq

theorem PageView.marker_valid (v : PageView) : validMarker v.marker := by
  cases v <;> simp [PageView.marker, validMarker]

theorem Holds.markerRd (h : Holds c s.flash page v) :
    (logFsMarkerRd page 0).Returns s v.marker s := by
  have hv := v.marker_valid
  rw [← h.marker_eq] at hv ⊢
  exact markerRd_returns hv

theorem HeaderAt.pageHeaderRd (h : HeaderAt s.flash page m nr) (hm : validMarker m)
    (hf : m ≠ logFsMarkerFree) (hb : m ≠ logFsMarkerBad) :
    (logFsPageHeaderRd page).Returns s m (s.setHeader (sealedHeader m nr)) := by
  have hrd : (logFsMarkerRd page 0).Returns s m s := by
    have hv : validMarker (s.flash page 0) := by
      rw [h.marker_eq]
      exact hm
    have := markerRd_returns hv
    rwa [h.marker_eq] at this
  unfold logFsPageHeaderRd
  refine hrd.bind ?_
  simp only [hf, hb, or_self, if_false, at45dRd_bind, h.ofBytes, setLogFs_bind]
  simp [sealedHeader, logFsCrcPageHeader, LogFsPageHeader.body, Sys.setHeader]

theorem Holds.pageHeaderRd (h : Holds c s.flash page v) :
    (logFsPageHeaderRd page).Returns s v.marker (s.seen v) := by
  cases v with
  | free =>
    unfold logFsPageHeaderRd
    refine h.markerRd.bind ?_
    simp [PageView.marker, Sys.seen, PageView.seenBy, Sys.setHeader]
  | bad =>
    unfold logFsPageHeaderRd
    refine h.markerRd.bind ?_
    simp [PageView.marker, Sys.seen, PageView.seenBy, Sys.setHeader]
  | header nr => exact h.1.pageHeaderRd (by decide) (by decide) (by decide)
  | file nr ts => exact h.1.pageHeaderRd (by decide) (by decide) (by decide)
  | record nr recs => exact h.1.pageHeaderRd (by decide) (by decide) (by decide)

theorem Holds.fileBlockRd_file {ts : LogFsTimeStamp} (h : Holds c s.flash page (.file nr ts))
    (hp : page < 0x10000) : (logFsFileBlockRd page).Returns s true
      ((s.setHeader (sealedHeader logFsMarkerFile nr)).setFileInfo (fileInfoOf page ts)) := by
  unfold logFsFileBlockRd
  refine h.pageHeaderRd.bind ?_
  have hof : LogFsFileInfo.ofBytes (s.flash.read page pageHeaderSize fileInfoSize) =
      fileInfoOf page ts := by
    rw [h.2]
    exact LogFsFileInfo.ofBytes_toBytes hp
  simp only [PageView.marker, ne_eq, not_true_eq_false, if_false, at45dRd_bind, Sys.seen_flash, hof,
    setLogFs_bind]
  simp [fileInfoOf, logFsCrcFileInfo, LogFsFileInfo.body, Sys.seen, PageView.seenBy, Sys.setHeader,
    Sys.setFileInfo, PageView.marker, PageView.nr]

theorem Holds.fileBlockRd_other (h : Holds c s.flash page v) (hv : v.marker ≠ logFsMarkerFile) :
    (logFsFileBlockRd page).Returns s false (s.seen v) := by
  unfold logFsFileBlockRd
  refine h.pageHeaderRd.bind ?_
  simp [hv]

end reading

section writing

variable {s : Sys} {f g : Pages} {page q offset nr n : ℕ} {v : PageView} {m : UInt8}

theorem Holds.congr (h : Holds c f page v) (hfg : ∀ i, f page i = g page i) : Holds c g page v := by
  have hread : ∀ a b, g.read page a b = f.read page a b :=
    fun a b => read_congr fun k _ => (hfg _).symm
  have her : ∀ k, ErasedFrom f page k → ErasedFrom g page k :=
    fun k he i hi => (hfg i).symm.trans (he i hi)
  cases v with
  | free => exact her 0 h
  | bad => exact (hfg 0).symm.trans h
  | header nr => exact ⟨⟨h.1.1, (hread _ _).trans h.1.2⟩, her _ h.2⟩
  | file nr ts => exact ⟨⟨h.1.1, (hread _ _).trans h.1.2⟩, (hread _ _).trans h.2⟩
  | record nr recs =>
    refine ⟨⟨h.1.1, (hread _ _).trans h.1.2⟩, h.2.1, her _ h.2.2.1, fun k d hd => ?_⟩
    exact ⟨(h.2.2.2 k d hd).1, (hread _ _).trans (h.2.2.2 k d hd).2⟩

theorem Holds.program_other {data : List UInt8} (h : Holds c f q v) (hq : q ≠ page) :
    Holds c (f.program page offset data) q v :=
  h.congr fun _ => (NorFlash.program_other hq).symm

theorem Holds.erase_other (h : Holds c f q v) (hq : q ≠ page) : Holds c (f.erase page) q v :=
  h.congr fun _ => (NorFlash.erase_other hq).symm

theorem holds_erase : Holds c (f.erase page) page .free := fun _ _ => erase_same

theorem holds_bad : Holds c (f.program page 0 [logFsMarkerBad]) page .bad := by
  have h0 : Pages.mask 0 [logFsMarkerBad] 0 = logFsMarkerBad := mask_inside (k := 0) (by simp)
  have hb : Pages.mask 0 [0x00] 0 = 0x00 := h0
  simp only [Holds, program_same, logFsMarkerBad, hb]
  exact UInt8.and_zero

theorem ErasedFrom.program {data : List UInt8} (h : ErasedFrom f page n) (hn : offset + data.length ≤ n) :
    ErasedFrom (f.program page offset data) page n :=
  fun i hi => (program_outside (by omega)).trans (h i hi)

theorem HeaderAt.program {data : List UInt8} (h : HeaderAt f page m nr) (ho : pageHeaderSize ≤ offset) :
    HeaderAt (f.program page offset data) page m nr :=
  ⟨h.1, (read_program_outside (by omega)).trans h.2⟩

theorem headerAt_program (h : ErasedFrom f page 0) (hn : nr < 0x10000) :
    HeaderAt (f.program page 0 (sealedHeader m nr).toBytes) page m nr ∧
      ErasedFrom (f.program page 0 (sealedHeader m nr).toBytes) page pageHeaderSize := by
  refine ⟨⟨hn, ?_⟩, ?_⟩
  · exact read_program fun k _ => h _ (Nat.zero_le _)
  · exact ErasedFrom.program (fun i _ => h i (Nat.zero_le _)) (by simp)

theorem pageHeaderWr_returns (h : ErasedFrom s.flash page 0) :
    (logFsPageHeaderWr page).Returns s true
      ((s.setHeader (sealedHeader s.logFs.pageHeader.marker s.logFs.pageHeader.nr)).putFlash
        (s.flash.program page 0
          (sealedHeader s.logFs.pageHeader.marker s.logFs.pageHeader.nr).toBytes)) := by
  have hhdr : ({ s.logFs.pageHeader with crc := logFsCrcPageHeader s.logFs.pageHeader } :
      LogFsPageHeader) = sealedHeader s.logFs.pageHeader.marker s.logFs.pageHeader.nr := by
    simp [sealedHeader, logFsCrcPageHeader, LogFsPageHeader.body]
  have hrd : (s.flash.program page 0
      (sealedHeader s.logFs.pageHeader.marker s.logFs.pageHeader.nr).toBytes).read page 0 pageHeaderSize =
        (sealedHeader s.logFs.pageHeader.marker s.logFs.pageHeader.nr).toBytes :=
    read_program fun k _ => h _ (Nat.zero_le _)
  simp only [logFsPageHeaderWr, setLogFs_bind, getLogFs_bind, at45dWr_bind, at45dRd_bind, hhdr]
  simp [Sys.putFlash, Sys.setHeader, hrd]

theorem fileInfo_program {i : LogFsFileInfo} (h : ErasedFrom f page pageHeaderSize) :
    (f.program page pageHeaderSize i.toBytes).read page pageHeaderSize fileInfoSize = i.toBytes := by
  have hl : i.toBytes.length = fileInfoSize := i.length_toBytes
  rw [← hl]
  exact read_program fun k _ => h _ (Nat.le_add_right _ _)

def headerImage (f : Pages) (page nr : ℕ) : Pages :=
  f.program page 0 (sealedHeader logFsMarkerFile nr).toBytes

def fileImage (f : Pages) (page nr : ℕ) (ts : LogFsTimeStamp) : Pages :=
  (headerImage f page nr).program page pageHeaderSize (fileInfoOf page ts).toBytes

theorem headerImage_holds (h : Holds c f page .free) (hn : nr < 0x10000) :
    Holds c (headerImage f page nr) page (.header nr) := headerAt_program h hn

theorem fileImage_holds {ts : LogFsTimeStamp} (h : Holds c f page .free) (hn : nr < 0x10000) :
    Holds c (fileImage f page nr ts) page (.file nr ts) := by
  obtain ⟨h1, h2⟩ := headerAt_program (m := logFsMarkerFile) h hn
  exact ⟨h1.program (Nat.le_refl _), fileInfo_program h2⟩

theorem fileBlockWr_returns (h : ErasedFrom s.flash page 0) (hn : s.logFs.pageHeader.nr = nr) {ts : LogFsTimeStamp} (hts : s.logFs.fileInfo.file.timeStamp = ts) :
    (logFsFileBlockWr page).Returns s true
      { logFs := { s.logFs with
          pageHeader := sealedHeader logFsMarkerFile nr, fileInfo := fileInfoOf page ts }
        flash := fileImage s.flash page nr ts
        images := headerImage s.flash page nr :: s.flash :: s.images } := by
  subst hn hts
  have herased : ErasedFrom (s.flash.program page 0
      (sealedHeader logFsMarkerFile s.logFs.pageHeader.nr).toBytes) page pageHeaderSize :=
    ErasedFrom.program (fun i _ => h i (Nat.zero_le _)) (by simp)
  have hinfo : s.logFs.fileInfo.forPage page = fileInfoOf page s.logFs.fileInfo.file.timeStamp := by
    simp [LogFsFileInfo.forPage, fileInfoOf, logFsCrcFileInfo, LogFsFileInfo.body]
  simp only [logFsFileBlockWr, setLogFs_bind]
  have hw := pageHeaderWr_returns
    (s := s.setHeader { s.logFs.pageHeader with marker := logFsMarkerFile }) h
  refine hw.bind ?_
  simp only [Bool.not_true, Bool.false_eq_true, if_false, setLogFs_bind, getLogFs_bind,
    at45dWr_bind, at45dRd_bind, Sys.putFlash, Sys.setHeader, hinfo, fileInfo_program herased, if_true]
  simp [fileImage, headerImage]

theorem length_seal (d : Rec) : (LogFsRecBlock.seal d).toBytes.length = d.length + 2 := by
  simp [LogFsRecBlock.seal]

def recordImage (c : LogFsCfg) (f : Pages) (page k : ℕ) (d : Rec) : Pages :=
  f.program page (recOffset c k) (LogFsRecBlock.seal d).toBytes

variable {recs : List Rec} {d : Rec}

theorem seal_length (hd : d.length = c.recDataSize) :
    (LogFsRecBlock.seal d).toBytes.length = c.recBlockSize := by
  rw [length_seal, hd]; rfl

theorem recordImage_read (h : ErasedFrom f page (recOffset c n)) (hd : d.length = c.recDataSize) :
    (recordImage c f page n d).read page (recOffset c n) c.recBlockSize =
      (LogFsRecBlock.seal d).toBytes := by
  rw [← seal_length hd]
  exact read_program fun k _ => h _ (Nat.le_add_right _ _)

theorem recordImage_holds (h : Holds c f page (.record nr recs)) (hd : d.length = c.recDataSize)
    (hn : recs.length < c.recordsPerPage) :
    Holds c (recordImage c f page recs.length d) page (.record nr (recs ++ [d])) := by
  obtain ⟨hh, hlen, her, hrec⟩ := h
  refine ⟨hh.program (pageHeaderSize_le_recOffset _), by rw [List.length_append]; exact hn, ?_, ?_⟩
  · have he : ErasedFrom f page (recOffset c (recs ++ [d]).length) :=
      fun i hi => her i (Nat.le_trans (recOffset_mono (by simp)) hi)
    refine he.program ?_
    rw [seal_length hd, ← recOffset_succ]
    simp
  · intro k e hk
    by_cases hlt : k < recs.length
    · rw [List.getElem?_append_left hlt] at hk
      refine ⟨(hrec k e hk).1, (read_program_outside (.inl ?_)).trans (hrec k e hk).2⟩
      rw [← recOffset_succ]
      exact recOffset_mono hlt
    · rw [List.getElem?_append_right (Nat.le_of_not_lt hlt)] at hk
      obtain ⟨hk0, rfl⟩ : k - recs.length = 0 ∧ d = e := by
        cases hj : k - recs.length with
        | zero => simpa [hj] using hk
        | succ j => simp [hj] at hk
      obtain rfl : k = recs.length := by omega
      exact ⟨hd, recordImage_read her hd⟩

theorem recordBlockWr_returns (h : Holds c s.flash page (.record nr recs))
    (hd : s.logFs.recordBlock.data.length = c.recDataSize)
    (hfit : recOffset c recs.length + c.recBlockSize < c.pageSize) :
    (logFsRecordBlockWr c page (recOffset c recs.length)).Returns s true
      ((s.setRecordBlock (.seal s.logFs.recordBlock.data)).putFlash
        (recordImage c s.flash page recs.length s.logFs.recordBlock.data)) := by
  have hrd := recordImage_read h.2.2.1 hd
  simp only [logFsRecordBlockWr, Nat.not_le.mpr hfit, if_false, setLogFs_bind, getLogFs_bind,
    at45dWr_bind, at45dRd_bind]
  simp only [recordImage] at hrd
  simp [Sys.putFlash, Sys.setRecordBlock, hrd, recordImage]

theorem recordBlockWr_overflow (hfit : c.pageSize ≤ offset + c.recBlockSize) :
    (logFsRecordBlockWr c page offset).Returns s false s := by
  simp [logFsRecordBlockWr, hfit]

end writing

section recordReading

variable {s : Sys} {page nr k : ℕ} {recs : List Rec} {d : Rec}

theorem Holds.markerRd_record (h : Holds c s.flash page (.record nr recs)) (hk : recs[k]? = some d) :
    (logFsMarkerRd page (recOffset c k)).Returns s logFsMarkerRecord s := by
  have hm : s.flash page (recOffset c k) = logFsMarkerRecord := by
    have h0 : (s.flash.read page (recOffset c k) c.recBlockSize)[0]? = some (s.flash page (recOffset c k)) :=
      getElem?_read recBlockSize_pos
    rw [(h.2.2.2 k d hk).2] at h0
    simpa [LogFsRecBlock.toBytes, LogFsRecBlock.body, LogFsRecBlock.seal, eq_comm] using h0
  have := markerRd_returns (s := s) (by rw [hm]; decide)
  rwa [hm] at this

theorem Holds.recordBlockRd_valid (h : Holds c s.flash page (.record nr recs)) (hk : recs[k]? = some d) :
    (logFsRecordBlockRd c page (recOffset c k)).Returns s true (s.setRecordBlock (.seal d)) := by
  obtain ⟨hd, hread⟩ := h.2.2.2 k d hk
  have hof : LogFsRecBlock.ofBytes c.recDataSize (LogFsRecBlock.seal d).toBytes = .seal d := by
    rw [← hd]
    exact LogFsRecBlock.ofBytes_toBytes (.seal d)
  unfold logFsRecordBlockRd
  refine (h.markerRd_record hk).bind ?_
  simp only [ne_eq, not_true_eq_false, if_false, at45dRd_bind, hread, hof, setLogFs_bind]
  simp [LogFsRecBlock.seal, logFsCrcRecordBlock, LogFsRecBlock.body, Sys.setRecordBlock]

theorem Holds.markerRd_free (h : Holds c s.flash page (.record nr recs)) (hk : recs.length ≤ k) :
    (logFsMarkerRd page (recOffset c k)).Returns s logFsMarkerFree s := by
  have hm : s.flash page (recOffset c k) = logFsMarkerFree := h.2.2.1 _ (recOffset_mono hk)
  have := markerRd_returns (s := s) (by rw [hm]; decide)
  rwa [hm] at this

theorem Holds.recordBlockRd_free (h : Holds c s.flash page (.record nr recs)) (hk : recs.length ≤ k) :
    (logFsRecordBlockRd c page (recOffset c k)).Returns s false s := by
  unfold logFsRecordBlockRd
  refine (h.markerRd_free hk).bind ?_
  simp [logFsMarkerFree, logFsMarkerRecord]

end recordReading

end Lpc1788Libraries.DataManager

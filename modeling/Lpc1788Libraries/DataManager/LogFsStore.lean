import Lpc1788Libraries.DataManager.LogFsDeleteFile
import Lpc1788Libraries.DataManager.LogFsReading
import Lpc1788Libraries.DataManager.LogFsRun
import Lpc1788Libraries.Support.RecordLog

namespace Lpc1788Libraries.DataManager

open Lpc1788Libraries.Support NorFlash BoundedProgram

abbrev LogFsEntry := LogEntry ℕ LogFsTimeStamp Rec

/-- The answer to a search that has come to a file, or to the end. -/
def fileAnswer : Option LogFsEntry → LogFsAnswer
  | none => noMoreFiles
  | some e => foundFile ⟨e.place, e.stamp⟩

/-- The answer to a read of `nrOfBytes` bytes of a record. -/
def recordAnswer (nrOfBytes : ℕ) : Option Rec → LogFsAnswer
  | none => ⟨.noRecord, none, []⟩
  | some d => ⟨.none, none, d.take nrOfBytes⟩

/-- What a caller of the file system can tell: the files with their records, the FILE page of the file that has been
found last, and the FILE page of the file that is open with the index of the record that has been read last. -/
structure LogStore where
  files : RecordLog ℕ LogFsTimeStamp Rec
  info : Option ℕ
  handle : Option (ℕ × Option ℕ)

namespace LogStore

def empty : LogStore := ⟨[], none, none⟩

variable (c : LogFsCfg) (σ : LogStore)

/-- The records of the open file. -/
def records : List Rec :=
  match σ.handle with
  | none => []
  | some (page, _) => σ.files.recordsAt page

/-- The file that a search comes to. -/
def finds : LogFsCall → Option LogFsEntry
  | .fileFindFirst => σ.files.head?
  | .fileFindLast => σ.files.getLast?
  | .fileFindNext => σ.info.bind fun page => σ.files.behind page
  | .fileFindPrevious => σ.info.bind fun page => σ.files.before page
  | _ => none

/-- The index of the record that a read asks for. -/
def seeks : LogFsCall → Option ℕ
  | .recordRdFirst _ => some 0
  | .recordRdLast _ => if σ.records = [] then none else some (σ.records.length - 1)
  | .recordRdNext _ => (σ.handle.bind Prod.snd).map (· + 1)
  | .recordRdPrevious _ => (σ.handle.bind Prod.snd).bind fun k => if k = 0 then none else some (k - 1)
  | _ => none

def reads (call : LogFsCall) : Option Rec := (σ.seeks call).bind fun k => σ.records[k]?

/-- The calls that the answers are promised for. The records of a file are read and written while it is open, backwards and,
with `LOG_FS_CFG_MAX_PAGES`, for writing only while it is the file that has been found last. -/
def Permitted : LogFsCall → Prop
  | .recordRdFirst _ => ∃ page k, σ.handle = some (page, k)
  | .recordRdNext _ => ∃ page k, σ.handle = some (page, some k)
  | .recordRdLast _ => ∃ page k, σ.handle = some (page, k) ∧ σ.info = some page
  | .recordRdPrevious _ => ∃ page k, σ.handle = some (page, some k) ∧ σ.info = some page
  | .recordWr _ => ∃ page k, σ.handle = some (page, k) ∧ (c.maxPages ≠ 0 → σ.info = some page)
  | .fileFindNext => σ.info ≠ none
  | .fileFindPrevious => σ.info ≠ none
  | _ => True

/-- The answers that a call may give. -/
def Answers (a : LogFsAnswer) : LogFsCall → Prop
  | .init => a = .ofErr .none
  | .create _ => a = .ofErr .none ∨ a = .ofErr .full ∧ σ.files ≠ []
  | .open file => a = .ofErr (if file.startPage ∈ σ.files.places then .none else .fileInvalid)
  | .fileDelete file => a = .ofErr (if σ.files.places.head? = some file.startPage then .none else .fileInvalid)
  | .recordWr _ => a = .ofErr .none ∨ (a = .ofErr .full ∧ capacity c ∣ σ.records.length) ∨
      a = .ofErr .writeFail ∧ capacity c < c.recordsPerPage
  | .fileFindFirst => a = fileAnswer (σ.finds .fileFindFirst)
  | .fileFindLast => a = fileAnswer (σ.finds .fileFindLast)
  | .fileFindNext => a = fileAnswer (σ.finds .fileFindNext)
  | .fileFindPrevious => a = fileAnswer (σ.finds .fileFindPrevious)
  | .recordRdFirst n => a = recordAnswer n (σ.reads (.recordRdFirst n))
  | .recordRdLast n => a = recordAnswer n (σ.reads (.recordRdLast n))
  | .recordRdNext n => a = recordAnswer n (σ.reads (.recordRdNext n))
  | .recordRdPrevious n => a = recordAnswer n (σ.reads (.recordRdPrevious n))

/-- A file has been found. -/
def noticed (e : Option LogFsEntry) : LogStore :=
  match e with
  | none => σ
  | some e => { σ with info := some e.place }

/-- The record with the index `k` has been read. -/
def moved (k : Option ℕ) : LogStore :=
  match σ.handle, k.bind fun k => (σ.records[k]?).map fun _ => k with
  | some (page, _), some k => { σ with handle := some (page, some k) }
  | _, _ => σ

/-- What a call leaves when it has answered with `err`. The FILE page of a file that has been created is `page`. -/
def after (page : ℕ) (err : LogFsErr) : LogFsCall → LogStore
  | .init => { σ with info := none, handle := none }
  | .create timeStamp =>
    if err = .none then ⟨σ.files ++ [⟨page, timeStamp, []⟩], some page, some (page, none)⟩ else σ
  | .open file =>
    if err = .none then { σ with info := some file.startPage, handle := some (file.startPage, none) } else σ
  | .fileDelete file =>
    if err = .none then ⟨σ.files.tail, none, σ.handle.filter fun h => h.1 ≠ file.startPage⟩ else σ
  | .recordWr data =>
    match σ.handle with
    | some (page, _) => if err = .none then { σ with files := σ.files.append page (recordData c.recDataSize data) } else σ
    | none => σ
  | .fileFindFirst => σ.noticed (σ.finds .fileFindFirst)
  | .fileFindLast => σ.noticed (σ.finds .fileFindLast)
  | .fileFindNext => σ.noticed (σ.finds .fileFindNext)
  | .fileFindPrevious => σ.noticed (σ.finds .fileFindPrevious)
  | .recordRdFirst n => σ.moved (σ.seeks (.recordRdFirst n))
  | .recordRdLast n => σ.moved (σ.seeks (.recordRdLast n))
  | .recordRdNext n => σ.moved (σ.seeks (.recordRdNext n))
  | .recordRdPrevious n => σ.moved (σ.seeks (.recordRdPrevious n))

end LogStore

variable (c : LogFsCfg)

/-- The states that permitted calls lead to from power-on, with the calls and their answers, newest first. -/
inductive Run : List (LogFsCall × LogFsAnswer) → LogStore → Sys → Prop
  | init {a : LogFsAnswer} {t : Sys} (h : (logFsCall c .init).Returns (powerOn c) a t) : Run [(.init, a)] .empty t
  | call {hist : List (LogFsCall × LogFsAnswer)} {σ : LogStore} {s t : Sys} (call : LogFsCall) {a : LogFsAnswer}
      (hs : Run hist σ s) (hp : σ.Permitted c call) (h : (logFsCall c call).Returns s a t) :
      Run ((call, a) :: hist) (σ.after c t.filePage a.err call) t

/-- The stored files as the caller knows them. -/
def entries : ℕ → List StoredFile → RecordLog ℕ LogFsTimeStamp Rec
  | _, [] => []
  | b, g :: files => ⟨b, g.timeStamp, g.used.flatten⟩ :: entries (c.ring.step b g.pages.length) files

/-- The file is open, and a record of it has been read. -/
structure OpenAt (b : ℕ) (stored : List StoredFile) (s : Sys) (page : ℕ) (k : Option ℕ) : Prop where
  file : ∃ pre g post, stored = pre ++ g :: post ∧ page = pageAfter c b pre ∧ Writing c s.logFs page g.used ∧
    ∀ i ∈ k, ReadAt c s page g.used i
  filePage : c.ring.Mem s.filePage

/-- What the file system keeps of every file. -/
structure Kept (b : ℕ) (stored : List StoredFile) : Prop where
  nonempty : ∀ g ∈ stored, [] ∉ g.used
  fits : ∀ pre g post, stored = pre ++ g :: post → Fits c (pageAfter c b pre) g.used

/-- The flash and the descriptor hold what the caller knows. -/
inductive Represents : LogStore → Sys → Prop
  | blank {s : Sys} (flash : Blank c s.flash) (log : Unmounted s.logFs) : Represents .empty s
  | stored {b : ℕ} {stored : List StoredFile} {info : Option ℕ} {handle : Option (ℕ × Option ℕ)} {s : Sys}
      (image : Image c s.flash b stored) (mounted : Mounted c s.logFs b stored) (kept : Kept c b stored)
      (info_page : ∀ page ∈ info, s.filePage = page ∧ page ∈ (entries c b stored).places)
      (opened : ∀ page k, handle = some (page, k) → OpenAt c b stored s page k) :
      Represents ⟨entries c b stored, info, handle⟩ s

/-- Nothing has been written or erased. -/
def SameFlash (s t : Sys) : Prop := t.flash = s.flash ∧ t.images = s.images

variable {c} {σ : LogStore} {s t u : Sys} {f : Pages} {b p page k n nr : ℕ} {v : PageView} {g h : StoredFile}
  {pre mid post stored : List StoredFile} {used : List (List Rec)} {recs : List Rec} {spare : List Bool} {e : LogFsEntry}
  {file : LogFsFile} {a : LogFsAnswer} {err : LogFsErr} {ts : LogFsTimeStamp} {m : Option ℕ} {r : RecordRd}

section entries

theorem entries_append (hb : c.ring.Mem b) : entries c b (pre ++ post) = entries c b pre ++ entries c (pageAfter c b pre) post := by
  induction pre generalizing b with
  | nil => rw [pageAfter, layout_nil, List.length_nil, PageRing.step_zero hb]; rfl
  | cons g pre ih => rw [List.cons_append, entries, ih PageRing.step_mem, pageAfter_cons]; rfl

def StoredFile.entry (g : StoredFile) (page : ℕ) : LogFsEntry := ⟨page, g.timeStamp, g.used.flatten⟩

theorem entries_split (hb : c.ring.Mem b) : entries c b (pre ++ g :: post) =
    entries c b pre ++ g.entry (pageAfter c b pre) :: entries c (pageAfter c b (pre ++ [g])) post := by
  rw [entries_append hb, entries, pageAfter_snoc]
  rfl

theorem mem_places (hb : c.ring.Mem b) : page ∈ (entries c b stored).places ↔
    ∃ pre g post, stored = pre ++ g :: post ∧ page = pageAfter c b pre := by
  constructor
  · intro h
    induction stored using List.reverseRecOn with
    | nil => exact absurd h List.not_mem_nil
    | append_singleton stored g ih =>
      rw [entries_append hb, RecordLog.places_append] at h
      rcases List.mem_append.mp h with h | h
      · obtain ⟨pre, x, post, rfl, rfl⟩ := ih h
        exact ⟨pre, x, post ++ [g], by simp, rfl⟩
      · exact ⟨stored, g, [], rfl, List.mem_singleton.mp h⟩
  · rintro ⟨pre, g, post, rfl, rfl⟩
    rw [entries_split hb, RecordLog.places_append]
    exact List.mem_append_right _ (List.mem_cons_self ..)

theorem length_places : (entries c b stored).places.length = stored.length := by
  induction stored generalizing b with
  | nil => rfl
  | cons g stored ih => rw [entries, RecordLog.places_cons, List.length_cons, List.length_cons, ih]

theorem getElem_places (hb : c.ring.Mem b) (hk : k < (entries c b stored).places.length) :
    (entries c b stored).places[k] = pageAfter c b (stored.take k) := by
  induction stored generalizing b k with
  | nil => exact absurd hk (Nat.not_lt_zero k)
  | cons g stored ih =>
    cases k with
    | zero =>
      rw [List.take_zero, pageAfter, layout_nil, List.length_nil, PageRing.step_zero hb]
      rfl
    | succ k =>
      rw [List.take_succ_cons, pageAfter_cons]
      exact ih PageRing.step_mem (Nat.lt_of_succ_lt_succ hk)

theorem nodup_places (hv : Volume c f b (layout stored)) : (entries c b stored).places.Nodup := by
  rw [List.nodup_iff_injective_getElem]
  rintro ⟨i, hi⟩ ⟨j, hj⟩ hij
  simp only at hij
  rw [getElem_places hv.base hi, getElem_places hv.base hj] at hij
  rw [length_places] at hi hj
  exact Fin.ext (pageAfter_take_inj hv hi hj hij)

end entries

section same

/-- The descriptor tells the same of the open file. -/
structure SameRecords (s t : Sys) : Prop where
  first : t.logFs.recPageFirst = s.logFs.recPageFirst
  last : t.logFs.recPageLast = s.logFs.recPageLast
  nr : t.logFs.recPageNrNext = s.logFs.recPageNrNext
  write : t.logFs.recAdrWr = s.logFs.recAdrWr
  read : t.logFs.recAdrRd = s.logFs.recAdrRd

theorem SameRecords.writing (h : SameRecords s t) (hw : Writing c s.logFs p used) : Writing c t.logFs p used := by
  constructor
  · rw [h.first, hw.first]
  · rw [h.last, hw.last]
  · rw [h.nr, hw.nr]
  · rw [h.write]
    exact hw.cursor

theorem SameRecords.readAt (h : SameRecords s t) (hat : ReadAt c s p used k) : ReadAt c t p used k := by
  obtain ⟨us, recs, us', j, hus, hj, hk, hadr⟩ := hat
  exact ⟨us, recs, us', j, hus, hj, hk, h.read.trans hadr⟩

theorem SameRecords.openAt {k : Option ℕ} (h : SameRecords s t) (hm : c.ring.Mem t.filePage) (ho : OpenAt c b stored s page k) :
    OpenAt c b stored t page k := by
  obtain ⟨pre, g, post, hstored, hpage, hw, hk⟩ := ho.file
  exact ⟨⟨pre, g, post, hstored, hpage, h.writing hw, fun i hi => h.readAt (hk i hi)⟩, hm⟩

theorem Described.sameFlash (h : Described s t page ts) : SameFlash s t := by
  obtain ⟨x, rfl⟩ := h
  exact ⟨rfl, rfl⟩

theorem Described.sameRecords (h : Described s t page ts) : SameRecords s t := by
  obtain ⟨x, rfl⟩ := h
  constructor <;> rfl

end same

section kept

theorem kept_append : Kept c b (pre ++ post) ↔ Kept c b pre ∧ Kept c (pageAfter c b pre) post := by
  constructor
  · intro h
    refine ⟨⟨fun g hg => h.nonempty g (List.mem_append_left _ hg), ?_⟩, fun g hg => h.nonempty g (List.mem_append_right _ hg), ?_⟩
    · rintro xs g ys rfl
      exact h.fits xs g (ys ++ post) (by simp)
    · rintro xs g ys rfl
      have := h.fits (pre ++ xs) g ys (by simp)
      rwa [pageAfter_append] at this
  · rintro ⟨hpre, hpost⟩
    constructor
    · intro g hg
      rcases List.mem_append.mp hg with hg | hg
      · exact hpre.nonempty g hg
      · exact hpost.nonempty g hg
    · intro xs g ys hsplit
      rcases List.append_eq_append_iff.mp hsplit with ⟨mid, rfl, hmid⟩ | ⟨mid, rfl, hmid⟩
      · rw [pageAfter_append]
        exact hpost.fits mid g ys hmid
      · cases mid with
        | nil =>
          have := hpost.fits [] g ys hmid.symm
          rwa [pageAfter, layout_nil, List.length_nil, PageRing.step_zero pageAfter_mem, List.append_nil] at this
        | cons x mid =>
          obtain ⟨rfl, rfl⟩ := List.cons.inj hmid
          exact hpre.fits xs g mid rfl

theorem kept_single (hb : c.ring.Mem b) : Kept c b [g] ↔ [] ∉ g.used ∧ Fits c b g.used := by
  have h0 : pageAfter c b [] = b := PageRing.step_zero hb
  constructor
  · intro h
    have hfits := h.fits [] g [] rfl
    rw [h0] at hfits
    exact ⟨h.nonempty g (List.mem_singleton_self g), hfits⟩
  · rintro ⟨hnonempty, hfits⟩
    constructor
    · intro x hx
      rw [List.mem_singleton.mp hx]
      exact hnonempty
    · intro xs x ys hsplit
      cases xs with
      | nil =>
        obtain ⟨rfl, -⟩ := List.cons.inj hsplit
        rwa [h0]
      | cons y xs => exact absurd (List.cons.inj hsplit).2 (by simp)

theorem kept_split : Kept c b (pre ++ g :: post) ↔
    Kept c b pre ∧ ([] ∉ g.used ∧ Fits c (pageAfter c b pre) g.used) ∧ Kept c (pageAfter c b (pre ++ [g])) post := by
  have hcons : pre ++ g :: post = pre ++ ([g] ++ post) := rfl
  rw [hcons, kept_append, kept_append, kept_single pageAfter_mem, ← pageAfter_append]

end kept

section edited

theorem length_holding {x : Pages} (hv : Volume c f b (layout (pre ++ g :: post)))
    (hv' : Volume c x b (layout (pre ++ g.holding used spare :: post))) : (g.holding used spare).pages.length = g.pages.length := by
  have h := hv.length
  have h' := hv'.length
  rw [layout_append, layout_cons, List.length_append, List.length_append] at h h'
  omega

theorem pageAfter_edit (hlen : h.pages.length = g.pages.length) : pageAfter c b (pre ++ h :: post) = pageAfter c b (pre ++ g :: post) := by
  rw [pageAfter_append, pageAfter_append, pageAfter_cons, pageAfter_cons, hlen]

theorem entries_edit (hb : c.ring.Mem b) (hlen : h.pages.length = g.pages.length) :
    entries c b (pre ++ h :: post) =
      entries c b pre ++ h.entry (pageAfter c b pre) :: entries c (pageAfter c b (pre ++ [g])) post := by
  rw [entries_split hb, pageAfter_edit hlen]

theorem Mounted.edit {l l' : LogFs} (h : Mounted c l b (pre ++ g :: post)) (hlen : (g.holding used spare).pages.length = g.pages.length)
    (hfirst : l'.filePageFirst = l.filePageFirst) (hlast : l'.filePageLast = l.filePageLast)
    (hnr : l'.filePageNrNext = l.filePageNrNext) : Mounted c l' b (pre ++ g.holding used spare :: post) := by
  refine ⟨hfirst.trans h.first, fun pre' g' hsplit => ?_⟩
  rw [hlast, hnr]
  rcases List.eq_nil_or_concat post with rfl | ⟨mid, x, rfl⟩
  · obtain ⟨rfl, rfl⟩ := snoc_inj hsplit
    exact h.last pre g rfl
  · rw [List.concat_eq_append] at *
    have hassoc : pre ++ g.holding used spare :: (mid ++ [x]) = (pre ++ g.holding used spare :: mid) ++ [x] := by simp
    rw [hassoc] at hsplit
    obtain ⟨rfl, rfl⟩ := snoc_inj hsplit
    rw [pageAfter_edit hlen]
    exact h.last (pre ++ g :: mid) x (by simp)

end edited

end Lpc1788Libraries.DataManager

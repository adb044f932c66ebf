import Lpc1788Libraries.DataManager.LogFsReclaim
import Lpc1788Libraries.DataManager.LogFsStoreCalls
import Lpc1788Libraries.DataManager.LogFsTermination

namespace Lpc1788Libraries.DataManager

open Lpc1788Libraries.Support NorFlash BoundedProgram

variable {c : LogFsCfg} {σ : LogStore} {s t u : Sys} {f : Pages} {b p page k n nr : ℕ} {v : PageView} {g h : StoredFile}
  {pre mid post stored : List StoredFile} {used : List (List Rec)} {recs : List Rec} {spare : List Bool} {e : LogFsEntry}
  {file : LogFsFile} {a : LogFsAnswer} {err : LogFsErr} {ts : LogFsTimeStamp} {m : Option ℕ} {r : RecordRd}

section calls

variable {call : LogFsCall} {calls : List LogFsCall} {as : List LogFsAnswer}

theorem calls_nil : (logFsCalls c []).Returns s [] s := Prog.returns_pure.mpr ⟨rfl, rfl⟩

theorem calls_cons (h : (logFsCall c call).Returns s a t) (h' : (logFsCalls c calls).Returns t as u) :
    (logFsCalls c (call :: calls)).Returns s (a :: as) u :=
  h.bind (h'.bind (Prog.returns_pure.mpr ⟨rfl, rfl⟩))

theorem calls_inv (h : (logFsCalls c (call :: calls)).Returns s as u) :
    ∃ a t as', as = a :: as' ∧ (logFsCall c call).Returns s a t ∧ (logFsCalls c calls).Returns t as' u := by
  obtain ⟨a, t, ha, h⟩ := Prog.returns_bind.mp h
  obtain ⟨as', v, has, h⟩ := Prog.returns_bind.mp h
  obtain ⟨rfl, rfl⟩ := Prog.returns_pure.mp h
  exact ⟨a, t, as', rfl, ha, has⟩

theorem calls_inv_nil (h : (logFsCalls c []).Returns s as u) : as = [] ∧ u = s := by
  obtain ⟨rfl, rfl⟩ := Prog.returns_pure.mp h
  exact ⟨rfl, rfl⟩

end calls

section runs

theorem after_recordWr {data : List UInt8} (hh : σ.handle = some (page, m)) : σ.after c p err (.recordWr data) =
    if err = .none then { σ with files := σ.files.append page (recordData c.recDataSize data) } else σ := by
  obtain ⟨files, info, handle⟩ := σ
  obtain rfl : handle = some (page, m) := hh
  rfl

theorem Represents.call (call : LogFsCall) (hl : c.type = .linear) (hcap : 0 < capacity c) (h : Represents c σ s)
    (hp : σ.Permitted c call) (hcall : (logFsCall c call).Returns s a t) :
    σ.Answers c a call ∧ Represents c (σ.after c t.filePage a.err call) t := by
  cases call with
  | init =>
    obtain ⟨err, hr, rfl⟩ := Prog.returns_map.mp hcall
    obtain ⟨rfl, ht, -⟩ := h.init hr
    exact ⟨rfl, ht⟩
  | create ts =>
    obtain ⟨err, hr, rfl⟩ := Prog.returns_map.mp hcall
    obtain ⟨herr, ht⟩ := h.create hr
    refine ⟨?_, ht⟩
    rcases herr with rfl | ⟨rfl, hne⟩
    · exact .inl rfl
    · exact .inr ⟨rfl, hne⟩
  | fileFindFirst =>
    obtain ⟨r, hr, rfl⟩ := Prog.returns_map.mp hcall
    obtain ⟨ha, ht, -⟩ := h.fileFindFirst hr
    exact ⟨ha, ht⟩
  | fileFindLast =>
    obtain ⟨r, hr, rfl⟩ := Prog.returns_map.mp hcall
    obtain ⟨ha, ht, -⟩ := h.fileFindLast hr
    exact ⟨ha, ht⟩
  | fileFindNext =>
    obtain ⟨r, hr, rfl⟩ := Prog.returns_map.mp hcall
    obtain ⟨ha, ht, -⟩ := h.fileFindNext hp hr
    exact ⟨ha, ht⟩
  | fileFindPrevious =>
    obtain ⟨r, hr, rfl⟩ := Prog.returns_map.mp hcall
    obtain ⟨ha, ht, -⟩ := h.fileFindPrevious hp hr
    exact ⟨ha, ht⟩
  | «open» file =>
    obtain ⟨err, hr, rfl⟩ := Prog.returns_map.mp hcall
    obtain ⟨herr, ht⟩ := h.open hl hcap hr
    exact ⟨congrArg LogFsAnswer.ofErr herr, ht⟩
  | fileDelete file =>
    obtain ⟨err, hr, rfl⟩ := Prog.returns_map.mp hcall
    obtain ⟨herr, ht⟩ := h.fileDelete hr
    exact ⟨congrArg LogFsAnswer.ofErr herr, ht⟩
  | recordRdFirst n =>
    obtain ⟨r, hr, rfl⟩ := Prog.returns_map.mp hcall
    obtain ⟨page, k, hh⟩ := hp
    obtain ⟨ha, ht, -⟩ := h.recordRdFirst hl hh hr
    exact ⟨ha, ht⟩
  | recordRdLast n =>
    obtain ⟨r, hr, rfl⟩ := Prog.returns_map.mp hcall
    obtain ⟨page, k, hh, hi⟩ := hp
    obtain ⟨ha, ht, -⟩ := h.recordRdLast hl hh hi hr
    exact ⟨ha, ht⟩
  | recordRdNext n =>
    obtain ⟨r, hr, rfl⟩ := Prog.returns_map.mp hcall
    obtain ⟨page, k, hh⟩ := hp
    obtain ⟨ha, ht, -⟩ := h.recordRdNext hl hh hr
    exact ⟨ha, ht⟩
  | recordRdPrevious n =>
    obtain ⟨r, hr, rfl⟩ := Prog.returns_map.mp hcall
    obtain ⟨page, k, hh, hi⟩ := hp
    obtain ⟨ha, ht, -⟩ := h.recordRdPrevious hl hh hi hr
    exact ⟨ha, ht⟩
  | recordWr data =>
    obtain ⟨err, hr, rfl⟩ := Prog.returns_map.mp hcall
    obtain ⟨page, k, hh, hi⟩ := hp
    obtain ⟨herr, ht⟩ := h.recordWr hl hcap hh hi hr
    constructor
    · rcases herr with rfl | ⟨rfl, hdvd⟩ | ⟨rfl, hlt⟩
      · exact .inl rfl
      · exact .inr (.inl ⟨rfl, hdvd⟩)
      · exact .inr (.inr ⟨rfl, hlt⟩)
    · rw [after_recordWr hh]
      exact ht

/-- Calls that neither write nor erase. -/
def LogFsCall.Looks : LogFsCall → Prop
  | .create _ => False
  | .open _ => False
  | .fileDelete _ => False
  | .recordWr _ => False
  | _ => True

theorem Represents.looks {call : LogFsCall} (hl : c.type = .linear) (h : Represents c σ s) (hp : σ.Permitted c call)
    (hlooks : call.Looks) (hcall : (logFsCall c call).Returns s a t) : SameFlash s t := by
  cases call with
  | init =>
    obtain ⟨err, hr, -⟩ := Prog.returns_map.mp hcall
    exact (h.init hr).2.2
  | create ts => exact hlooks.elim
  | fileFindFirst =>
    obtain ⟨x, hr, -⟩ := Prog.returns_map.mp hcall
    exact (h.fileFindFirst hr).2.2
  | fileFindLast =>
    obtain ⟨x, hr, -⟩ := Prog.returns_map.mp hcall
    exact (h.fileFindLast hr).2.2
  | fileFindNext =>
    obtain ⟨x, hr, -⟩ := Prog.returns_map.mp hcall
    exact (h.fileFindNext hp hr).2.2
  | fileFindPrevious =>
    obtain ⟨x, hr, -⟩ := Prog.returns_map.mp hcall
    exact (h.fileFindPrevious hp hr).2.2
  | «open» file => exact hlooks.elim
  | fileDelete file => exact hlooks.elim
  | recordRdFirst n =>
    obtain ⟨x, hr, -⟩ := Prog.returns_map.mp hcall
    obtain ⟨page, k, hh⟩ := hp
    exact (h.recordRdFirst hl hh hr).2.2
  | recordRdLast n =>
    obtain ⟨x, hr, -⟩ := Prog.returns_map.mp hcall
    obtain ⟨page, k, hh, hi⟩ := hp
    exact (h.recordRdLast hl hh hi hr).2.2
  | recordRdNext n =>
    obtain ⟨x, hr, -⟩ := Prog.returns_map.mp hcall
    obtain ⟨page, k, hh⟩ := hp
    exact (h.recordRdNext hl hh hr).2.2
  | recordRdPrevious n =>
    obtain ⟨x, hr, -⟩ := Prog.returns_map.mp hcall
    obtain ⟨page, k, hh, hi⟩ := hp
    exact (h.recordRdPrevious hl hh hi hr).2.2
  | recordWr data => exact hlooks.elim

theorem blank_erased : Blank c erased := by
  refine ⟨List.replicate c.ring.size true, PageRing.lo_mem, ?_, by simp, fun _ _ _ _ => rfl⟩
  apply ahead_of_get PageRing.lo_mem
  intro k v hk
  rw [List.map_replicate] at hk
  rw [List.eq_of_mem_replicate (List.mem_of_getElem? hk)]
  exact fun _ _ => rfl

theorem Run.represents {hist : List (LogFsCall × LogFsAnswer)} (hl : c.type = .linear) (hcap : 0 < capacity c)
    (h : Run c hist σ s) : Represents c σ s := by
  induction h with
  | init h =>
    obtain ⟨err, hr, -⟩ := Prog.returns_map.mp h
    obtain ⟨u, hu, hf, -, hm⟩ := init_unmounted (c := c) (s := powerOn c) blank_erased
    obtain ⟨-, rfl⟩ := hu.unique hr
    exact .blank (by rw [hf]; exact blank_erased) hm
  | call call hs hp h ih => exact (ih.call _ hl hcap hp h).2

end runs

section ending

theorem linear_nextEnds (hl : c.type = .linear) {adr : LogFsAdr} (hp : c.ring.Mem adr.page) (ho : pageHeaderSize ≤ adr.offset) :
    NextEnds c s adr := by
  refine ⟨hp, ho, fun h => ?_, fun h => ?_⟩
  · rw [hl] at h
    exact absurd h (by decide)
  · have := h.1
    rw [hl] at this
    exact absurd this (by decide)

theorem linear_previousEnds (hl : c.type = .linear) {adr : LogFsAdr} (hp : c.ring.Mem adr.page)
    (ho : ∃ k < c.recordsPerPage, adr.offset = recOffset c k) (hm : c.ring.Mem s.filePage) : PreviousEnds c s adr := by
  refine ⟨hp, .inr ho, hm, fun h => ?_⟩
  rw [hl] at h
  exact absurd h (by decide)

theorem Writing.place {l : LogFs} (hw : Writing c l p used) :
    c.ring.Mem l.recAdrWr.page ∧ ∃ k < c.recordsPerPage, l.recAdrWr.offset = recOffset c k := by
  rcases hw.cursor with ⟨hadr, -⟩ | ⟨recs, -, hadr, -, hlt⟩
  · rw [hadr]
    exact ⟨PageRing.step_mem, 0, recordsPerPage_pos, rfl⟩
  · rw [hadr]
    exact ⟨PageRing.step_mem, recs.length, hlt, rfl⟩

theorem ReadAt.place (h : ReadAt c s p used k) (hf : Filled c used) :
    c.ring.Mem s.logFs.recAdrRd.page ∧ ∃ j < c.recordsPerPage, s.logFs.recAdrRd.offset = recOffset c j := by
  obtain ⟨us, recs, us', j, hus, hj, -, hadr⟩ := h
  have hle := hf.le recs (by rw [hus]; simp)
  have hcap := capacity_le (c := c)
  rw [hadr]
  exact ⟨PageRing.step_mem, j, by omega, rfl⟩

theorem Holds.found (hh : Holds c f p v) (hv : v.marker = logFsMarkerFile) : Found f logFsMarkerFile p := by
  refine ⟨.inl rfl, ?_⟩
  cases v with
  | free => exact absurd hv (by decide)
  | bad => exact absurd hv (by decide)
  | header nr => exact ⟨nr, hh.1⟩
  | file nr ts => exact ⟨nr, hh.1⟩
  | record nr recs => exact absurd (show logFsMarkerRecord = logFsMarkerFile from hv) (by decide)

theorem record_number {i : ℕ} (hA : Ahead c f (c.ring.next p) (g.body ++ [v])) (hv : v.marker = logFsMarkerFile)
    (hp : c.ring.Mem p) (hi : i < g.body.length + 1) (hh : HeaderAt f (c.ring.step (c.ring.next p) i) logFsMarkerRecord nr) : nr = i := by
  have hlt : i < (g.body ++ [v]).length := by rwa [List.length_append, List.length_singleton]
  obtain ⟨w, hw⟩ : ∃ w, (g.body ++ [v])[i]? = some w := ⟨_, List.getElem?_eq_getElem hlt⟩
  have hmarker : w.marker = logFsMarkerRecord := by
    rw [← (hA.get (PageRing.next_mem hp) hw).marker_eq, hh.marker_eq]
  have hlen : (recordPages 0 g.used).length = g.used.length := length_recordPages
  have hused : i < g.used.length := by
    by_contra hge
    rw [StoredFile.body, List.append_assoc, List.getElem?_append_right (by omega)] at hw
    rcases List.mem_append.mp (List.mem_of_getElem? hw) with hmem | hmem
    · exact spare_not_record hmem hmarker
    · rw [List.mem_singleton.mp hmem, hv] at hmarker
      exact absurd hmarker (by decide)
  have hget : (g.body ++ [v])[i]? = some (.record i g.used[i]) := by
    rw [StoredFile.body, List.append_assoc, List.getElem?_append_left (by omega),
      getElem?_recordPages (List.getElem?_eq_getElem hused), Nat.zero_add]
  exact (hh.unique (hA.get (PageRing.next_mem hp) hget).1).2

theorem not_oneNumber (hv : Volume c s.flash b (layout (pre ++ g :: post))) (hm : Mounted c s.logFs b (pre ++ g :: post))
    (hn : SearchSize c s (pageAfter c b pre) n) :
    ¬ OneNumber c s.flash logFsMarkerRecord (c.ring.next (pageAfter c b pre)) n := by
  have hmem : c.ring.Mem (pageAfter c b pre) := pageAfter_mem
  obtain ⟨v, hvm, hA⟩ := hv.behind
  have hle : n ≤ g.body.length + 1 := by
    obtain ⟨-, hsize, hcase⟩ := hn
    by_cases halone : s.logFs.filePageFirst = s.logFs.filePageLast
    · obtain ⟨rfl, rfl⟩ := List.append_eq_nil_iff.mp ((hm.alone hv).mp halone)
      have hlen := hv.at_file.length
      rw [layout_append, layout_nil, List.append_nil, List.append_nil, StoredFile.pages, List.length_cons] at hlen
      omega
    · rw [if_neg halone] at hcase
      by_contra hgt
      have hlast : (g.body ++ [v])[g.body.length]? = some v := by simp
      exact hcase.2 g.body.length (by omega) ((hA.get (PageRing.next_mem hmem) hlast).found hvm)
  rintro ⟨⟨i, hi, k, hk, hne, ⟨-, a, ha⟩, -, b', hb'⟩, nr, hone⟩
  have h1 := record_number hA hvm hmem (by omega) ha
  have h2 := record_number hA hvm hmem (by omega) hb'
  have h3 := hone i hi a ha
  have h4 := hone k hk b' hb'
  omega

/-- Calls that look at the bound of the file need a bound in the file system. -/
def LogFsCall.AsksBound : LogFsCall → Prop
  | .open _ => True
  | .recordWr _ => True
  | _ => False

theorem Represents.terminates (call : LogFsCall) (hl : c.type = .linear)
    (hbound : call.AsksBound → c.maxPages ≠ c.ring.size) (h : Represents c σ s) (hp : σ.Permitted c call) :
    (logFsCall c call).Terminates s := by
  cases call with
  | init => exact call_terminates trivial
  | create ts =>
    apply call_terminates
    cases h with
    | blank flash log => exact .inl log.last
    | @stored b stored info handle _ image mounted kept info_page opened =>
      obtain ⟨pre, g, rfl⟩ := exists_newest image.volume.not_blank
      right
      constructor
      · rw [(mounted.last pre g rfl).1]
        exact pageAfter_mem
      · exact ⟨_, pageAfter_mem, Holds.found image.volume.at_file.ahead.1 rfl⟩
  | fileFindFirst => exact call_terminates trivial
  | fileFindLast => exact call_terminates trivial
  | fileFindNext =>
    apply call_terminates
    cases h with
    | blank flash log => exact .inl log.last
    | @stored b stored info handle _ image mounted kept info_page opened =>
      obtain ⟨page, rfl⟩ := Option.ne_none_iff_exists'.mp hp
      obtain ⟨hpage, hmem⟩ := info_page page rfl
      obtain ⟨pre, g, hlast⟩ := exists_newest image.volume.not_blank
      obtain ⟨xs, x, ys, -, rfl⟩ := (mem_places image.volume.base).mp hmem
      refine .inr (.inr ⟨hpage ▸ pageAfter_mem, ?_⟩)
      rw [(mounted.last pre g hlast).1]
      exact pageAfter_mem
  | fileFindPrevious =>
    apply call_terminates
    cases h with
    | blank flash log => exact .inl log.first
    | @stored b stored info handle _ image mounted kept info_page opened =>
      obtain ⟨page, rfl⟩ := Option.ne_none_iff_exists'.mp hp
      obtain ⟨hpage, hmem⟩ := info_page page rfl
      obtain ⟨xs, x, ys, -, rfl⟩ := (mem_places image.volume.base).mp hmem
      refine .inr (.inr ⟨hpage ▸ pageAfter_mem, ?_⟩)
      rw [mounted.first]
      exact image.volume.base
  | «open» file =>
    by_cases hmem : file.startPage ∈ σ.files.places
    · cases h with
      | blank flash log => exact absurd hmem List.not_mem_nil
      | @stored b stored info handle _ image mounted kept info_page opened =>
        obtain ⟨pre, g, post, rfl, hpage⟩ := (mem_places image.volume.base).mp hmem
        apply call_terminates
        change OpenEnds c s file.startPage
        rw [hpage]
        refine ⟨pageAfter_mem, boundEnd_mem pageAfter_mem fun hb => hbound trivial hb.2, fun n hn => ?_⟩
        exact not_oneNumber image.volume mounted hn
    · obtain ⟨v, hh, hv⟩ := h.not_file _ hmem
      exact (open_other hh hv).terminates.map
  | fileDelete file =>
    by_cases hfirst : file.startPage = s.logFs.filePageFirst
    · cases h with
      | blank flash log =>
        obtain ⟨v, hh, hv⟩ := (Represents.blank flash log).not_file file.startPage List.not_mem_nil
        exact (delete_unread hh hv hfirst).terminates.map
      | @stored b stored info handle _ image mounted kept info_page opened =>
        obtain ⟨g, files, rfl⟩ := List.exists_cons_of_ne_nil image.volume.not_blank
        rw [mounted.first] at hfirst
        rcases List.eq_nil_or_concat files with rfl | ⟨mid, h, rfl⟩
        · obtain ⟨u, x, hu, -⟩ := delete_only image mounted hfirst
          exact hu.terminates.map
        · rw [List.concat_eq_append] at *
          obtain ⟨u, x, hu, -⟩ := delete_older image mounted hfirst
          exact hu.terminates.map
    · exact (delete_invalid hfirst).terminates.map
  | recordRdFirst n =>
    obtain ⟨page, k, hh⟩ := hp
    obtain ⟨b, pre, g, post, info, -, -, image, -, -, -, hw, -, -⟩ := h.handle hh
    apply call_terminates
    by_cases hused : g.used = []
    · left
      rw [hw.first, if_pos hused]
    · right
      rw [hw.first, if_neg hused]
      refine ⟨PageRing.next_mem pageAfter_mem, linear_nextEnds hl ?_ (Nat.le_add_right _ _)⟩
      exact PageRing.prev_mem (PageRing.next_mem pageAfter_mem)
  | recordRdLast n =>
    obtain ⟨page, k, hh, -⟩ := hp
    obtain ⟨b, pre, g, post, info, -, -, image, -, -, -, hw, hmem, -⟩ := h.handle hh
    obtain ⟨hpage, hoffset⟩ := hw.place
    exact call_terminates (.inr (linear_previousEnds hl hpage hoffset hmem))
  | recordRdNext n =>
    obtain ⟨page, k, hh⟩ := hp
    obtain ⟨b, pre, g, post, info, -, -, image, -, -, -, -, -, hat⟩ := h.handle hh
    obtain ⟨hpage, j, -, hoffset⟩ := (hat k rfl).place (image.filled g (by simp))
    apply call_terminates
    exact linear_nextEnds hl hpage (hoffset ▸ pageHeaderSize_le_recOffset j)
  | recordRdPrevious n =>
    obtain ⟨page, k, hh, -⟩ := hp
    obtain ⟨b, pre, g, post, info, -, -, image, -, -, -, -, hmem, hat⟩ := h.handle hh
    obtain ⟨hpage, hoffset⟩ := (hat k rfl).place (image.filled g (by simp))
    exact call_terminates (linear_previousEnds hl hpage hoffset hmem)
  | recordWr data =>
    obtain ⟨page, k, hh, -⟩ := hp
    obtain ⟨b, pre, g, post, info, -, -, image, -, -, -, hw, hmem, -⟩ := h.handle hh
    apply call_terminates
    intro _
    refine ⟨hw.place.1, hmem, boundEnd_mem hmem fun hb => hbound trivial hb.2, fun hcircular => ?_⟩
    rw [hl] at hcircular
    exact absurd hcircular (by decide)

end ending

section answers

/-- A file with two records. -/
def twoRecords (page : ℕ) : LogStore := ⟨[⟨page, reclaimTime, [recordData 3 [1], recordData 3 [2]]⟩], some page, some (page, none)⟩

theorem twoRecords_run : ∃ page hist s, Run reclaimCfg hist (twoRecords page) s := by
  have hrun : ((logFsCalls reclaimCfg [.init, .create reclaimTime, .recordWr [1], .recordWr [2]]).run 20 (powerOn reclaimCfg)).any (fun r =>
      r.1.map LogFsAnswer.err = [.none, .none, .none, .none]) := by
    decide +kernel
  obtain ⟨⟨as, s⟩, hs, hrun⟩ := (Option.any_eq_true _ _).mp hrun
  have herr : as.map LogFsAnswer.err = [.none, .none, .none, .none] := of_decide_eq_true hrun
  obtain ⟨a₁, t₁, as, rfl, h₁, hs⟩ := calls_inv ⟨20, hs⟩
  obtain ⟨a₂, t₂, as, rfl, h₂, hs⟩ := calls_inv hs
  obtain ⟨a₃, t₃, as, rfl, h₃, hs⟩ := calls_inv hs
  obtain ⟨a₄, t₄, as, rfl, h₄, hs⟩ := calls_inv hs
  simp only [List.map_cons, List.cons.injEq] at herr
  obtain ⟨-, e₂, e₃, e₄, -⟩ := herr
  have r₂ := (Run.init h₁).call (.create reclaimTime) trivial h₂
  rw [e₂] at r₂
  have r₃ := r₂.call (.recordWr [1]) ⟨t₂.filePage, none, rfl, fun _ => rfl⟩ h₃
  rw [e₃] at r₃
  have r₄ := r₃.call (.recordWr [2]) ⟨t₂.filePage, none, rfl, fun _ => rfl⟩ h₄
  rw [e₄] at r₄
  refine ⟨t₂.filePage, [(.recordWr [2], a₄), (.recordWr [1], a₃), (.create reclaimTime, a₂), (.init, a₁)], t₄, ?_⟩
  have hsize : reclaimCfg.recDataSize = 3 := rfl
  simpa [LogStore.after, LogStore.empty, RecordLog.append, twoRecords, hsize] using r₄
theorem twoRecords_records {page : ℕ} : (twoRecords page).records = [recordData 3 [1], recordData 3 [2]] := by
  simp [twoRecords, LogStore.records, RecordLog.recordsAt]

/-- In every run every permitted call answers as the files that the caller knows tell. -/
theorem run_answers {hist : List (LogFsCall × LogFsAnswer)} {call : LogFsCall} (hl : c.type = .linear) (hcap : 0 < capacity c)
    (h : Run c hist σ s) (hp : σ.Permitted c call) (hcall : (logFsCall c call).Returns s a t) : σ.Answers c a call :=
  ((h.represents hl hcap).call _ hl hcap hp hcall).1

theorem run_answers_example : ∃ page hist s a t, Run reclaimCfg hist (twoRecords page) s ∧
    (logFsCall reclaimCfg (.recordRdFirst 3)).Returns s a t ∧ a = recordAnswer 3 (some (recordData 3 [1])) := by
  obtain ⟨page, hist, s, h⟩ := twoRecords_run
  have hp : (twoRecords page).Permitted reclaimCfg (.recordRdFirst 3) := ⟨page, none, rfl⟩
  obtain ⟨a, t, ht⟩ := (h.represents rfl (by decide)).terminates _ rfl False.elim hp
  have hreads : (twoRecords page).reads (.recordRdFirst 3) = some (recordData 3 [1]) := by
    rw [LogStore.reads, twoRecords_records]
    rfl
  have ha := run_answers rfl (by decide) h hp ht
  rw [LogStore.Answers, hreads] at ha
  exact ⟨page, hist, s, a, t, h, ht, ha⟩

/-- In every run every permitted call comes to an end. -/
theorem run_returns {hist : List (LogFsCall × LogFsAnswer)} {call : LogFsCall} (hl : c.type = .linear) (hcap : 0 < capacity c)
    (hbound : call.AsksBound → c.maxPages ≠ c.ring.size) (h : Run c hist σ s) (hp : σ.Permitted c call) :
    (logFsCall c call).Terminates s :=
  (h.represents hl hcap).terminates _ hl hbound hp

theorem run_returns_example : ∃ page hist s, Run reclaimCfg hist (twoRecords page) s ∧
    (logFsCall reclaimCfg (.recordWr [3])).Terminates s := by
  obtain ⟨page, hist, s, h⟩ := twoRecords_run
  exact ⟨page, hist, s, h, run_returns rfl (by decide) (fun _ => by decide) h ⟨page, none, rfl, fun _ => rfl⟩⟩

end answers

end Lpc1788Libraries.DataManager

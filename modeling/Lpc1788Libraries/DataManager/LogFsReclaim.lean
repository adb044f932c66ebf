import Lpc1788Libraries.DataManager.LogFsRun
import Lpc1788Libraries.DataManager.LogFsScan

namespace Lpc1788Libraries.DataManager

open Lpc1788Libraries.Support NorFlash BoundedProgram

variable {c : LogFsCfg} {s t : Sys} {file : LogFsFile}

/-- After a deletion the file info describes the deleted file, and nothing else of the open
file has changed. -/
theorem fileDelete_descriptor (hdel : (logFsFileDelete c file).Returns s .none t) :
    t.logFs.recAdrWr = s.logFs.recAdrWr ∧
      t.logFs.fileInfo.file.startPage = s.logFs.filePageFirst := by
  simp only [logFsFileDelete, getLogFs_bind] at hdel
  split at hdel
  · simp at hdel
  rename_i hfirst
  rw [not_not] at hfirst
  obtain ⟨found, t₁, h₁, hdel⟩ := Prog.returns_bind.mp hdel
  cases found with
  | false => simp at hdel
  | true =>
    obtain ⟨⟨h, i, ht₁⟩, hi⟩ := fileBlockRd_true h₁
    have last : ∀ {page : ℕ} {r : Sys}, (do
        let page ← Prog.loop (deleteRound c) page
        let _ ← logFsMarkerWr logFsMarkerBad page 0
        return .none : SysM LogFsErr).Returns r .none t → HeaderOnly r t := by
      intro page r
      refine fun hr => Prog.within_bind deleteLoop_headerOnly (fun _ => ?_) hr
      exact Prog.within_bind markerWr_headerOnly fun _ => Prog.within_pure
    simp only [Bool.not_true, Bool.false_eq_true, if_false] at hdel
    split at hdel
    · simp only [setLogFs_bind, pure_bind] at hdel
      obtain ⟨h', ht⟩ := last hdel
      rw [ht, ← hfirst, ← hi, ht₁]
      exact ⟨rfl, rfl⟩
    · obtain ⟨page, t₂, h₂, hdel⟩ := Prog.returns_bind.mp hdel
      simp only [setLogFs_bind, pure_bind] at hdel
      obtain ⟨h₂, ht₂⟩ := findNext_headerOnly h₂
      obtain ⟨h', ht⟩ := last hdel
      rw [ht, ht₂, ← hfirst, ← hi, ht₁]
      exact ⟨rfl, rfl⟩

/-- With the file info of the page itself, the page next to the last one of the open file is
the page, so the file counts as full. -/
theorem recordWr_bound (hl : c.type = .linear) (h0 : c.maxPages = 0) {page : ℕ}
    (hp : c.ring.Mem page) (hwr : s.logFs.recAdrWr = ⟨page, recOffsetFirst⟩)
    (hi : s.logFs.fileInfo.file.startPage = page) (data : List UInt8) :
    ∃ u, (logFsRecordWr c data).Returns s .full u := by
  obtain ⟨marker, u, hm⟩ := markerRd_terminates page 0 s
  obtain ⟨h, hu⟩ := markerRd_headerOnly hm
  have hbound : (isBoundPage c page).Returns u true u := by
    have hend : (logFsRecordPagesBoundEnd c).Returns u (c.ring.prev page) u := by
      simp only [logFsRecordPagesBoundEnd, h0, getLogFs_bind, ne_eq, not_true_eq_false, if_false, hu, hi]
      exact pagePrevious_returns hp
    unfold isBoundPage
    refine hend.bind ((pageNext_returns (PageRing.prev_mem hp)).bind ?_)
    simp [PageRing.next_prev hp]
  have hstart : (recordPageStart c page).Returns s (some .full) u := by
    unfold recordPageStart
    refine hm.bind ?_
    simp only [hl]
    split
    · simp
    · exact hbound.bind (by simp)
  refine ⟨u, ?_⟩
  simp only [logFsRecordWr, getLogFs_bind, hwr, if_true]
  exact hstart.bind (by simp)

/-- When the open file has come to the page of the oldest file, deleting that file does not give
the page free: the next record finds the file system full. -/
theorem recordWr_full_after_fileDelete (hl : c.type = .linear) (h0 : c.maxPages = 0)
    (hfirst : c.ring.Mem s.logFs.filePageFirst)
    (hwr : s.logFs.recAdrWr = ⟨s.logFs.filePageFirst, recOffsetFirst⟩)
    (hdel : (logFsFileDelete c file).Returns s .none t) (data : List UInt8) :
    ∃ u, (logFsRecordWr c data).Returns t .full u := by
  obtain ⟨hw, hi⟩ := fileDelete_descriptor hdel
  exact recordWr_bound hl h0 hfirst (hw.trans hwr) hi data

def reclaimCfg : LogFsCfg where
  pageSize := 32
  pageStart := 0
  pageEnd := 4
  recDataSize := 3
  type := .linear
  maxPages := 0
  dbg := true
  maxPages_le := by decide
  pageStart_lt := by decide
  pageEnd_lt := by decide
  pageEnd_maxPages_lt := by decide
  fileBlock_le := by decide
  recBlock_le := by decide
  pageSize_lt := by decide

def reclaimTime : LogFsTimeStamp := ⟨24, 1, 1, 12, 0, 0⟩

/-- Two files are created, and the newer one is filled up to the page of the older one. -/
def reclaimCalls : List LogFsCall :=
  [.create reclaimTime, .recordWr [1], .create reclaimTime] ++ List.replicate 10 (.recordWr [2])

theorem reclaim_run : ∃ hist s t, Reached reclaimCfg hist s ∧
    s.logFs.filePageFirst = 0 ∧ s.logFs.filePageLast = 2 ∧ s.logFs.recAdrWr = ⟨0, recOffsetFirst⟩ ∧
    (∃ u, (logFsRecordWr reclaimCfg [3]).Returns s .full u) ∧
    (logFsFileDelete reclaimCfg ⟨0, reclaimTime⟩).Returns s .none t ∧
    ∃ v, (logFsRecordWr reclaimCfg [3]).Returns t .full v := by
  have hrun : ((logFsCalls reclaimCfg (.init :: reclaimCalls)).run 20 (powerOn reclaimCfg)).any (fun r =>
      r.2.logFs.filePageFirst = 0 ∧ r.2.logFs.filePageLast = 2 ∧
      r.2.logFs.recAdrWr = ⟨0, recOffsetFirst⟩ ∧
      ((logFsRecordWr reclaimCfg [3]).run 20 r.2).any (·.1 = .full) ∧
      ((logFsFileDelete reclaimCfg ⟨0, reclaimTime⟩).run 20 r.2).any fun d => d.1 = .none ∧
        ((logFsRecordWr reclaimCfg [3]).run 20 d.2).any (·.1 = .full)) := by
    decide +kernel
  obtain ⟨⟨answers, s⟩, hs, hrun⟩ := (Option.any_eq_true _ _).mp hrun
  obtain ⟨h1, h2, h3, hfull, hrun⟩ := of_decide_eq_true hrun
  obtain ⟨⟨e, u⟩, hu, he⟩ := (Option.any_eq_true _ _).mp hfull
  obtain ⟨⟨d, t⟩, ht, hrun⟩ := (Option.any_eq_true _ _).mp hrun
  obtain ⟨hd, hfull⟩ := of_decide_eq_true hrun
  obtain ⟨⟨e', v⟩, hv, he'⟩ := (Option.any_eq_true _ _).mp hfull
  obtain rfl : e = .full := of_decide_eq_true he
  obtain rfl : e' = .full := of_decide_eq_true he'
  obtain rfl : d = .none := hd
  obtain ⟨hist, hs⟩ := reached_calls ⟨20, hs⟩
  exact ⟨hist, s, t, hs, h1, h2, h3, ⟨u, 20, hu⟩, ⟨20, ht⟩, v, 20, hv⟩

/-- After step 8 of the linear file example in `log_fs.h` the record has not been written. -/
theorem fileDelete_reclaims_nothing : ¬ ∀ hist s t file data, Reached reclaimCfg hist s →
    s.logFs.filePageFirst ≠ s.logFs.filePageLast →
    s.logFs.recAdrWr = ⟨s.logFs.filePageFirst, recOffsetFirst⟩ →
    (∃ u, (logFsRecordWr reclaimCfg data).Returns s .full u) →
    file.startPage = s.logFs.filePageFirst →
    (logFsFileDelete reclaimCfg file).Returns s .none t →
    ∃ u, (logFsRecordWr reclaimCfg data).Returns t .none u := by
  intro h
  obtain ⟨hist, s, t, hs, h1, h2, h3, hfull, ht, u, hu⟩ := reclaim_run
  obtain ⟨v, hv⟩ := h hist s t ⟨0, reclaimTime⟩ [3] hs (by rw [h1, h2]; decide) (by rw [h1, h3]) hfull
    (by rw [h1]) ht
  exact absurd (hu.unique hv).1 (by decide)

theorem recordWr_full_after_fileDelete_example : ∃ s t u,
    (logFsFileDelete reclaimCfg ⟨0, reclaimTime⟩).Returns s .none t ∧
      (logFsRecordWr reclaimCfg [3]).Returns t .full u := by
  obtain ⟨hist, s, t, hs, h1, h2, h3, hfull, ht, hu⟩ := reclaim_run
  obtain ⟨u, hu⟩ := recordWr_full_after_fileDelete (c := reclaimCfg) rfl rfl (by rw [h1]; decide)
    (by rw [h1, h3]) ht [3]
  exact ⟨s, t, u, ht, hu⟩

end Lpc1788Libraries.DataManager

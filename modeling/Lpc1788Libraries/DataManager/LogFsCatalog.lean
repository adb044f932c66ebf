import Mathlib.Data.List.Induction
import Lpc1788Libraries.DataManager.LogFsMount

namespace Lpc1788Libraries.DataManager

open Lpc1788Libraries.Support NorFlash BoundedProgram

variable {c : LogFsCfg} {s t : Sys} {f : Pages} {b p nr : ℕ} {g h : StoredFile} {pre post files : List StoredFile}

/-- The answer to a search that has found a file. -/
def foundFile (file : LogFsFile) : LogFsAnswer := ⟨.none, some file, []⟩

def noMoreFiles : LogFsAnswer := ⟨.noFile, none, []⟩

/-- The file info tells of the file, and nothing else but the page header has changed. -/
def Described (s t : Sys) (page : ℕ) (timeStamp : LogFsTimeStamp) : Prop :=
  ∃ x, t = (s.setHeader x).setFileInfo (fileInfoOf page timeStamp)

theorem Described.trans {u : Sys} {p q : ℕ} {ts ts' : LogFsTimeStamp} (h : Described s t p ts) (h' : Described t u q ts') :
    Described s u q ts' := by
  obtain ⟨x, rfl⟩ := h
  obtain ⟨y, rfl⟩ := h'
  exact ⟨y, rfl⟩

theorem Described.mounted {ts : LogFsTimeStamp} (h : Described s t p ts) (hm : Mounted c s.logFs b files) : Mounted c t.logFs b files := by
  obtain ⟨x, rfl⟩ := h
  exact ⟨hm.first, hm.last⟩

theorem Described.flash {ts : LogFsTimeStamp} (h : Described s t p ts) : t.flash = s.flash := by
  obtain ⟨x, rfl⟩ := h
  rfl

theorem Described.filePage {ts : LogFsTimeStamp} (h : Described s t p ts) : t.filePage = p := by
  obtain ⟨x, rfl⟩ := h
  rfl

theorem fileBlockRd_head (hv : Volume c s.flash p (g.pages ++ layout files)) :
    ∃ t, (logFsFileBlockRd p).Returns s true t ∧ Described s t p g.timeStamp :=
  ⟨_, hv.ahead.1.fileBlockRd_file (mem_lt hv.base), _, rfl⟩

theorem fileFindFirst_returns (hv : Volume c s.flash b (layout (g :: files))) (hm : Mounted c s.logFs b (g :: files)) :
    ∃ t, logFsFileFindFirst.Returns s (.none, some ⟨b, g.timeStamp⟩) t ∧ Described s t b g.timeStamp := by
  obtain ⟨t, ht, hd⟩ := fileBlockRd_head hv
  refine ⟨t, ?_, hd⟩
  unfold logFsFileFindFirst
  rw [getLogFs_bind, hm.first, if_neg (mem_ne_invalid hv.base)]
  apply ht.bind
  obtain ⟨x, rfl⟩ := hd
  rw [if_neg (by decide), getLogFs_bind]
  exact Prog.returns_pure.mpr ⟨rfl, rfl⟩

theorem fileFindLast_returns (hv : Volume c s.flash b (layout (pre ++ [g]))) (hm : Mounted c s.logFs b (pre ++ [g])) :
    ∃ t, logFsFileFindLast.Returns s (.none, some ⟨pageAfter c b pre, g.timeStamp⟩) t ∧
      Described s t (pageAfter c b pre) g.timeStamp := by
  obtain ⟨t, ht, hd⟩ := fileBlockRd_head hv.at_file
  refine ⟨t, ?_, hd⟩
  unfold logFsFileFindLast
  rw [getLogFs_bind, (hm.last pre g rfl).1, if_neg (mem_ne_invalid pageAfter_mem)]
  apply ht.bind
  obtain ⟨x, rfl⟩ := hd
  rw [if_neg (by decide), getLogFs_bind]
  exact Prog.returns_pure.mpr ⟨rfl, rfl⟩

section next

theorem Mounted.newest (hm : Mounted c s.logFs b (pre ++ g :: h :: post)) (hv : Volume c f b (layout (pre ++ g :: h :: post))) :
    ∃ d, g.pages.length ≤ d ∧ d < c.ring.size ∧ s.logFs.filePageLast = c.ring.step (pageAfter c b pre) d := by
  obtain ⟨mid, g', hmid⟩ := exists_newest (List.cons_ne_nil h post)
  have hfiles : pre ++ g :: h :: post = (pre ++ g :: mid) ++ [g'] := by rw [hmid]; simp
  have hlen := hv.length
  rw [hfiles, layout_append, layout_append, layout_cons, layout_single, List.length_append, List.length_append,
    List.length_append, length_pages] at hlen
  refine ⟨(g.pages ++ layout mid).length, by rw [List.length_append]; omega, ?_, ?_⟩
  · rw [List.length_append, length_pages]
    rw [length_pages] at hlen
    omega
  · rw [(hm.last _ _ hfiles).1, pageAfter_append]
    rfl

theorem fileFindNext_returns (hv : Volume c s.flash b (layout (pre ++ g :: h :: post)))
    (hm : Mounted c s.logFs b (pre ++ g :: h :: post)) (hp : s.filePage = pageAfter c b pre) :
    ∃ t, (logFsFileFindNext c).Returns s (.none, some ⟨pageAfter c b (pre ++ [g]), h.timeStamp⟩) t ∧
      Described s t (pageAfter c b (pre ++ [g])) h.timeStamp := by
  have hmem : c.ring.Mem (pageAfter c b pre) := pageAfter_mem
  have hat := hv.at_file
  obtain ⟨d, hd, hsize, hlast⟩ := hm.newest hv
  have hpages : g.pages.length = g.body.length + 1 := List.length_cons
  have hne : ∀ k < d, c.ring.step (pageAfter c b pre) k ≠ s.logFs.filePageLast := by
    intro k hk
    rw [hlast, Ne, PageRing.step_inj (by omega) hsize]
    omega
  have hwalk : ∀ k, c.ring.next^[k] s.filePage = c.ring.step (pageAfter c b pre) k := by
    intro k
    rw [hp, PageRing.next_iterate hmem]
  have hnext : c.ring.next^[g.body.length + 1] s.filePage = pageAfter c b (pre ++ [g]) := by
    rw [hwalk, ← hpages, pageAfter_snoc]
  have htrail : Trail c s.flash c.ring.next s.filePage (g.body ++ .file h.nr h.timeStamp :: (h.body ++ layout (post ++ pre))) := by
    rw [trail_next, hp]
    exact hat.ahead.2
  have hsearch := fileSearch_trail (fun q _ hq => pageNext_returns hq) (fun q hq => PageRing.next_mem hq) (hp ▸ hmem) htrail
    (fun x hx => body_not_file hx) (fun k hk => by rw [hwalk]; exact hne _ (by omega))
  rw [hnext] at hsearch
  refine ⟨_, ?_, sealedHeader logFsMarkerFile h.nr, rfl⟩
  unfold logFsFileFindNext
  have hinvalid : s.logFs.filePageLast ≠ logFsPageInvalid := by
    rw [hlast]
    exact mem_ne_invalid PageRing.step_mem
  have hother : s.logFs.fileInfo.file.startPage ≠ s.logFs.filePageLast := by
    have h0 := hne 0 (by omega)
    rw [PageRing.step_zero hmem, ← hp] at h0
    exact h0
  rw [getLogFs_bind, if_neg hinvalid, if_neg hother]
  exact hsearch

theorem fileFindNext_end (hm : Mounted c s.logFs b (pre ++ [g]))
    (hp : s.filePage = pageAfter c b pre) : (logFsFileFindNext c).Returns s (.noFile, none) s := by
  have hlast : s.logFs.fileInfo.file.startPage = s.logFs.filePageLast := hp.trans (hm.last pre g rfl).1.symm
  have hinvalid : s.logFs.filePageLast ≠ logFsPageInvalid := by
    rw [(hm.last pre g rfl).1]
    exact mem_ne_invalid pageAfter_mem
  unfold logFsFileFindNext
  rw [getLogFs_bind, if_neg hinvalid, if_pos hlast]
  exact Prog.returns_pure.mpr ⟨rfl, rfl⟩

theorem fileFindNext_calls (hv : Volume c s.flash b (layout (pre ++ g :: post)))
    (hm : Mounted c s.logFs b (pre ++ g :: post)) (hp : s.filePage = pageAfter c b pre) :
    ∃ t, (logFsCalls c (List.replicate (post.length + 1) .fileFindNext)).Returns s
      ((listed c (pageAfter c b (pre ++ [g])) post).map foundFile ++ [noMoreFiles]) t := by
  induction post generalizing pre g s with
  | nil =>
    have hend : (logFsCall c .fileFindNext).Returns s noMoreFiles s := by
      rw [logFsCall, Prog.returns_map]
      exact ⟨_, fileFindNext_end hm hp, rfl⟩
    refine ⟨s, hend.bind ?_⟩
    exact (Prog.returns_pure.mpr ⟨rfl, rfl⟩ : Prog.Returns (logFsCalls c []) s [] s).bind (Prog.returns_pure.mpr ⟨rfl, rfl⟩)
  | cons h post ih =>
    obtain ⟨t, ht, hd⟩ := fileFindNext_returns hv hm hp
    have hcall : (logFsCall c .fileFindNext).Returns s (foundFile ⟨pageAfter c b (pre ++ [g]), h.timeStamp⟩) t := by
      rw [logFsCall, Prog.returns_map]
      exact ⟨_, ht, rfl⟩
    have hassoc : pre ++ g :: h :: post = (pre ++ [g]) ++ h :: post := by simp
    have hm' := hd.mounted hm
    rw [hassoc] at hv hm'
    rw [← hd.flash] at hv
    obtain ⟨u, hu⟩ := ih hv hm' hd.filePage
    refine ⟨u, hcall.bind (hu.bind ?_)⟩
    apply Prog.returns_pure.mpr
    refine ⟨?_, rfl⟩
    rw [listed, List.map_cons, List.cons_append, ← pageAfter_snoc]

theorem fileFind_forward (hv : Volume c s.flash b (layout files)) (hm : Mounted c s.logFs b files) :
    ∃ t, (logFsCalls c (.fileFindFirst :: List.replicate files.length .fileFindNext)).Returns s
      ((listed c b files).map foundFile ++ [noMoreFiles]) t := by
  obtain ⟨g, post, rfl⟩ := List.exists_cons_of_ne_nil hv.not_blank
  obtain ⟨t, ht, hd⟩ := fileFindFirst_returns hv hm
  have hcall : (logFsCall c .fileFindFirst).Returns s (foundFile ⟨b, g.timeStamp⟩) t := by
    rw [logFsCall, Prog.returns_map]
    exact ⟨_, ht, rfl⟩
  have hb : pageAfter c b [] = b := PageRing.step_zero hv.base
  have hv' : Volume c t.flash b (layout ([] ++ g :: post)) := by rwa [hd.flash]
  obtain ⟨u, hu⟩ := fileFindNext_calls hv' (hd.mounted hm) (hd.filePage.trans hb.symm)
  refine ⟨u, hcall.bind (hu.bind ?_)⟩
  apply Prog.returns_pure.mpr
  refine ⟨?_, rfl⟩
  rw [listed, List.map_cons, List.cons_append, List.nil_append, pageAfter, layout_single]

end next

section previous

theorem fileFindPrevious_returns (hv : Volume c s.flash b (layout (pre ++ g :: h :: post)))
    (hm : Mounted c s.logFs b (pre ++ g :: h :: post)) (hp : s.filePage = pageAfter c b (pre ++ [g])) :
    ∃ t, (logFsFileFindPrevious c).Returns s (.none, some ⟨pageAfter c b pre, g.timeStamp⟩) t ∧
      Described s t (pageAfter c b pre) g.timeStamp := by
  have hmem : c.ring.Mem (pageAfter c b pre) := pageAfter_mem
  have hat := hv.at_file
  have hpages : g.pages.length = g.body.length + 1 := List.length_cons
  have hpage : s.filePage = c.ring.step (pageAfter c b pre) g.pages.length := by
    rw [hp, pageAfter_snoc]
  have hne : ∀ k, 0 < k → k ≤ g.pages.length → c.ring.step (pageAfter c b pre) k ≠ s.logFs.filePageFirst := by
    intro k h0 hk heq
    have hlen := hv.length
    rw [layout_append, layout_cons, layout_cons, List.length_append, List.length_append, List.length_append, length_pages,
      length_pages] at hlen
    rw [length_pages] at hk
    rw [hm.first, pageAfter, PageRing.step_step, ← PageRing.step_zero hv.base, PageRing.step_step,
      PageRing.step_inj (by omega) (by omega)] at heq
    omega
  have hwalk : ∀ k ≤ g.pages.length, c.ring.prev^[k] s.filePage = c.ring.step (pageAfter c b pre) (g.pages.length - k) := by
    intro k hk
    rw [hpage, PageRing.prev_iterate hk]
  have htrail : Trail c s.flash c.ring.prev s.filePage (g.body.reverse ++ [.file g.nr g.timeStamp]) := by
    have hrev := ((ahead_append hmem).mp hat.ahead).1.trail_prev hmem
    rw [← hpage] at hrev
    rwa [StoredFile.pages, List.reverse_cons] at hrev
  have hlen : g.body.reverse.length = g.body.length := List.length_reverse
  have hsearch := fileSearch_trail (fun q _ hq => pagePrevious_returns hq) (fun q hq => PageRing.prev_mem hq)
    (hpage ▸ PageRing.step_mem) htrail (fun x hx => body_not_file (List.mem_reverse.mp hx)) (by
      intro k hk
      rw [hwalk _ (by omega)]
      exact hne _ (by omega) (by omega))
  rw [hlen, hwalk _ (by omega), hpages, Nat.sub_self, PageRing.step_zero hmem] at hsearch
  refine ⟨_, ?_, sealedHeader logFsMarkerFile g.nr, rfl⟩
  unfold logFsFileFindPrevious
  have hinvalid : s.logFs.filePageFirst ≠ logFsPageInvalid := by
    rw [hm.first]
    exact mem_ne_invalid hv.base
  have hother : s.logFs.fileInfo.file.startPage ≠ s.logFs.filePageFirst := by
    have h0 := hne g.pages.length (by omega) (Nat.le_refl _)
    rw [← hpage] at h0
    exact h0
  rw [getLogFs_bind, if_neg hinvalid, if_neg hother]
  exact hsearch

theorem fileFindPrevious_end (hv : Volume c f b (layout files)) (hm : Mounted c s.logFs b files) (hp : s.filePage = b) :
    (logFsFileFindPrevious c).Returns s (.noFile, none) s := by
  have hfirst : s.logFs.fileInfo.file.startPage = b := hp
  unfold logFsFileFindPrevious
  rw [getLogFs_bind, hm.first, if_neg (mem_ne_invalid hv.base), if_pos hfirst]
  exact Prog.returns_pure.mpr ⟨rfl, rfl⟩

theorem fileFindPrevious_calls (hv : Volume c s.flash b (layout (pre ++ g :: post)))
    (hm : Mounted c s.logFs b (pre ++ g :: post)) (hp : s.filePage = pageAfter c b pre) :
    ∃ t, (logFsCalls c (List.replicate (pre.length + 1) .fileFindPrevious)).Returns s
      ((listed c b pre).reverse.map foundFile ++ [noMoreFiles]) t := by
  induction pre using List.reverseRecOn generalizing g post s with
  | nil =>
    have hb : s.filePage = b := hp.trans (PageRing.step_zero hv.base)
    have hend : (logFsCall c .fileFindPrevious).Returns s noMoreFiles s := by
      rw [logFsCall, Prog.returns_map]
      exact ⟨_, fileFindPrevious_end hv hm hb, rfl⟩
    refine ⟨s, hend.bind ?_⟩
    exact (Prog.returns_pure.mpr ⟨rfl, rfl⟩ : Prog.Returns (logFsCalls c []) s [] s).bind (Prog.returns_pure.mpr ⟨rfl, rfl⟩)
  | append_singleton pre x ih =>
    have hassoc : (pre ++ [x]) ++ g :: post = pre ++ x :: g :: post := by simp
    rw [hassoc] at hv hm
    obtain ⟨t, ht, hd⟩ := fileFindPrevious_returns hv hm hp
    have hcall : (logFsCall c .fileFindPrevious).Returns s (foundFile ⟨pageAfter c b pre, x.timeStamp⟩) t := by
      rw [logFsCall, Prog.returns_map]
      exact ⟨_, ht, rfl⟩
    have hm' := hd.mounted hm
    rw [← hd.flash] at hv
    obtain ⟨u, hu⟩ := ih hv hm' hd.filePage
    rw [List.length_append, List.length_singleton, List.replicate_succ]
    refine ⟨u, hcall.bind (hu.bind ?_)⟩
    apply Prog.returns_pure.mpr
    refine ⟨?_, rfl⟩
    rw [listed_append hv.base]
    simp [listed]

theorem fileFind_backward (hv : Volume c s.flash b (layout files)) (hm : Mounted c s.logFs b files) :
    ∃ t, (logFsCalls c (.fileFindLast :: List.replicate files.length .fileFindPrevious)).Returns s
      ((listed c b files).reverse.map foundFile ++ [noMoreFiles]) t := by
  obtain ⟨pre, g, rfl⟩ := exists_newest hv.not_blank
  obtain ⟨t, ht, hd⟩ := fileFindLast_returns hv hm
  have hcall : (logFsCall c .fileFindLast).Returns s (foundFile ⟨pageAfter c b pre, g.timeStamp⟩) t := by
    rw [logFsCall, Prog.returns_map]
    exact ⟨_, ht, rfl⟩
  rw [← hd.flash] at hv
  obtain ⟨u, hu⟩ := fileFindPrevious_calls hv (hd.mounted hm) hd.filePage
  rw [List.length_append, List.length_singleton]
  refine ⟨u, hcall.bind (hu.bind ?_)⟩
  apply Prog.returns_pure.mpr
  refine ⟨?_, rfl⟩
  rw [listed_append hv.base]
  simp [listed]

end previous

end Lpc1788Libraries.DataManager

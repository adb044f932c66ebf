import Mathlib.Data.List.TakeDrop
import Lpc1788Libraries.DataManager.LogFsCatalog
import Lpc1788Libraries.DataManager.LogFsCreateFile

namespace Lpc1788Libraries.DataManager

open Lpc1788Libraries.Support NorFlash BoundedProgram

/-- A RECORD page becomes BAD. -/
def PageView.unrecord : PageView → PageView
  | .record _ _ => .bad
  | v => v

namespace StoredFile

/-- The file when its records have been deleted down to the first `i` pages. -/
def cut (g : StoredFile) (i : ℕ) : StoredFile :=
  { g with used := g.used.take i, spare := List.replicate (g.used.length - i) false ++ g.spare }

/-- The pages of a deleted file. -/
def freed (g : StoredFile) : List Bool := false :: (List.replicate g.used.length false ++ g.spare)

def extended (g : StoredFile) (freed : List Bool) : StoredFile := { g with spare := g.spare ++ freed }

end StoredFile

variable {c : LogFsCfg} {s t u : Sys} {f x y : Pages} {P Q : Pages → Prop} {b p i j n nr : ℕ} {v w : PageView} {g h : StoredFile}
  {pre mid post files : List StoredFile} {used : List (List Rec)} {spare : List Bool} {l l' : List PageView} {file : LogFsFile}

section walk

theorem Holds.markerWr_bad (page : ℕ) (s : Sys) : ∃ t, (logFsMarkerWr logFsMarkerBad page 0).Returns s true t ∧
    t.logFs = s.logFs ∧ t.images = s.flash :: s.images ∧ OnlyPage page s.flash t.flash ∧ Holds c t.flash page .bad :=
  ⟨_, markerWr_bad_returns, rfl, rfl, onlyPage_program, holds_bad⟩

theorem deleteLoop_returns (hv : Volume c s.flash b (v :: l ++ l')) (hvm : v.marker = logFsMarkerFile)
    (hl : ∀ w ∈ l, w.marker ≠ logFsMarkerFile) :
    ∃ t h, (Prog.loop (deleteRound c) (c.ring.step b (l.length + 1))).Returns s b t ∧
      Volume c t.flash b (v :: l.map PageView.unrecord ++ l') ∧ t.logFs = { s.logFs with pageHeader := h } ∧
      Passed (fun x => ∃ i ≤ l.length, Volume c x b (v :: (l.take i ++ (l.drop i).map PageView.unrecord) ++ l')) s t := by
  induction l using List.reverseRecOn generalizing s l' with
  | nil =>
    refine ⟨s.setHeader (sealedHeader logFsMarkerFile v.nr), _, Prog.loop_inr ?_, hv, rfl, .of_same rfl rfl⟩
    apply (pagePrevious_returns PageRing.step_mem).bind
    rw [PageRing.prev_step, List.length_nil, PageRing.step_zero hv.base]
    apply hv.ahead.1.pageHeaderRd.bind
    rw [hvm, if_neg (by decide), if_neg (by decide), seen_eq hvm (.inl rfl)]
    exact Prog.returns_pure.mpr ⟨rfl, rfl⟩
  | append_singleton l w ih =>
    have hw : w.marker ≠ logFsMarkerFile := hl w (by simp)
    have hl' : ∀ w ∈ l, w.marker ≠ logFsMarkerFile := fun y hy => hl y (List.mem_append_left _ hy)
    have hlen : (v :: l).length = l.length + 1 := rfl
    have hsplit : v :: (l ++ [w]) ++ l' = (v :: l) ++ w :: l' := by simp
    rw [hsplit] at hv
    have hpage : Holds c s.flash (c.ring.step b (l.length + 1)) w := hv.get (by simp)
    -- one round marks the page when it is a RECORD page
    obtain ⟨s', x, hround, hv', hlog, hpassed⟩ : ∃ s' x, (deleteRound c (c.ring.step b (l.length + 1 + 1))).Returns s
        (.inl (c.ring.step b (l.length + 1))) s' ∧ Volume c s'.flash b ((v :: l) ++ w.unrecord :: l') ∧
        s'.logFs = { s.logFs with pageHeader := x } ∧
        Passed (fun x => Volume c x b ((v :: l) ++ w.unrecord :: l')) s s' := by
      by_cases hrec : w.marker = logFsMarkerRecord
      · obtain ⟨t, ht, hlog, himg, honly, hbad⟩ := Holds.markerWr_bad (c := c) (c.ring.step b (l.length + 1)) (s.seen w)
        have hun : w.unrecord = .bad := by
          cases w with
          | record nr recs => rfl
          | free => exact absurd hrec (by decide)
          | bad => exact absurd hrec (by decide)
          | header nr => exact absurd rfl hw
          | file nr ts => exact absurd rfl hw
        have hvt : Volume c t.flash b ((v :: l) ++ w.unrecord :: l') := by
          rw [hun]
          exact hv.set (f := s.flash) honly hbad
        refine ⟨t, w.seenBy s.logFs.pageHeader, ?_, hvt, by rw [hlog]; rfl, ?_⟩
        · apply (pagePrevious_returns PageRing.step_mem).bind
          rw [PageRing.prev_step]
          apply hpage.pageHeaderRd.bind
          rw [if_pos hrec]
          apply ht.bind
          rw [if_pos hw]
          exact Prog.returns_pure.mpr ⟨rfl, rfl⟩
        · exact .put rfl himg hvt
      · have hun : w.unrecord = w := by
          cases w with
          | record nr recs => exact absurd rfl hrec
          | free => rfl
          | bad => rfl
          | header nr => rfl
          | file nr ts => rfl
        rw [hun]
        refine ⟨s.seen w, w.seenBy s.logFs.pageHeader, ?_, hv, rfl, .of_same rfl rfl⟩
        apply (pagePrevious_returns PageRing.step_mem).bind
        rw [PageRing.prev_step]
        apply hpage.pageHeaderRd.bind
        rw [if_neg hrec, if_pos hw]
        exact Prog.returns_pure.mpr ⟨rfl, rfl⟩
    obtain ⟨t, h, ht, hvt, hlogt, hpassedt⟩ := ih (s := s') hv' hl'
    have hmap : (l ++ [w]).map PageView.unrecord = l.map PageView.unrecord ++ [w.unrecord] := List.map_append
    rw [List.length_append, List.length_singleton]
    refine ⟨t, h, Prog.loop_inl hround ht, ?_, ?_, ?_⟩
    · rw [hmap]
      simpa using hvt
    · rw [hlogt, hlog]
    · apply Passed.trans
      · refine hpassed.imp fun x hx => ⟨l.length, Nat.le_succ _, ?_⟩
        simpa [List.take_append, List.drop_append] using hx
      · refine hpassedt.imp fun x hx => ?_
        obtain ⟨i, hi, hx⟩ := hx
        refine ⟨i, Nat.le_succ_of_le hi, ?_⟩
        rw [List.take_append_of_le_length hi, List.drop_append_of_le_length hi, List.map_append]
        simpa using hx

end walk

section cut

theorem unrecord_recordPages :
    ((recordPages i used).drop j).map PageView.unrecord = (List.replicate (used.length - j) false).map spareView := by
  induction used generalizing i j with
  | nil => simp [recordPages]
  | cons recs used ih =>
    cases j with
    | zero =>
      have h0 := ih (i := i + 1) (j := 0)
      rw [List.drop_zero, Nat.sub_zero] at h0
      rw [recordPages, List.drop_zero, List.map_cons, h0, List.length_cons, Nat.sub_zero, List.replicate_succ]
      rfl
    | succ j => rw [recordPages, List.drop_succ_cons, ih, List.length_cons, Nat.succ_sub_succ]

theorem unrecord_spare : (spare.map spareView).map PageView.unrecord = spare.map spareView := by
  rw [List.map_map]
  apply List.map_congr_left
  intro e _
  cases e <;> rfl

theorem cut_body : (g.cut i).body = g.body.take i ++ (g.body.drop i).map PageView.unrecord := by
  have hlen : (recordPages 0 g.used).length = g.used.length := length_recordPages
  rw [StoredFile.body, StoredFile.body, List.take_append, List.drop_append, List.map_append, take_recordPages,
    unrecord_recordPages, hlen, ← List.map_take, ← List.map_drop, unrecord_spare]
  simp only [StoredFile.cut, List.map_append]
  rcases Nat.le_total i g.used.length with hi | hi
  · rw [Nat.sub_eq_zero_of_le hi]
    simp
  · rw [Nat.sub_eq_zero_of_le hi, List.map_take, List.map_drop]
    simp

theorem freed_views : g.freed.map spareView = .bad :: g.body.map PageView.unrecord := by
  have h0 : ((recordPages 0 g.used).drop 0).map PageView.unrecord = (List.replicate (g.used.length - 0) false).map spareView :=
    unrecord_recordPages
  rw [List.drop_zero, Nat.sub_zero] at h0
  rw [StoredFile.freed, List.map_cons, List.map_append, StoredFile.body, List.map_append, h0, unrecord_spare]
  rfl

theorem length_freed : g.freed.length = g.pages.length := by
  rw [length_pages, StoredFile.freed, List.length_cons, List.length_append, List.length_replicate]

theorem Filled.take (h : Filled c used) (i : ℕ) : Filled c (used.take i) := by
  refine ⟨fun recs hr => h.full recs ?_, fun recs hr => h.le recs (List.mem_of_mem_take hr)⟩
  rw [List.dropLast_take_eq_take_dropLast] at hr
  exact List.mem_of_mem_take hr

theorem Image.cut (h : Image c f b (g :: files)) (hv : Volume c x b (g.head :: (g.body.take i ++ (g.body.drop i).map PageView.unrecord) ++ layout files)) :
    Image c x b (g.cut i :: files) := by
  obtain ⟨nr, hnr, hg, hfiles⟩ := h.numbered
  refine ⟨?_, ⟨nr, hnr, hg, hfiles⟩, ?_⟩
  · rw [layout_cons, StoredFile.pages, cut_body]
    exact hv
  · intro g' hg'
    rcases List.mem_cons.mp hg' with rfl | hg'
    · exact (h.filled g (List.mem_cons_self ..)).take i
    · exact h.filled g' (List.mem_cons_of_mem _ hg')

end cut

section delete

/-- The descriptor after the deletion of the file with the FILE page `page`. `first` starts the file behind it. -/
def deletedLog (page : ℕ) (ts : LogFsTimeStamp) (first last : ℕ) (x : LogFsPageHeader) (l : LogFs) : LogFs :=
  { l with pageHeader := x, fileInfo := fileInfoOf page ts, filePageFirst := first, filePageLast := last }

theorem deletePages_returns (hv : Volume c s.flash b (g.pages ++ l')) :
    ∃ t x, Prog.Returns (do
        let page ← Prog.loop (deleteRound c) (c.ring.step b g.pages.length)
        let _ ← logFsMarkerWr logFsMarkerBad page 0
        return .none : SysM LogFsErr) s .none t ∧ Volume c t.flash b (g.freed.map spareView ++ l') ∧
      t.logFs = { s.logFs with pageHeader := x } ∧
      Passed (fun x => (∃ i, Volume c x b (g.head :: (g.body.take i ++ (g.body.drop i).map PageView.unrecord) ++ l')) ∨
        Volume c x b (g.freed.map spareView ++ l')) s t := by
  have hpages : g.pages = g.head :: g.body := rfl
  rw [hpages] at hv
  obtain ⟨r, x, hloop, hvr, hlogr, hpassed⟩ := deleteLoop_returns hv rfl fun w hw => body_not_file hw
  obtain ⟨t, ht, hlog, himg, honly, hbad⟩ := Holds.markerWr_bad (c := c) b r
  have hvt : Volume c t.flash b (g.freed.map spareView ++ l') := by
    rw [freed_views]
    exact hvr.set_head honly hbad
  refine ⟨t, x, ?_, hvt, hlog.trans hlogr, ?_⟩
  · have hlen : g.pages.length = g.body.length + 1 := List.length_cons
    rw [hlen]
    apply hloop.bind
    apply ht.bind
    exact Prog.returns_pure.mpr ⟨rfl, rfl⟩
  · apply Passed.trans
    · exact hpassed.imp fun x ⟨i, _, hx⟩ => .inl ⟨i, hx⟩
    · exact .put rfl himg (.inr hvt)

/-- The oldest file is deleted and the file behind it becomes the oldest one. Its pages come to lie behind
the newest file. -/
theorem delete_older (hI : Image c s.flash b (g :: (mid ++ [h]))) (hm : Mounted c s.logFs b (g :: (mid ++ [h])))
    (hfile : file.startPage = b) :
    ∃ t x, (logFsFileDelete c file).Returns s .none t ∧
      Image c t.flash (c.ring.step b g.pages.length) (mid ++ [h.extended g.freed]) ∧
      Mounted c t.logFs (c.ring.step b g.pages.length) (mid ++ [h.extended g.freed]) ∧
      t.logFs = deletedLog b g.timeStamp (c.ring.step b g.pages.length) s.logFs.filePageLast x s.logFs ∧
      Passed (fun x => (∃ i, Image c x b (g.cut i :: (mid ++ [h]))) ∨
        Image c x (c.ring.step b g.pages.length) (mid ++ [h.extended g.freed])) s t := by
  have hv := hI.volume
  have hlast : s.logFs.filePageLast = pageAfter c b (g :: mid) := (hm.last (g :: mid) h rfl).1
  have hne : s.logFs.filePageFirst ≠ s.logFs.filePageLast := by
    have hlen := hv.length
    rw [layout_cons, layout_append, layout_single, List.length_append, List.length_append, length_pages, length_pages] at hlen
    rw [hm.first, hlast, ← PageRing.step_zero hv.base, pageAfter, PageRing.step_step, Ne, PageRing.step_inj (by omega) (by
      rw [layout_cons, List.length_append, length_pages]
      omega), layout_cons, List.length_append, length_pages]
    omega
  have hhead : Volume c s.flash b (g.pages ++ layout (mid ++ [h])) := hv
  obtain ⟨s₁, h₁, hd⟩ := fileBlockRd_head hhead
  have hm₁ : Mounted c s₁.logFs b (g :: (mid ++ [h])) := hd.mounted hm
  have hv₁ : Volume c s₁.flash b (layout (g :: (mid ++ [h]))) := by rwa [hd.flash]
  obtain ⟨y, rfl⟩ := hd
  obtain ⟨h', rest, hnext⟩ : ∃ h' rest, mid ++ [h] = h' :: rest := List.exists_cons_of_ne_nil (by simp)
  -- the search for the next FILE page
  let s₁ : Sys := (s.setHeader y).setFileInfo (fileInfoOf b g.timeStamp)
  let s₂ : Sys := s₁.setHeader (sealedHeader logFsMarkerFile h'.nr)
  have hfind : (logFsPageHeaderFindNext c logFsMarkerFile b s.logFs.filePageLast b).Returns s₁
      (c.ring.step b g.pages.length) s₂ := by
    rw [hnext] at hv₁ hm₁
    have hm₂ : Mounted c s₁.logFs b ([] ++ g :: h' :: rest) := hm₁
    obtain ⟨d, hd, hsize, hstop⟩ := hm₂.newest hv₁
    have hstop' : s.logFs.filePageLast = c.ring.step b d := by
      rw [pageAfter, layout_nil, List.length_nil, PageRing.step_zero hv.base] at hstop
      exact hstop
    have hat : Volume c s₁.flash b (g.pages ++ h'.head :: (h'.body ++ layout rest)) := hv₁
    apply findNext_file hat hv.base
    · rw [hstop']
      exact PageRing.step_mem
    · intro j hj
      rw [PageRing.nextIn, if_neg, PageRing.next_step]
      rw [hstop', PageRing.step_inj (by omega) hsize]
      omega
  let s₃ : Sys := { s₂ with logFs := { s₂.logFs with filePageFirst := c.ring.step b g.pages.length } }
  obtain ⟨t, x, ht, hvt, hlog, hpassed⟩ := deletePages_returns (s := s₃) hhead
  have himage : ∀ x, Volume c x b (g.freed.map spareView ++ layout (mid ++ [h])) →
      Image c x (c.ring.step b g.pages.length) (mid ++ [h.extended g.freed]) := by
    intro x hx
    have hr := hx.rotate
    rw [List.length_map, length_freed] at hr
    obtain ⟨nr, hnr, hg, hfiles⟩ := hI.numbered
    refine ⟨?_, ⟨(nr + 1) % 0x10000, Nat.mod_lt _ (by decide), ?_⟩, ?_⟩
    · have hlayout : layout (mid ++ [h.extended g.freed]) = layout (mid ++ [h]) ++ g.freed.map spareView := by
        simp [StoredFile.pages, StoredFile.body, StoredFile.head, StoredFile.extended]
      rw [hlayout]
      exact hr
    · rw [nrFrom_append (Nat.mod_lt _ (by decide))] at hfiles ⊢
      exact ⟨hfiles.1, hfiles.2⟩
    · intro g' hg'
      have hfilled := hI.filled
      rcases List.mem_append.mp hg' with hg' | hg'
      · exact hfilled g' (List.mem_cons_of_mem _ (List.mem_append_left _ hg'))
      · rw [List.mem_singleton.mp hg']
        exact hfilled h (List.mem_cons_of_mem _ (List.mem_append_right _ (List.mem_singleton_self h)))
  refine ⟨t, x, ?_, himage _ hvt, ⟨?_, ?_⟩, hlog, ?_⟩
  · unfold logFsFileDelete
    rw [getLogFs_bind, hm.first, if_neg (not_not.mpr hfile), hfile]
    apply h₁.bind
    rw [if_neg (by decide), ← hm.first, if_neg hne, hm.first]
    apply hfind.bind
    rw [setLogFs_bind, pure_bind]
    exact ht
  · rw [hlog]
  · intro pre' g' hfiles'
    obtain ⟨rfl, rfl⟩ := snoc_inj hfiles'
    rw [hlog]
    constructor
    · exact hlast.trans pageAfter_cons
    · exact (hm.last (g :: mid) h rfl).2
  · refine (Passed.of_same rfl rfl).trans (hpassed.imp ?_)
    rintro x (⟨i, hx⟩ | hx)
    · exact .inl ⟨i, hI.cut hx⟩
    · exact .inr (himage x hx)

theorem delete_only (hI : Image c s.flash b [g]) (hm : Mounted c s.logFs b [g]) (hfile : file.startPage = b) :
    ∃ t x, (logFsFileDelete c file).Returns s .none t ∧ Blank c t.flash ∧ Unmounted t.logFs ∧
      t.logFs = deletedLog b g.timeStamp logFsPageInvalid logFsPageInvalid x s.logFs ∧
      Passed (fun x => (∃ i, Image c x b [g.cut i]) ∨ Blank c x) s t := by
  have hv := hI.volume
  rw [layout_single] at hv
  have hb : pageAfter c b [] = b := PageRing.step_zero hv.base
  obtain ⟨hlast, hnr⟩ := hm.last [] g rfl
  rw [hb] at hlast
  have hhead : Volume c s.flash b (g.pages ++ layout []) := by rwa [layout_nil, List.append_nil]
  obtain ⟨s₁, h₁, y, rfl⟩ := fileBlockRd_head hhead
  let s₁ : Sys := (s.setHeader y).setFileInfo (fileInfoOf b g.timeStamp)
  let s₂ : Sys := { s₁ with logFs := { s₁.logFs with filePageFirst := logFsPageInvalid, filePageLast := logFsPageInvalid } }
  have hv₂ : Volume c s₂.flash b (g.pages ++ []) := by
    rw [List.append_nil]
    exact hv
  obtain ⟨t, x, ht, hvt, hlog, hpassed⟩ := deletePages_returns hv₂
  rw [hv.length, PageRing.step_size hv.base] at ht
  have hblank : ∀ x, Volume c x b (g.freed.map spareView ++ []) → Blank c x := by
    intro x hx
    rw [List.append_nil] at hx
    obtain ⟨k, hk, hstep⟩ := PageRing.exists_step hx.base (PageRing.lo_mem (r := c.ring))
    have hlen := hx.length
    rw [List.length_map] at hlen
    refine ⟨g.freed.drop k ++ g.freed.take k, ?_⟩
    rw [← List.take_append_drop k g.freed, List.map_append] at hx
    have hr := hx.rotate
    rw [List.length_map, List.length_take, Nat.min_eq_left (by omega), hstep, ← List.map_append] at hr
    exact hr
  refine ⟨t, x, ?_, hblank _ hvt, ⟨?_, ?_, ?_⟩, hlog, ?_⟩
  · unfold logFsFileDelete
    rw [getLogFs_bind, hm.first, hlast, if_neg (not_not.mpr hfile), hfile]
    apply h₁.bind
    rw [if_neg (by decide), if_pos rfl, setLogFs_bind, pure_bind]
    exact ht
  · rw [hlog]
  · rw [hlog]
  · rw [hlog]
    change s.logFs.filePageNrNext < _
    rw [hnr]
    exact Nat.mod_lt _ (by decide)
  · refine (Passed.of_same rfl rfl).trans (hpassed.imp ?_)
    rintro x (⟨i, hx⟩ | hx)
    · exact .inl ⟨i, hI.cut (by rwa [layout_nil])⟩
    · exact .inr (hblank x hx)

theorem delete_invalid (h : file.startPage ≠ s.logFs.filePageFirst) :
    (logFsFileDelete c file).Returns s .fileInvalid s := by
  unfold logFsFileDelete
  rw [getLogFs_bind, if_pos h]
  exact Prog.returns_pure.mpr ⟨rfl, rfl⟩

end delete

end Lpc1788Libraries.DataManager

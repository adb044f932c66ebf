import Lpc1788Libraries.DataManager.LogFsReaders
import Lpc1788Libraries.DataManager.LogFsReclaim

namespace Lpc1788Libraries.DataManager

open Lpc1788Libraries.Support NorFlash BoundedProgram

variable {c : LogFsCfg} {s t : Sys} {page p q j k n nr i : ℕ} {m : UInt8} {file : LogFsFile}

section find

theorem fileSearch_terminates {go : ℕ → SysM ℕ} {walk : ℕ → ℕ} {stop : ℕ}
    (hgo : ∀ x s, c.ring.Mem x → (go x).Returns s (walk x) s) (hwalk : ∀ x, c.ring.Mem x → c.ring.Mem (walk x))
    (hp : c.ring.Mem s.filePage) (hi : 0 < i) (hstop : walk^[i] s.filePage = stop) :
    (fileSearch go stop).Terminates s := by
  have hI : ∀ j, c.ring.Mem (walk^[j] s.filePage) := by
    intro j
    induction j with
    | zero => exact hp
    | succ j ih =>
      rw [Function.iterate_succ_apply']
      exact hwalk _ ih
  have hloop : (Prog.loop (fileSearchRound go stop) s.filePage).Achieves s fun _ _ => True := by
    refine Prog.loop_achieves (k := i) (I := fun d x _ => ∃ j, 0 < d ∧ j + d = i ∧ x = walk^[j] s.filePage) ?_
      ⟨0, hi, by omega, rfl⟩
    rintro d x t ⟨j, hd, hj, rfl⟩
    apply (hgo _ t (hI j)).achieves
    obtain ⟨ok, u, hr⟩ := fileBlockRd_total (walk (walk^[j] s.filePage)) t
    apply hr.achieves
    have hsucc : walk (walk^[j] s.filePage) = walk^[j + 1] s.filePage :=
      (Function.iterate_succ_apply' walk j s.filePage).symm
    rw [hsucc]
    split_ifs with hok hne
    · apply getLogFs_achieves
      exact Prog.achieves_pure (.inl ⟨_, rfl, trivial⟩)
    · have hne' : j + 1 ≠ i := fun h => hne (by rw [h, hstop])
      exact Prog.achieves_pure (.inr ⟨_, rfl, d - 1, by omega, j + 1, by omega, by omega, rfl⟩)
    · exact Prog.achieves_pure (.inl ⟨_, rfl, trivial⟩)
  exact (getLogFs_achieves hloop).terminates

theorem iterate_next (hp : c.ring.Mem p) (hq : c.ring.Mem q) : ∃ i, 0 < i ∧ c.ring.next^[i] p = q := by
  have hiter : ∀ i, c.ring.next^[i] p = c.ring.step p i := by
    intro i
    induction i with
    | zero => exact (PageRing.step_zero hp).symm
    | succ i ih => rw [Function.iterate_succ_apply', ih, PageRing.next_step]
  obtain ⟨i, -, hi⟩ := PageRing.exists_step hp hq
  exact ⟨i + c.ring.size, by have := PageRing.size_pos (r := c.ring); omega, by rw [hiter, PageRing.step_add_size, hi]⟩

theorem iterate_prev (hp : c.ring.Mem p) (hq : c.ring.Mem q) : ∃ i, 0 < i ∧ c.ring.prev^[i] p = q := by
  obtain ⟨i, hi, hnext⟩ := iterate_next hq hp
  refine ⟨i, hi, ?_⟩
  rw [← hnext]
  clear hnext hi hp
  induction i generalizing q with
  | zero => rfl
  | succ i ih =>
    have hmem : ∀ i, c.ring.Mem (c.ring.next^[i] q) := by
      intro i
      induction i with
      | zero => exact hq
      | succ i ih =>
        rw [Function.iterate_succ_apply']
        exact PageRing.next_mem ih
    rw [Function.iterate_succ_apply, Function.iterate_succ_apply' (f := c.ring.next), PageRing.prev_next (hmem i)]
    exact ih hq

theorem fileFindFirst_terminates : logFsFileFindFirst.Terminates s := by
  apply getLogFs_total
  intro l
  apply Prog.total_ite Prog.total_pure
  apply Prog.total_bind (fileBlockRd_total _)
  intro ok
  exact Prog.total_ite Prog.total_pure (getLogFs_total fun _ => Prog.total_pure)

theorem fileFindLast_terminates : logFsFileFindLast.Terminates s := by
  apply getLogFs_total
  intro l
  apply Prog.total_ite Prog.total_pure
  apply Prog.total_bind (fileBlockRd_total _)
  intro ok
  exact Prog.total_ite Prog.total_pure (getLogFs_total fun _ => Prog.total_pure)

/-- The search for the file next to the last one found comes to an end at the page `stop`. -/
def FindEnds (c : LogFsCfg) (s : Sys) (stop : ℕ) : Prop :=
  stop = logFsPageInvalid ∨ s.filePage = stop ∨ c.ring.Mem s.filePage ∧ c.ring.Mem stop

theorem fileFindNext_terminates (h : FindEnds c s s.logFs.filePageLast) :
    (logFsFileFindNext c).Terminates s := by
  apply Prog.Achieves.terminates (Q := fun _ _ => True)
  apply getLogFs_achieves
  split_ifs with hinv hlast
  · exact Prog.achieves_pure trivial
  · exact Prog.achieves_pure trivial
  · obtain ⟨hp, hq⟩ := (h.resolve_left hinv).resolve_left hlast
    obtain ⟨i, hi, hstop⟩ := iterate_next hp hq
    apply Prog.Terminates.achieves
    exact fileSearch_terminates (fun x s hx => pageNext_returns hx) (fun x => PageRing.next_mem) hp hi hstop

theorem fileFindPrevious_terminates (h : FindEnds c s s.logFs.filePageFirst) :
    (logFsFileFindPrevious c).Terminates s := by
  apply Prog.Achieves.terminates (Q := fun _ _ => True)
  apply getLogFs_achieves
  split_ifs with hinv hlast
  · exact Prog.achieves_pure trivial
  · exact Prog.achieves_pure trivial
  · obtain ⟨hp, hq⟩ := (h.resolve_left hinv).resolve_left hlast
    obtain ⟨i, hi, hstop⟩ := iterate_prev hp hq
    apply Prog.Terminates.achieves
    exact fileSearch_terminates (fun x s hx => pagePrevious_returns hx) (fun x => PageRing.prev_mem) hp hi hstop

end find

section init

theorem step_all (hp : c.ring.Mem p) : c.ring.step p (c.ring.size - 1) = c.ring.prev p :=
  PageRing.step_size_pred hp

theorem prev_pageStart : c.ring.prev c.pageStart = c.pageEnd := by
  change (if c.pageStart = c.pageStart then c.pageEnd else _) = _
  rw [if_pos rfl]

theorem init_terminates : (logFsInit c).Terminates s := by
  have hp : c.ring.Mem c.pageStart := PageRing.lo_mem
  have hsize := PageRing.size_pos (r := c.ring)
  have hend : c.ring.step c.pageStart (c.ring.size - 1) = c.pageEnd := by
    rw [step_all hp, prev_pageStart]
  apply Prog.Achieves.terminates (Q := fun _ _ => True)
  apply setLogFs_achieves
  have hbefore : ∀ i < c.ring.size - 1, c.ring.step c.pageStart i ≠ c.pageEnd := by
    intro i hi h
    rw [← hend, PageRing.step_inj (by omega) (by omega)] at h
    omega
  obtain ⟨r, t, hr, hsame, hs⟩ := findFirst_spec (.inl rfl) hp hend hbefore
    { s with logFs := LogFs.zero c }
  apply hr.achieves
  rcases hs with ⟨rfl, -⟩ | ⟨k, hk, rfl, -, nr, hh, hheader⟩
  · rw [if_pos rfl]
    apply setLogFs_achieves
    exact Prog.achieves_pure trivial
  · rw [if_neg (mem_ne_invalid PageRing.step_mem)]
    have hsave : ∀ a b nr l, (saveFilePages a b nr l).pageHeader = l.pageHeader := fun _ _ _ _ => rfl
    let saved : LogFs → Prop := fun _ => True
    have hany : ∀ a < c.ring.size, ∀ b < c.ring.size, ∀ nr l,
        saved (saveFilePages (c.ring.step c.pageStart a) (c.ring.step c.pageStart b) nr l) :=
      fun _ _ _ _ _ _ => trivial
    have hkeep : ∀ l h, saved l → saved { l with pageHeader := h } := fun _ _ _ => trivial
    obtain ⟨u, hu, -⟩ := largestDiff_terminates (.inl rfl) hp (Nat.le_refl _) (by omega : k < c.ring.size)
      ((hsame _ _ _ (.inl rfl)).mp hh) hheader hany hsave hkeep
    rw [hend] at hu
    exact hu.achieves (Prog.achieves_pure trivial)

end init

section create

/-- Some FILE page is found in the file system. -/
def FileFound (c : LogFsCfg) (s : Sys) : Prop := ∃ q, c.ring.Mem q ∧ Found s.flash logFsMarkerFile q

theorem lastRecord_achieves (hp : c.ring.Mem p) (h : FileFound c s) :
    (Prog.loop (lastRecordRound c) (p, p)).Achieves s fun r _ => c.ring.Mem r := by
  obtain ⟨q, hq, hfound⟩ := h
  obtain ⟨i, hi, hstop⟩ := iterate_next hp hq
  have hI : ∀ j, c.ring.Mem (c.ring.next^[j] p) := by
    intro j
    induction j with
    | zero => exact hp
    | succ j ih =>
      rw [Function.iterate_succ_apply']
      exact PageRing.next_mem ih
  refine Prog.loop_achieves (k := i) (I := fun d x t => ∃ j, 0 < d ∧ j + d = i ∧ x.1 = c.ring.next^[j] p ∧
    c.ring.Mem x.2 ∧ SameHeaders s t) ?_ ⟨0, hi, by omega, rfl, hp, Std.Refl.refl s⟩
  rintro d ⟨x, last⟩ t ⟨j, hd, hj, rfl, hlast, ht⟩
  have hsucc : c.ring.next (c.ring.next^[j] p) = c.ring.next^[j + 1] p :=
    (Function.iterate_succ_apply' c.ring.next j p).symm
  apply (pageNext_returns (hI j)).achieves
  rw [hsucc]
  obtain ⟨marker, u, hr⟩ := pageHeaderRd_total (c.ring.next^[j + 1] p) t
  have hu := IsTrans.trans _ _ _ ht (pageHeaderRd_sameHeaders hr)
  have hmem : c.ring.Mem (if marker = logFsMarkerRecord then c.ring.next^[j + 1] p else last) := by
    split
    · exact hI _
    · exact hlast
  apply hr.achieves
  by_cases hm : marker = logFsMarkerFile
  · rw [if_neg (not_not.mpr hm)]
    exact Prog.achieves_pure (.inl ⟨_, rfl, hmem⟩)
  · rw [if_pos hm]
    have hne : j + 1 ≠ i := by
      rintro rfl
      rw [hstop] at hr
      obtain ⟨nr, hr'⟩ := (ht.found.mp hfound).pageHeaderRd
      exact hm (hr.unique hr').1
    exact Prog.achieves_pure (.inr ⟨_, rfl, d - 1, by omega, j + 1, by omega, by omega, rfl, hmem, hu⟩)

theorem freePage_achieves : (Prog.loop (freePageRound c) c.pageStart).Achieves s fun r _ => c.ring.Mem r := by
  have h1 := c.pageStart_lt
  have h2 := c.pageEnd_lt
  refine Prog.loop_achieves (k := c.pageEnd - c.pageStart)
    (I := fun d x _ => x + d = c.pageEnd ∧ c.pageStart ≤ x) ?_ ⟨by omega, Nat.le_refl _⟩
  rintro d x t ⟨hd, hx⟩
  obtain ⟨marker, u, hr⟩ := markerRd_total x 0 t
  apply hr.achieves
  have hmod : (x + 1) % 0x10000 = x + 1 := Nat.mod_eq_of_lt (by omega)
  dsimp only
  rw [hmod]
  split_ifs with hm hend
  · exact Prog.achieves_pure (.inl ⟨x, rfl, hx, by change x ≤ c.pageEnd; omega⟩)
  · exact Prog.achieves_pure (.inr ⟨x + 1, rfl, d - 1, by omega, by omega, by omega⟩)
  · exact Prog.achieves_pure (.inl ⟨_, rfl, PageRing.lo_mem⟩)

theorem createPage_achieves
    (h : s.logFs.filePageLast = logFsPageInvalid ∨ c.ring.Mem s.logFs.filePageLast ∧ FileFound c s) :
    (createPage c).Achieves s fun r _ => ∀ p, r = some p → c.ring.Mem p := by
  apply getLogFs_achieves
  by_cases hinv : s.logFs.filePageLast = logFsPageInvalid
  · rw [if_neg (not_not.mpr hinv)]
    apply (freePage_achieves (c := c)).bind
    intro r t hr
    refine Prog.achieves_pure fun p hp => ?_
    cases hp
    exact hr
  · rw [if_pos hinv]
    obtain ⟨hmem, hfile⟩ := h.resolve_left hinv
    apply (lastRecord_achieves hmem hfile).bind
    intro r t hr
    have hnext := PageRing.next_mem hr
    apply (pageNext_returns hr).achieves
    obtain ⟨marker, u, h₁⟩ := markerRd_total (c.ring.next r) 0 t
    apply h₁.achieves
    split_ifs
    · exact Prog.achieves_pure fun p hp => absurd hp (by simp)
    · apply (pageNext_returns hnext).achieves
      obtain ⟨marker', v, h₂⟩ := markerRd_total (c.ring.next (c.ring.next r)) 0 u
      apply h₂.achieves
      split_ifs
      · exact Prog.achieves_pure fun p hp => absurd hp (by simp)
      · refine Prog.achieves_pure fun p hp => ?_
        cases hp
        exact hnext

theorem create_terminates {timeStamp : LogFsTimeStamp}
    (h : s.logFs.filePageLast = logFsPageInvalid ∨ c.ring.Mem s.logFs.filePageLast ∧ FileFound c s) :
    (logFsCreate c timeStamp).Terminates s := by
  apply Prog.Achieves.terminates (Q := fun _ _ => True)
  apply (createPage_achieves h).bind
  intro r t hr
  cases r with
  | none => exact Prog.achieves_pure trivial
  | some pageNewFile =>
    have hmem := hr pageNewFile rfl
    obtain ⟨_, u, h₁⟩ := eraseIfNotFree_total pageNewFile t
    apply h₁.achieves
    apply setLogFs_achieves
    apply (fileBlockWr_total _ _).achieves.bind
    intro ok v _
    split_ifs
    · exact Prog.achieves_pure trivial
    · apply setLogFs_achieves
      apply (pageNext_returns hmem).achieves
      apply (eraseIfNotFree_total _ _).achieves.bind
      intro _ w _
      apply setLogFs_achieves
      exact Prog.achieves_pure trivial

end create

section delete

theorem deleteLoop_terminates (hp : c.ring.Mem p) (h : FileFound c s) :
    (Prog.loop (deleteRound c) p).Terminates s := by
  obtain ⟨q, hq, hfound⟩ := h
  obtain ⟨i, hi, hstop⟩ := iterate_prev hp hq
  have hI : ∀ j, c.ring.Mem (c.ring.prev^[j] p) := by
    intro j
    induction j with
    | zero => exact hp
    | succ j ih =>
      rw [Function.iterate_succ_apply']
      exact PageRing.prev_mem ih
  apply Prog.Achieves.terminates (Q := fun _ _ => True)
  refine Prog.loop_achieves (k := i) (I := fun d x t => ∃ j, 0 < d ∧ j + d = i ∧ x = c.ring.prev^[j] p ∧
    Found t.flash logFsMarkerFile q) ?_ ⟨0, hi, by omega, rfl, hfound⟩
  rintro d x t ⟨j, hd, hj, rfl, ht⟩
  have hsucc : c.ring.prev (c.ring.prev^[j] p) = c.ring.prev^[j + 1] p :=
    (Function.iterate_succ_apply' c.ring.prev j p).symm
  apply (pagePrevious_returns (hI j)).achieves
  rw [hsucc]
  obtain ⟨marker, u, hr⟩ := pageHeaderRd_total (c.ring.prev^[j + 1] p) t
  have hu : Found u.flash logFsMarkerFile q := (pageHeaderRd_sameHeaders hr).found.mp ht
  have hne : marker ≠ logFsMarkerFile → j + 1 ≠ i := by
    rintro hm rfl
    rw [hstop] at hr
    obtain ⟨nr, hr'⟩ := ht.pageHeaderRd
    exact hm (hr.unique hr').1
  apply hr.achieves
  by_cases hrec : marker = logFsMarkerRecord
  · rw [if_pos hrec]
    have hfile : marker ≠ logFsMarkerFile := by
      rw [hrec]
      decide
    have hother : q ≠ c.ring.prev^[j + 1] p := by
      rintro rfl
      have hf := pageHeaderRd_found (.inr rfl) (hrec ▸ hr)
      have := hu.marker_eq.symm.trans hf.marker_eq
      exact absurd this (by decide)
    apply markerWr_bad_returns.achieves
    rw [if_pos hfile]
    refine Prog.achieves_pure (.inr ⟨_, rfl, d - 1, by omega, j + 1, ?_, by omega, rfl, ?_⟩)
    · have := hne hfile
      omega
    · obtain ⟨hm, nr, hh⟩ := hu
      exact ⟨hm, nr, hh.congr fun i _ => (program_other hother).symm⟩
  · rw [if_neg hrec]
    by_cases hfile : marker = logFsMarkerFile
    · rw [if_neg (not_not.mpr hfile)]
      exact Prog.achieves_pure (.inl ⟨_, rfl, trivial⟩)
    · rw [if_pos hfile]
      have := hne hfile
      exact Prog.achieves_pure (.inr ⟨_, rfl, d - 1, by omega, j + 1, by omega, by omega, rfl, hu⟩)

theorem fileBlockRd_found (h : (logFsFileBlockRd page).Returns s true t) :
    SameHeaders s t ∧ Found t.flash logFsMarkerFile page ∧ ∃ h i, t.logFs = { s.logFs with pageHeader := h, fileInfo := i } := by
  obtain ⟨hd, -⟩ := fileBlockRd_true h
  obtain ⟨marker, t₁, h₁, h⟩ := Prog.returns_bind.mp h
  have hs := pageHeaderRd_sameHeaders h₁
  split at h
  · simp at h
  rename_i hm
  rw [not_not] at hm
  subst hm
  have hf := pageHeaderRd_found (.inl rfl) h₁
  simp only [at45dRd_bind, setLogFs_bind] at h
  split at h
  · simp at h
  split at h
  · simp at h
  · obtain ⟨-, rfl⟩ := Prog.returns_pure.mp h
    exact ⟨IsTrans.trans _ _ _ hs (SameHeaders.of_flash rfl), hf, hd⟩

/-- What makes `log_fs_file_delete` come to an end for the oldest file: it is the only file, or
another FILE page is found up to the newest one. -/
def DeleteEnds (c : LogFsCfg) (s : Sys) : Prop :=
  c.ring.Mem s.logFs.filePageFirst ∧ (s.logFs.filePageFirst = s.logFs.filePageLast ∨
    ∃ n ≤ c.ring.size, s.logFs.filePageLast = c.ring.step s.logFs.filePageFirst (n - 1) ∧
      ∃ i, 0 < i ∧ i < n ∧ Found s.flash logFsMarkerFile (c.ring.step s.logFs.filePageFirst i))

theorem fileDelete_terminates (h : file.startPage = s.logFs.filePageFirst → DeleteEnds c s) :
    (logFsFileDelete c file).Terminates s := by
  apply Prog.Achieves.terminates (Q := fun _ _ => True)
  apply getLogFs_achieves
  by_cases hfirst : file.startPage = s.logFs.filePageFirst
  swap
  · rw [if_pos hfirst]
    exact Prog.achieves_pure trivial
  rw [if_neg (not_not.mpr hfirst)]
  obtain ⟨hmem, hcase⟩ := h hfirst
  obtain ⟨ok, t, hr⟩ := fileBlockRd_total file.startPage s
  apply hr.achieves
  cases ok with
  | false =>
    simp only [Bool.not_false, if_true]
    exact Prog.achieves_pure trivial
  | true =>
    obtain ⟨hs, hf, -⟩ := fileBlockRd_found hr
    have finish : ∀ {x u}, c.ring.Mem x → FileFound c u → Prog.Achieves (do
        let page ← Prog.loop (deleteRound c) x
        let _ ← logFsMarkerWr logFsMarkerBad page 0
        return .none : SysM LogFsErr) u fun _ _ => True := by
      intro x u hx hu
      apply (deleteLoop_terminates hx hu).achieves.bind
      intro y v _
      apply (markerWr_total _).achieves.bind
      exact fun _ _ _ => Prog.achieves_pure trivial
    rw [hfirst] at hf
    simp only [Bool.not_true, Bool.false_eq_true, if_false, pure_bind]
    by_cases hone : s.logFs.filePageFirst = s.logFs.filePageLast
    · rw [if_pos hone]
      apply setLogFs_achieves
      rw [hfirst]
      exact finish hmem ⟨_, hmem, hf⟩
    · rw [if_neg hone]
      obtain ⟨n, hn, hlast, i, hi, hin, hfound⟩ := hcase.resolve_left hone
      have h0 : c.ring.step s.logFs.filePageFirst 0 = s.logFs.filePageFirst := PageRing.step_zero hmem
      obtain ⟨r, u, hr', hs', hsearch⟩ := findNext_spec (.inl rfl) hmem hn (by omega : 0 < n) t
      rw [h0, ← hlast] at hr'
      apply hr'.achieves
      apply setLogFs_achieves
      have hfound' : FileFound c u := ⟨_, hmem, hs'.found.mp hf⟩
      rcases hsearch with ⟨-, hno⟩ | ⟨k, hk, rfl, -⟩
      · exfalso
        apply hno (i - 1) (by omega)
        beta_reduce
        rw [show i - 1 + 1 = i by omega, PageRing.turn, Nat.zero_add, Nat.mod_eq_of_lt hin]
        exact hs.found.mp hfound
      · exact finish PageRing.turn_mem hfound'

end delete

section opening

/-- The number of pages in which `log_fs_open` looks for the records of the file with the FILE
page `page`: up to its bound, or up to the next FILE page when there are other files. -/
def SearchSize (c : LogFsCfg) (s : Sys) (page n : ℕ) : Prop :=
  0 < n ∧ n ≤ c.ring.size ∧
    if s.logFs.filePageFirst = s.logFs.filePageLast then
      boundEnd c page = c.ring.step (c.ring.next page) (n - 1)
    else
      Found s.flash logFsMarkerFile (c.ring.step (c.ring.next page) n) ∧
        ∀ i < n, ¬ Found s.flash logFsMarkerFile (c.ring.step (c.ring.next page) i)

theorem recSearchPages_achieves (hp : c.ring.Mem s.filePage) (hb : c.ring.Mem (boundEnd c s.filePage))
    (hf : Found s.flash logFsMarkerFile s.filePage) :
    (recSearchPages c).Achieves s fun r t => r = none ∨ HeaderOnly s t ∧ SameHeaders s t ∧
      ∃ n, SearchSize c s s.filePage n ∧
        r = some (c.ring.next s.filePage, c.ring.step (c.ring.next s.filePage) (n - 1)) := by
  have hstart := PageRing.next_mem hp
  have hsize := PageRing.size_pos (r := c.ring)
  apply (boundStart_returns hp).achieves
  rcases pageHeaderRd_look (.inl rfl) (c.ring.next s.filePage) s with ⟨nr, -, hr⟩ | ⟨hno, m, t, hm, hr, hs⟩
  · apply hr.achieves
    rw [if_pos rfl]
    apply setLogFs_achieves
    exact Prog.achieves_pure (.inl rfl)
  · apply hr.achieves
    rw [if_neg hm]
    obtain ⟨x, hx⟩ := pageHeaderRd_headerOnly hr
    have hpage : t.filePage = s.filePage := by rw [Sys.filePage, hx, Sys.filePage]
    apply (boundEnd_returns (hpage ▸ hp)).achieves
    apply getLogFs_achieves
    rw [hpage]
    by_cases hone : s.logFs.filePageFirst = s.logFs.filePageLast
    · rw [if_neg (by rw [hx, not_not]; exact hone)]
      obtain ⟨k, hk, hkend⟩ := PageRing.exists_step hstart hb
      refine Prog.achieves_pure (.inr ⟨⟨x, hx⟩, hs, k + 1, ⟨by omega, by omega, ?_⟩, ?_⟩)
      · rw [if_pos hone, Nat.add_sub_cancel, hkend]
      · rw [Nat.add_sub_cancel, hkend]
    · rw [if_pos (by rw [hx]; exact hone)]
      have hlast : c.ring.step (c.ring.next s.filePage) (c.ring.size - 1) = s.filePage := by
        rw [PageRing.step_size_pred hstart, PageRing.prev_next hp]
      have hbefore : ∀ i < c.ring.size - 1, c.ring.step (c.ring.next s.filePage) i ≠ s.filePage := by
        intro i hi h
        have h' := h.trans hlast.symm
        rw [PageRing.step_inj (by omega) (by omega)] at h'
        omega
      obtain ⟨r, u, hr', hu, hsearch⟩ := findFirst_spec (.inl rfl) hstart hlast hbefore t
      have hff : t.logFs.fileInfo.file.startPage = s.filePage := hpage
      rw [hff]
      apply hr'.achieves
      rcases hsearch with ⟨-, hnone⟩ | ⟨k, hk, rfl, hbetween, nr, hh, -⟩
      · exfalso
        apply hnone (c.ring.size - 1) (by omega)
        rw [hlast]
        exact hs.found.mp hf
      · by_cases hk0 : k = 0
        · rw [if_pos (by rw [hk0, PageRing.step_zero hstart])]
          apply setLogFs_achieves
          exact Prog.achieves_pure (.inl rfl)
        · obtain ⟨k, rfl⟩ := Nat.exists_eq_succ_of_ne_zero hk0
          have hne : c.ring.step (c.ring.next s.filePage) (k + 1) ≠ c.ring.next s.filePage := by
            intro h
            have h' := h.trans (PageRing.step_zero hstart).symm
            rw [PageRing.step_inj (by omega) (by omega)] at h'
            omega
          rw [if_neg hne, if_pos (mem_ne_invalid PageRing.step_mem)]
          apply (pagePrevious_returns PageRing.step_mem).achieves
          rw [PageRing.prev_step]
          have hru := findFirst_headerOnly hr'
          refine Prog.achieves_pure (.inr ⟨IsTrans.trans _ _ _ ⟨x, hx⟩ hru, IsTrans.trans _ _ _ hs hu, k + 1,
            ⟨by omega, by omega, ?_⟩, by rw [Nat.add_sub_cancel]⟩)
          rw [if_neg hone]
          exact ⟨hs.found.mpr ⟨.inl rfl, nr, hh⟩, fun i hi h => hbetween i hi (hs.found.mp h)⟩

theorem freeOffset_achieves : (freeOffset c page).Achieves s fun _ t => HeaderOnly s t := by
  have hlast := recOffsetLast_lt (c := c)
  have hpos := recBlockSize_pos (c := c)
  refine Prog.loop_achieves (k := c.recOffsetLast + 1 - recOffsetFirst)
    (I := fun d x t => d = c.recOffsetLast + 1 - x ∧ HeaderOnly s t) ?_ ⟨rfl, Std.Refl.refl s⟩
  rintro d x t ⟨rfl, ht⟩
  unfold freeOffsetRound
  by_cases hle : c.recOffsetLast < x
  · rw [if_pos hle]
    exact Prog.achieves_pure (.inl ⟨none, rfl, ht⟩)
  · rw [if_neg hle]
    obtain ⟨marker, u, hr⟩ := markerRd_total page x t
    have hu := IsTrans.trans _ _ _ ht (markerRd_headerOnly hr)
    apply hr.achieves
    have hmod : (x + c.recBlockSize) % 0x10000 = x + c.recBlockSize := Nat.mod_eq_of_lt (by omega)
    rw [hmod]
    split_ifs
    · exact Prog.achieves_pure (.inl ⟨_, rfl, hu⟩)
    · exact Prog.achieves_pure (.inr ⟨_, rfl, _, by omega, rfl, hu⟩)

theorem circularPage_achieves (hp : c.ring.Mem s.filePage) (hb : c.ring.Mem (boundEnd c s.filePage))
    (hq : c.ring.Mem q) : (circularPage c q).Achieves s fun r t => c.ring.Mem r ∧ HeaderOnly s t := by
  apply (isBoundPage_returns hp hb).achieves
  split_ifs
  · exact ⟨_, _, boundStart_returns hp, PageRing.next_mem hp, Std.Refl.refl s⟩
  · obtain ⟨marker, u, hr⟩ := markerRd_total q 0 s
    have hu := markerRd_headerOnly hr
    obtain ⟨x, hx⟩ := hu
    apply hr.achieves
    have hpage : u.filePage = s.filePage := by rw [Sys.filePage, hx, Sys.filePage]
    split_ifs
    · exact ⟨_, _, boundStart_returns (hpage ▸ hp), hpage ▸ PageRing.next_mem hp, ⟨x, hx⟩⟩
    · exact Prog.achieves_pure ⟨hq, x, hx⟩

def FileKept (s t : Sys) : Prop := t.logFs.fileInfo = s.logFs.fileInfo

instance : Std.Refl FileKept := ⟨fun _ => rfl⟩

instance : IsTrans Sys FileKept := ⟨fun _ _ _ h h' => Eq.trans h' h⟩

theorem HeaderOnly.fileKept (h : HeaderOnly s t) : FileKept s t := by
  obtain ⟨x, hx⟩ := h
  rw [FileKept, hx]

theorem FileKept.filePage (h : FileKept s t) : t.filePage = s.filePage :=
  congrArg (fun i => i.file.startPage) h

theorem largestDiff_fileKept {start stop : ℕ} {save : ℕ → ℕ → ℕ → LogFs → LogFs}
    (hsave : ∀ a b nr l, (save a b nr l).fileInfo = l.fileInfo) :
    (largestDiff c m start stop save page).Within FileKept := by
  have hset : ∀ a b nr, (setLogFs (save a b nr)).Within FileKept :=
    fun a b nr => Prog.within_modify fun s => hsave a b nr s.logFs
  apply Prog.within_loop
  rintro ⟨x, d⟩
  apply within_getLogFs
  intro l
  apply Prog.within_bind (findNext_headerOnly.weaken fun _ _ h => h.fileKept)
  intro q
  refine Prog.within_ite ?_ ?_
  · exact Prog.within_bind (hset _ _ _) fun _ => Prog.within_pure
  · apply within_getLogFs
    intro l'
    refine Prog.within_ite ?_ (Prog.within_ite Prog.within_pure Prog.within_pure)
    exact Prog.within_bind (hset _ _ _) fun _ => Prog.within_ite Prog.within_pure Prog.within_pure

/-- What makes `log_fs_open` come to an end: the bound of the file lies in the file system, and
its RECORD pages do not all have the same number. -/
def OpenEnds (c : LogFsCfg) (s : Sys) (page : ℕ) : Prop :=
  c.ring.Mem page ∧ c.ring.Mem (boundEnd c page) ∧
    ∀ n, SearchSize c s page n → ¬ OneNumber c s.flash logFsMarkerRecord (c.ring.next page) n

theorem SearchSize.congr (h : SearchSize c t page n) (hs : SameHeaders s t)
    (hfirst : t.logFs.filePageFirst = s.logFs.filePageFirst)
    (hlast : t.logFs.filePageLast = s.logFs.filePageLast) : SearchSize c s page n := by
  obtain ⟨h0, hn, hcase⟩ := h
  refine ⟨h0, hn, ?_⟩
  rw [hfirst, hlast] at hcase
  split
  · rename_i he
    rwa [if_pos he] at hcase
  · rename_i he
    rw [if_neg he] at hcase
    exact ⟨hs.found.mpr hcase.1, fun i hi hf => hcase.2 i hi (hs.found.mp hf)⟩

theorem OneNumber.congr {start : ℕ} (h : OneNumber c t.flash m start n) (hs : SameHeaders s t)
    (hm : m = logFsMarkerFile ∨ m = logFsMarkerRecord) : OneNumber c s.flash m start n := by
  obtain ⟨⟨i, hi, k, hk, hne, hfi, hfk⟩, nr, hone⟩ := h
  refine ⟨⟨i, hi, k, hk, hne, hs.found.mpr hfi, hs.found.mpr hfk⟩, nr, ?_⟩
  exact fun i hi nr' hh => hone i hi nr' ((hs m _ nr' hm).mp hh)

theorem open_terminates (h : OpenEnds c s file.startPage) : (logFsOpen c file).Terminates s := by
  obtain ⟨hp, hb, hnumbers⟩ := h
  apply Prog.Achieves.terminates (Q := fun _ _ => True)
  obtain ⟨ok, t, hr⟩ := fileBlockRd_total file.startPage s
  apply hr.achieves
  cases ok with
  | false =>
    simp only [Bool.not_false, if_true]
    exact Prog.achieves_pure trivial
  | true =>
    obtain ⟨hs, hf, x, y, ht⟩ := fileBlockRd_found hr
    have hpage : t.filePage = file.startPage := (fileBlockRd_true hr).2
    simp only [Bool.not_true, Bool.false_eq_true, if_false]
    rw [← hpage] at hp hb hf
    apply (recSearchPages_achieves hp hb hf).bind
    rintro r u (rfl | ⟨⟨z, hu⟩, hsu, n, hn, rfl⟩)
    · exact Prog.achieves_pure trivial
    have hnumber : ¬ OneNumber c u.flash logFsMarkerRecord (c.ring.next t.filePage) n := by
      intro hone
      rw [hpage] at hn hone
      apply hnumbers n (hn.congr hs (by rw [ht]) (by rw [ht]))
      exact (hone.congr hsu (.inr rfl)).congr hs (.inr rfl)
    obtain ⟨h0, hsize, -⟩ := hn
    have hstart := PageRing.next_mem hp
    have hpageU : u.filePage = t.filePage := (HeaderOnly.fileKept ⟨z, hu⟩).filePage
    have hbefore : ∀ i < n - 1, c.ring.step (c.ring.next t.filePage) i ≠
        c.ring.step (c.ring.next t.filePage) (n - 1) := by
      intro i hi he
      rw [PageRing.step_inj (by omega) (by omega)] at he
      omega
    obtain ⟨r, v, hr', hv, hsearch⟩ := findFirst_spec (.inr rfl) hstart rfl hbefore u
    obtain ⟨w, hw⟩ := findFirst_headerOnly hr'
    apply hr'.achieves
    rcases hsearch with ⟨rfl, -⟩ | ⟨k, hk, rfl, -, nr, hh, hheader⟩
    · rw [if_pos rfl]
      apply setLogFs_achieves
      apply (eraseIfNotFree_total _ _).achieves.bind
      exact fun _ _ _ => Prog.achieves_pure trivial
    · rw [if_neg (mem_ne_invalid PageRing.step_mem)]
      have hkn : k < n := by omega
      let saved : LogFs → Prop := fun l => (∃ i < n, l.recPageFirst = c.ring.step (c.ring.next t.filePage) i) ∧
        ∃ i < n, l.recPageLast = c.ring.step (c.ring.next t.filePage) i
      have hboth : ∀ i < n, ∀ j < n, ∀ nr l, saved (saveRecPages (c.ring.step (c.ring.next t.filePage) i)
          (c.ring.step (c.ring.next t.filePage) j) nr l) := fun i hi j hj _ _ => ⟨⟨i, hi, rfl⟩, j, hj, rfl⟩
      have hheaders : ∀ a b nr l, (saveRecPages a b nr l).pageHeader = l.pageHeader := fun _ _ _ _ => rfl
      obtain ⟨w, hr₁, -, hsaved⟩ := largestDiff_terminates (.inr rfl) hstart hsize hkn
        ((hv _ _ _ (.inr rfl)).mp hh) hheader hboth hheaders (fun _ _ hl => hl)
      have hone : ¬ OneNumber c v.flash logFsMarkerRecord (c.ring.next t.filePage) n :=
        fun h => hnumber (h.congr hv (.inr rfl))
      obtain ⟨⟨i, hi, hrecFirst⟩, j, hj, hrecLast⟩ := hsaved.resolve_right hone
      have hsave : ∀ a b nr l, (saveRecPages a b nr l).fileInfo = l.fileInfo := fun _ _ _ _ => rfl
      have hvw : FileKept v w := largestDiff_fileKept hsave hr₁
      have hkept : FileKept u w := IsTrans.trans _ _ _ (findFirst_headerOnly hr').fileKept hvw
      have hpageW : w.filePage = t.filePage := hkept.filePage.trans hpageU
      apply hr₁.achieves
      apply getLogFs_achieves
      apply (freeOffset_achieves (c := c)).bind
      intro offset x hx
      have hpageX : x.filePage = t.filePage := hx.fileKept.filePage.trans hpageW
      cases offset with
      | some offset =>
        apply setLogFs_achieves
        exact Prog.achieves_pure trivial
      | none =>
        rw [hrecLast]
        apply (pageNext_returns PageRing.step_mem).achieves
        cases c.type with
        | linear =>
          simp only
          apply (isBoundPage_returns (hpageX ▸ hp) (hpageX ▸ hb)).achieves
          split_ifs
          · apply (markerRd_total _ _ _).achieves.bind
            intro marker y _
            split_ifs
            · exact Prog.achieves_modify_bind (setLogFs_achieves (Prog.achieves_pure trivial))
            · exact setLogFs_achieves (Prog.achieves_pure trivial)
          · apply setLogFs_achieves
            exact Prog.achieves_pure trivial
        | circular =>
          simp only
          apply (circularPage_achieves (hpageX ▸ hp) (hpageX ▸ hb) (PageRing.next_mem PageRing.step_mem)).bind
          rintro q y ⟨hq, hy⟩
          obtain ⟨a, ha⟩ := IsTrans.trans _ _ _ hx hy
          apply Prog.achieves_modify_bind
          apply getLogFs_achieves
          split_ifs with hfirst
          · have hq : q = c.ring.step (c.ring.next t.filePage) i := by
              rw [hfirst]
              change y.logFs.recPageFirst = _
              rw [ha]
              exact hrecFirst
            obtain ⟨r, b, hb, -⟩ := findNext_spec (.inr rfl) hstart hsize hi (y.putFlash (y.flash.erase q))
            rw [← hq] at hb
            apply hb.achieves
            exact setLogFs_achieves (setLogFs_achieves (Prog.achieves_pure trivial))
          · exact setLogFs_achieves (Prog.achieves_pure trivial)

end opening

section recordWr

/-- Moving the first page of the records on comes to an end. -/
def FirstEnds (c : LogFsCfg) (s : Sys) : Prop :=
  s.logFs.recPageFirst ≠ logFsPageInvalid → InBounds c s.filePage s.logFs.recPageFirst

theorem recPageFirstErased_terminates (hp : c.ring.Mem s.filePage) (hq : c.ring.Mem q) (h : FirstEnds c s) : (recPageFirstErased c q).Terminates s := by
  apply Prog.Achieves.terminates (Q := fun _ _ => True)
  apply getLogFs_achieves
  dsimp only
  by_cases he : q = s.logFs.recPageFirst
  · rw [if_pos he]
    obtain ⟨n, hn, j, hj, hend, hfirst⟩ := h (he ▸ mem_ne_invalid hq)
    apply (boundStart_returns hp).achieves
    apply (boundEnd_returns hp).achieves
    obtain ⟨r, t, hr, -⟩ := findNext_spec (m := logFsMarkerRecord) (.inr rfl) (PageRing.next_mem hp) hn hj s
    rw [← hend, ← hfirst] at hr
    apply hr.achieves
    exact (setLogFs_total _).achieves
  · rw [if_neg he]
    exact Prog.achieves_pure trivial

/-- What makes `log_fs_record_wr` come to an end: the write cursor and the bounds of the file lie
in the file system, and so does its first page within the bounds. -/
structure WriteEnds (c : LogFsCfg) (s : Sys) : Prop where
  page : c.ring.Mem s.logFs.recAdrWr.page
  file : c.ring.Mem s.filePage
  bound : c.ring.Mem (boundEnd c s.filePage)
  first : c.type = .circular → FirstEnds c s ∧
    (s.logFs.recPageFirst = logFsPageInvalid → InBounds c s.filePage s.logFs.recAdrWr.page)

theorem FirstEnds.headerOnly (h : FirstEnds c s) (ht : HeaderOnly s t) : FirstEnds c t := by
  obtain ⟨x, hx⟩ := ht
  unfold FirstEnds
  rw [Sys.filePage, hx]
  exact h

theorem recordHeaderFailed_terminates (hq : c.ring.Mem q) (hp : c.ring.Mem s.filePage)
    (hb : c.ring.Mem (boundEnd c s.filePage)) (h : c.type = .circular → FirstEnds c s) :
    (recordHeaderFailed c q).Terminates s := by
  apply Prog.Achieves.terminates (Q := fun _ _ => True)
  apply (pageNext_returns hq).achieves
  have hnext := PageRing.next_mem hq
  obtain ⟨marker, t, hr⟩ := markerRd_total (c.ring.next q) 0 s
  have ht := markerRd_headerOnly hr
  have hpage := ht.fileKept.filePage
  apply hr.achieves
  cases hty : c.type with
  | linear =>
    have rest : ∀ reached : Bool, Prog.Achieves (if reached then pure .full
        else do
          at45dErasePage (c.ring.next q)
          setLogFs fun l => { l with recAdrWr := { l.recAdrWr with page := c.ring.next q } }
          return .writeFail : SysM LogFsErr) t fun _ _ => True := by
      intro reached
      split_ifs
      · exact Prog.achieves_pure trivial
      · exact Prog.achieves_modify_bind (setLogFs_achieves (Prog.achieves_pure trivial))
    split_ifs
    · exact rest true
    · apply (isBoundPage_returns (hpage ▸ hp) (hpage ▸ hb)).achieves
      exact rest _
  | circular =>
    have erase : ∀ x, c.ring.Mem x → Prog.Achieves (do
        at45dErasePage x
        setLogFs fun l => { l with recAdrWr := { l.recAdrWr with page := x } }
        recPageFirstErased c x
        return .writeFail : SysM LogFsErr) t fun _ _ => True := by
      intro x hx
      apply Prog.achieves_modify_bind
      apply setLogFs_achieves
      have hfirst := (h hty).headerOnly ht
      apply (recPageFirstErased_terminates ?_ hx ?_).achieves.bind
      · exact fun _ _ _ => Prog.achieves_pure trivial
      · exact hpage ▸ hp
      · exact hfirst
    have rest : ∀ reached : Bool, Prog.Achieves (do
        let page ← if reached then logFsRecordPagesBoundStart c else pure (c.ring.next q)
        at45dErasePage page
        setLogFs fun l => { l with recAdrWr := { l.recAdrWr with page := page } }
        recPageFirstErased c page
        return .writeFail : SysM LogFsErr) t fun _ _ => True := by
      intro reached
      split_ifs
      · apply (boundStart_returns (hpage ▸ hp)).achieves
        exact erase _ (PageRing.next_mem (hpage ▸ hp))
      · exact erase _ hnext
    split_ifs
    · exact rest true
    · apply (isBoundPage_returns (hpage ▸ hp) (hpage ▸ hb)).achieves
      exact rest _

theorem pageHeaderWr_headerOnly : (logFsPageHeaderWr page).Within HeaderOnly := by
  apply Prog.within_bind (setHeader_headerOnly (g := fun h => { h with crc := logFsCrcPageHeader h }))
  intro _
  apply within_getLogFs
  intro l
  apply Prog.within_bind at45dWr_headerOnly
  intro _
  apply within_at45dRd
  intro b
  refine Prog.within_ite Prog.within_pure ?_
  exact Prog.within_bind markerWr_headerOnly fun _ => Prog.within_pure

def FirstKept (c : LogFsCfg) (s : Sys) : Prop := c.type = .circular → FirstEnds c s

theorem recordPageStart_achieves (h : WriteEnds c s) :
    (recordPageStart c s.logFs.recAdrWr.page).Achieves s fun r t => r = none →
      t.filePage = s.filePage ∧ FirstKept c t := by
  obtain ⟨marker, t, hr⟩ := markerRd_total s.logFs.recAdrWr.page 0 s
  have ht := markerRd_headerOnly hr
  apply hr.achieves
  have header : ∀ u, HeaderOnly s u → Prog.Achieves (do
      setLogFs fun l => { l with
        pageHeader := { l.pageHeader with marker := logFsMarkerRecord, nr := l.recPageNrNext } }
      if !(← logFsPageHeaderWr s.logFs.recAdrWr.page) then
        return some (← recordHeaderFailed c s.logFs.recAdrWr.page)
      else
        setLogFs fun l => { l with
          recPageNrNext := (l.recPageNrNext + 1) % 0x10000
          recPageLast := s.logFs.recAdrWr.page
          recPageFirst := if l.recPageFirst = logFsPageInvalid then s.logFs.recAdrWr.page else l.recPageFirst }
        return none : SysM (Option LogFsErr)) u fun r t => r = none →
          t.filePage = s.filePage ∧ FirstKept c t := by
    rintro u ⟨x, hx⟩
    apply setLogFs_achieves
    obtain ⟨ok, v, hr⟩ := pageHeaderWr_total s.logFs.recAdrWr.page { u with logFs :=
      { u.logFs with pageHeader :=
        { u.logFs.pageHeader with marker := logFsMarkerRecord, nr := u.logFs.recPageNrNext } } }
    obtain ⟨y, hy⟩ := pageHeaderWr_headerOnly hr
    have hv : HeaderOnly s v := ⟨y, by rw [hy, hx]⟩
    have hpage := hv.fileKept.filePage
    apply hr.achieves
    split_ifs
    · apply (recordHeaderFailed_terminates h.page (hpage ▸ h.file) (hpage ▸ h.bound) ?_).achieves.bind
      · exact fun _ _ _ => Prog.achieves_pure fun he => absurd he (by simp)
      · exact fun hty => (h.first hty).1.headerOnly hv
    · apply setLogFs_achieves
      refine Prog.achieves_pure fun _ => ⟨hpage, fun hty => ?_⟩
      obtain ⟨hfirst, hnone⟩ := h.first hty
      intro hne
      change InBounds c v.filePage _
      rw [hpage]
      obtain ⟨z, hz⟩ := hv
      by_cases hinv : s.logFs.recPageFirst = logFsPageInvalid
      · simp only [hz, hinv, if_true]
        exact hnone hinv
      · simp only [hz, if_neg hinv]
        exact hfirst hinv
  cases hty : c.type with
  | linear =>
    simp only
    by_cases hm : marker = logFsMarkerFile
    · rw [if_pos hm, pure_bind, if_pos rfl]
      exact Prog.achieves_pure fun he => absurd he (by simp)
    · rw [if_neg hm]
      have hpage := ht.fileKept.filePage
      apply (isBoundPage_returns (hpage ▸ h.file) (hpage ▸ h.bound)).achieves
      split_ifs
      · exact Prog.achieves_pure fun he => absurd he (by simp)
      · exact Prog.achieves_modify_bind (header (t.putFlash (t.flash.erase s.logFs.recAdrWr.page)) ht)
      · exact header t ht
  | circular =>
    simp only
    rw [pure_bind, if_neg (by simp)]
    split_ifs
    · exact Prog.achieves_modify_bind (header (t.putFlash (t.flash.erase s.logFs.recAdrWr.page)) ht)
    · exact header t ht

theorem recordAdvance_terminates (hmem : c.ring.Mem q) (hp : c.ring.Mem s.filePage)
    (hb : c.ring.Mem (boundEnd c s.filePage)) (h : c.type = .circular → FirstEnds c s) {offset : ℕ} :
    (recordAdvance c q offset).Terminates s := by
  apply Prog.Achieves.terminates (Q := fun _ _ => True)
  unfold recordAdvance
  split_ifs
  swap
  · exact (setLogFs_total _).achieves
  apply (pageNext_returns hmem).achieves
  cases hty : c.type with
  | linear =>
    simp only [pure_bind]
    apply (isBoundPage_returns hp hb).achieves
    split_ifs
    · apply (markerRd_total _ _ _).achieves.bind
      intro marker t _
      split_ifs
      · exact Prog.achieves_modify_bind (setLogFs_total _).achieves
      · exact (setLogFs_total _).achieves
    · exact (setLogFs_total _).achieves
  | circular =>
    simp only [pure_bind]
    apply (circularPage_achieves hp hb (PageRing.next_mem hmem)).bind
    rintro x t ⟨hx, ht⟩
    apply Prog.achieves_modify_bind
    apply (recPageFirstErased_terminates ?_ hx ?_).achieves.bind
    · exact fun _ _ _ => (setLogFs_total _).achieves
    · exact ht.fileKept.filePage ▸ hp
    · exact (h hty).headerOnly ht

theorem FileKept.firstEnds (h : FileKept s t) (hfirst : t.logFs.recPageFirst = s.logFs.recPageFirst)
    (hs : FirstEnds c s) : FirstEnds c t := by
  unfold FirstEnds
  rw [h.filePage, hfirst]
  exact hs

theorem recordBlockWr_kept {offset : ℕ} : (logFsRecordBlockWr c page offset).Within fun s t =>
    t.logFs.fileInfo = s.logFs.fileInfo ∧ t.logFs.recPageFirst = s.logFs.recPageFirst := by
  intro s b t hr
  simp only [logFsRecordBlockWr, Prog.returns_ite, setLogFs_bind, getLogFs_bind, at45dWr_bind,
    at45dRd_bind] at hr
  split at hr
  · obtain ⟨-, rfl⟩ := Prog.returns_pure.mp hr
    exact ⟨rfl, rfl⟩
  · split at hr
    · obtain ⟨_, u, h₁, hr⟩ := Prog.returns_bind.mp hr
      obtain ⟨-, rfl⟩ := Prog.returns_pure.mp hr
      obtain ⟨x, hx⟩ := markerWr_headerOnly h₁
      rw [hx]
      exact ⟨rfl, rfl⟩
    · obtain ⟨-, rfl⟩ := Prog.returns_pure.mp hr
      exact ⟨rfl, rfl⟩

theorem recordWr_terminates {data : List UInt8} (h : s.logFs.recAdrWr.offset = recOffsetFirst ∨
    s.logFs.recAdrWr.offset = c.recOffsetLast → WriteEnds c s) : (logFsRecordWr c data).Terminates s := by
  apply Prog.Achieves.terminates (Q := fun _ _ => True)
  apply getLogFs_achieves
  have written : ∀ t, (s.logFs.recAdrWr.offset = c.recOffsetLast →
      t.filePage = s.filePage ∧ FirstKept c t) → Prog.Achieves (do
      setLogFs fun l => { l with
        recordBlock := { l.recordBlock with data := recordData c.recDataSize data } }
      let success ← logFsRecordBlockWr c s.logFs.recAdrWr.page s.logFs.recAdrWr.offset
      recordAdvance c s.logFs.recAdrWr.page s.logFs.recAdrWr.offset
      return if success then .none else .writeFail : SysM LogFsErr) t fun _ _ => True := by
    intro t ht
    apply setLogFs_achieves
    obtain ⟨ok, u, hr⟩ := recordBlockWr_total (c := c) s.logFs.recAdrWr.page s.logFs.recAdrWr.offset
      { t with logFs := { t.logFs with
        recordBlock := { t.logFs.recordBlock with data := recordData c.recDataSize data } } }
    obtain ⟨hinfo, hfirst⟩ := recordBlockWr_kept hr
    apply hr.achieves
    by_cases hlast : s.logFs.recAdrWr.offset = c.recOffsetLast
    · obtain ⟨hpage, hends⟩ := ht hlast
      have hw := h (.inr hlast)
      have hu : FileKept t u := hinfo
      have hpageU := hu.filePage.trans hpage
      apply (recordAdvance_terminates hw.page (hpageU ▸ hw.file) (hpageU ▸ hw.bound) ?_).achieves.bind
      · exact fun _ _ _ => Prog.achieves_pure trivial
      · exact fun hty => hu.firstEnds hfirst (hends hty)
    · unfold recordAdvance
      rw [if_neg hlast]
      apply (setLogFs_total _).achieves.bind
      exact fun _ _ _ => Prog.achieves_pure trivial
  by_cases hfirst : s.logFs.recAdrWr.offset = recOffsetFirst
  · rw [if_pos hfirst]
    apply (recordPageStart_achieves (h (.inl hfirst))).bind
    intro started t ht
    cases started with
    | some err => exact Prog.achieves_pure trivial
    | none => exact written t fun _ => ht rfl
  · rw [if_neg hfirst]
    exact written s fun hlast => ⟨rfl, fun hty => ((h (.inr hlast)).first hty).1⟩

end recordWr

/-- The call comes to an end: every page it goes to lies in the file system, and every loop over
pages meets what it waits for. -/
def CallEnds (c : LogFsCfg) (s : Sys) : LogFsCall → Prop
  | .init => True
  | .create _ => s.logFs.filePageLast = logFsPageInvalid ∨ c.ring.Mem s.logFs.filePageLast ∧ FileFound c s
  | .fileFindFirst => True
  | .fileFindLast => True
  | .fileFindNext => FindEnds c s s.logFs.filePageLast
  | .fileFindPrevious => FindEnds c s s.logFs.filePageFirst
  | .open file => OpenEnds c s file.startPage
  | .fileDelete file => file.startPage = s.logFs.filePageFirst → DeleteEnds c s
  | .recordRdFirst _ => s.logFs.recPageFirst = logFsPageInvalid ∨
      c.ring.Mem s.logFs.recPageFirst ∧ NextEnds c s ⟨c.ring.prev s.logFs.recPageFirst, c.recOffsetLast⟩
  | .recordRdLast _ => s.logFs.recPageLast = logFsPageInvalid ∨ PreviousEnds c s s.logFs.recAdrWr
  | .recordRdNext _ => NextEnds c s s.logFs.recAdrRd
  | .recordRdPrevious _ => PreviousEnds c s s.logFs.recAdrRd
  | .recordWr _ => s.logFs.recAdrWr.offset = recOffsetFirst ∨ s.logFs.recAdrWr.offset = c.recOffsetLast →
      WriteEnds c s

theorem call_terminates {call : LogFsCall} (h : CallEnds c s call) : (logFsCall c call).Terminates s := by
  cases call with
  | init => exact Prog.Terminates.map init_terminates
  | create timeStamp => exact Prog.Terminates.map (create_terminates h)
  | fileFindFirst => exact Prog.Terminates.map fileFindFirst_terminates
  | fileFindLast => exact Prog.Terminates.map fileFindLast_terminates
  | fileFindNext => exact Prog.Terminates.map (fileFindNext_terminates h)
  | fileFindPrevious => exact Prog.Terminates.map (fileFindPrevious_terminates h)
  | «open» file => exact Prog.Terminates.map (open_terminates h)
  | fileDelete file => exact Prog.Terminates.map (fileDelete_terminates h)
  | recordRdFirst nrOfBytes => exact Prog.Terminates.map (recordRdFirst_terminates h)
  | recordRdLast nrOfBytes => exact Prog.Terminates.map (recordRdLast_terminates h)
  | recordRdNext nrOfBytes => exact Prog.Terminates.map (recordRdNext_terminates h)
  | recordRdPrevious nrOfBytes => exact Prog.Terminates.map (recordRdPrevious_terminates h)
  | recordWr data => exact Prog.Terminates.map (recordWr_terminates h)

/-- Every call of the run meets the condition in the state that the calls before it have led to. -/
def RunEnds (c : LogFsCfg) : List LogFsCall → Sys → Prop
  | [], _ => True
  | call :: calls, s => CallEnds c s call ∧ ∀ a t, (logFsCall c call).Returns s a t → RunEnds c calls t

/-- On any flash, every call of a run returns as long as the calls meet their conditions. -/
theorem calls_terminate (calls : List LogFsCall) (s : Sys) (h : RunEnds c calls s) :
    (logFsCalls c calls).Terminates s := by
  induction calls generalizing s with
  | nil => exact (Prog.total_pure s)
  | cons call calls ih =>
    obtain ⟨hcall, hrest⟩ := h
    apply (call_terminates hcall).bind
    intro a t ha
    apply (ih t (hrest a t ha)).bind
    exact fun _ u _ => Prog.total_pure u

/-- A page with the header of a FILE page but without file info, as a power cut leaves it. -/
def powerCutSys : Sys := ⟨LogFs.zero reclaimCfg, headerImage erased 0 0, []⟩

theorem calls_terminate_powerCut :
    (logFsCalls reclaimCfg [.init, .create reclaimTime]).Terminates powerCutSys := by
  apply calls_terminate
  refine ⟨trivial, fun a t ht => ⟨.inr ?_, fun _ _ _ => trivial⟩⟩
  have hrun : ((logFsCall reclaimCfg .init).run 20 powerCutSys).any fun r =>
      decide (r.2.logFs.filePageLast = 0 ∧
        r.2.flash.read 0 0 pageHeaderSize = (sealedHeader logFsMarkerFile 0).toBytes) := by
    decide +kernel
  obtain ⟨⟨b, u⟩, hu, hrun⟩ := (Option.any_eq_true _ _).mp hrun
  obtain ⟨hlast, hread⟩ := of_decide_eq_true hrun
  obtain ⟨-, rfl⟩ := Prog.Returns.unique ht ⟨20, hu⟩
  exact ⟨by rw [hlast]; decide, 0, by decide, .inl rfl, 0, by decide, hread⟩

theorem lastRecord_diverges {last : ℕ} (hp : c.ring.Mem p)
    (h : ∀ q, c.ring.Mem q → s.flash q 0 = logFsMarkerFree ∨ s.flash q 0 = logFsMarkerBad) :
    ¬ (Prog.loop (lastRecordRound c) (p, last)).Terminates s := by
  apply Prog.loop_diverges (I := fun x t => c.ring.Mem x.1 ∧ t = s)
  · rintro ⟨x, l⟩ t z u ⟨hx, rfl⟩ hr
    have hnext := PageRing.next_mem hx
    have hrd : (logFsPageHeaderRd (c.ring.next x)).Returns t (t.flash (c.ring.next x) 0) t := by
      unfold logFsPageHeaderRd
      apply (markerRd_returns ?_).bind
      · rw [if_pos (h _ hnext)]
        exact Prog.returns_pure.mpr ⟨rfl, rfl⟩
      · rcases h _ hnext with h | h <;> rw [h] <;> decide
    have hfile : t.flash (c.ring.next x) 0 ≠ logFsMarkerFile := by
      rcases h _ hnext with h | h <;> rw [h] <;> decide
    have hround : (lastRecordRound c (x, l)).Returns t
        (.inl (c.ring.next x, if t.flash (c.ring.next x) 0 = logFsMarkerRecord then c.ring.next x else l)) t := by
      apply (pageNext_returns hx).bind
      apply hrd.bind
      rw [if_pos hfile]
      exact Prog.returns_pure.mpr ⟨rfl, rfl⟩
    obtain ⟨rfl, rfl⟩ := hr.unique hround
    exact ⟨_, rfl, hnext, rfl⟩
  · exact ⟨hp, rfl⟩

theorem create_diverges {timeStamp : LogFsTimeStamp} (hp : c.ring.Mem s.logFs.filePageLast)
    (h : ∀ q, c.ring.Mem q → s.flash q 0 = logFsMarkerFree ∨ s.flash q 0 = logFsMarkerBad) :
    ¬ (logFsCreate c timeStamp).Terminates s := by
  rintro ⟨err, t, hr⟩
  obtain ⟨page, u, hu, -⟩ := Prog.returns_bind.mp hr
  simp only [createPage, getLogFs_bind] at hu
  rw [if_pos (mem_ne_invalid hp)] at hu
  obtain ⟨last, v, hv, -⟩ := Prog.returns_bind.mp hu
  exact lastRecord_diverges hp h ⟨last, v, hv⟩

/-- A look at the half written file marks its page as bad, and `log_fs_create` never returns. -/
theorem create_never_returns : ¬ ∀ (flash : Pages) (calls : List LogFsCall),
    (∀ call ∈ calls, ∀ file, call ≠ .open file ∧ call ≠ .fileDelete file) →
    (logFsCalls reclaimCfg (.init :: calls)).Terminates ⟨LogFs.zero reclaimCfg, flash, []⟩ := by
  intro h
  have hcalls := h (headerImage erased 0 0) [.fileFindFirst, .create reclaimTime] (by simp)
  have hrun : ((logFsCall reclaimCfg .init).run 20 powerCutSys).any fun r =>
      ((logFsCall reclaimCfg .fileFindFirst).run 20 r.2).any fun r =>
        decide (r.2.logFs.filePageLast = 0 ∧ ∀ q ∈ List.range 5, r.2.flash q 0 = logFsMarkerFree ∨
          r.2.flash q 0 = logFsMarkerBad) := by
    decide +kernel
  obtain ⟨⟨a, s⟩, hs, hrun⟩ := (Option.any_eq_true _ _).mp hrun
  obtain ⟨⟨b, t⟩, ht, hrun⟩ := (Option.any_eq_true _ _).mp hrun
  obtain ⟨hlast, hmarkers⟩ := of_decide_eq_true hrun
  obtain ⟨as, u, hcalls⟩ := hcalls
  obtain ⟨a', s', hs', hcalls⟩ := Prog.returns_bind.mp hcalls
  obtain ⟨-, rfl⟩ := Prog.Returns.unique hs' ⟨20, hs⟩
  obtain ⟨as, u', hcalls, -⟩ := Prog.returns_bind.mp hcalls
  obtain ⟨b', t', ht', hcalls⟩ := Prog.returns_bind.mp hcalls
  obtain ⟨-, rfl⟩ := Prog.Returns.unique ht' ⟨20, ht⟩
  obtain ⟨as, u'', hcalls, -⟩ := Prog.returns_bind.mp hcalls
  obtain ⟨e, v, hcreate, -⟩ := Prog.returns_bind.mp hcalls
  obtain ⟨err, hcreate, -⟩ := Prog.returns_map.mp hcreate
  apply create_diverges (c := reclaimCfg) (s := t') ?_ ?_ ⟨err, v, hcreate⟩
  · rw [hlast]
    decide
  · intro q hq
    have hq5 : q ≤ 4 := hq.2
    exact hmarkers q (List.mem_range.mpr (by omega))

end Lpc1788Libraries.DataManager

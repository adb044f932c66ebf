import Lpc1788Libraries.DataManager.LogFsTermination

namespace Lpc1788Libraries.DataManager

open Lpc1788Libraries.Support NorFlash BoundedProgram

variable {c : LogFsCfg} {s t : Sys} {page k nr : ℕ} {recs : List Rec} {data : List UInt8}

section grown

theorem boundEnd_grown : (logFsRecordPagesBoundEnd c).Within Grown := by
  apply within_getLogFs
  intro l
  exact Prog.within_ite Prog.within_pure within_pagePrevious

theorem boundStart_grown : (logFsRecordPagesBoundStart c).Within Grown := within_getLogFs fun _ => within_pageNext

theorem isBoundPage_grown : (isBoundPage c page).Within Grown :=
  Prog.within_bind boundEnd_grown fun _ => Prog.within_bind within_pageNext fun _ => Prog.within_pure

theorem circularPage_grown : (circularPage c page).Within Grown := by
  apply Prog.within_bind isBoundPage_grown
  intro reached
  apply Prog.within_ite boundStart_grown
  apply Prog.within_bind grown_closed.markerRd
  intro marker
  exact Prog.within_ite boundStart_grown Prog.within_pure

theorem recPageFirstErased_grown : (recPageFirstErased c page).Within Grown := by
  apply within_getLogFs
  intro l
  refine Prog.within_ite ?_ Prog.within_pure
  apply Prog.within_bind boundStart_grown
  intro start
  apply Prog.within_bind boundEnd_grown
  intro stop
  apply Prog.within_bind grown_closed.findNext
  exact fun _ => setLogFs_grown

theorem recordAdvance_grown {offset : ℕ} : (recordAdvance c page offset).Within Grown := by
  unfold recordAdvance
  refine Prog.within_ite ?_ setLogFs_grown
  refine Prog.within_bind (R := Grown) within_pageNext fun next => ?_
  cases c.type with
  | linear =>
    simp only [pure_bind]
    refine Prog.within_bind (R := Grown) isBoundPage_grown fun reached => ?_
    refine Prog.within_ite ?_ setLogFs_grown
    refine Prog.within_bind (R := Grown) grown_closed.markerRd fun marker => ?_
    refine Prog.within_ite ?_ setLogFs_grown
    exact Prog.within_bind grown_closed.at45dErase fun _ => setLogFs_grown
  | circular =>
    simp only [pure_bind]
    refine Prog.within_bind (R := Grown) circularPage_grown fun next => ?_
    refine Prog.within_bind (R := Grown) grown_closed.at45dErase fun _ => ?_
    exact Prog.within_bind recPageFirstErased_grown fun _ => setLogFs_grown

end grown

theorem recordAdvance_keeps (hl : c.type = .linear) {offset : ℕ} : (recordAdvance c page offset).Within (Keeps page) := by
  have set : ∀ g : LogFs → LogFs, (∀ l, (g l).fileInfo = l.fileInfo) → (setLogFs g).Within (Keeps page) :=
    fun g hg => Prog.within_modify fun s => ⟨hg s.logFs, fun i => rfl⟩
  unfold recordAdvance
  refine Prog.within_ite ?_ (set _ fun _ => rfl)
  refine Prog.within_bind_answers (R := Keeps page) within_pageNext pageNext_ne fun next hne => ?_
  simp only [hl, pure_bind]
  refine Prog.within_bind (R := Keeps page) ?_ fun reached => ?_
  · apply Prog.within_bind
    · apply within_getLogFs
      intro l
      exact Prog.within_ite Prog.within_pure within_pagePrevious
    · exact fun _ => Prog.within_bind within_pageNext fun _ => Prog.within_pure
  refine Prog.within_ite ?_ (set _ fun _ => rfl)
  refine Prog.within_bind (R := Keeps page) (markerRd_keeps hne) fun marker => ?_
  refine Prog.within_ite ?_ (set _ fun _ => rfl)
  exact Prog.within_bind (at45dErase_keeps hne) fun _ => set _ fun _ => rfl

/-- A page at which `log_fs_record_wr` starts: erased or BAD, and not behind the last page of the file. -/
structure Startable (c : LogFsCfg) (s : Sys) (page : ℕ) : Prop where
  content : ErasedFrom s.flash page 0 ∨ s.flash page 0 = logFsMarkerBad
  nr : s.logFs.recPageNrNext < 0x10000
  inside : c.type = .linear → page ≠ c.ring.next (boundEnd c s.filePage)

/-- The write cursor stands at record `k` of a page that holds the records before it. -/
structure ReadyAt (c : LogFsCfg) (s : Sys) (page k : ℕ) (recs : List Rec) : Prop where
  cursor : s.logFs.recAdrWr = ⟨page, recOffset c k⟩
  count : recs.length = k
  started : 0 < k → ∃ nr, Holds c s.flash page (.record nr recs)
  startable : k = 0 → Startable c s page
  ends : WriteEnds c s

/-- The record is in the flash, and stays in it unless the write goes on in the next page of a
circular file, which may be the same page. -/
structure RecordStored (c : LogFsCfg) (s : Sys) (page : ℕ) (recs : List Rec) (t : Sys) : Prop where
  written : ∃ new g nr, t.flash :: t.images = new ++ s.flash :: s.images ∧ g ∈ new ∧ Holds c g page (.record nr recs)
  kept : c.type = .linear ∨ recs.length < c.recordsPerPage → ∃ nr, Holds c t.flash page (.record nr recs)

theorem markerBad_holds_started {f : Pages} (h : ErasedFrom f page 0) (hn : nr < 0x10000) :
    Holds c (f.program page 0 (sealedHeader logFsMarkerRecord nr).toBytes) page (.record nr []) := by
  obtain ⟨hheader, herased⟩ := headerAt_program (m := logFsMarkerRecord) h hn
  refine ⟨hheader, Nat.zero_le _, ?_, fun k d hk => absurd hk (by simp)⟩
  rw [List.length_nil, recOffset_zero]
  exact herased

/-- What the start of a page has done. -/
structure PageStarted (s : Sys) (page : ℕ) (c : LogFsCfg) (t : Sys) : Prop where
  grown : Grown s t
  content : ∃ nr, Holds c t.flash page (.record nr [])
  file : t.logFs.fileInfo = s.logFs.fileInfo
  cursor : t.logFs.recAdrWr = s.logFs.recAdrWr
  first : t.logFs.recPageFirst = if s.logFs.recPageFirst = logFsPageInvalid then page else s.logFs.recPageFirst

theorem recordHeader_started {u : Sys} (he : ErasedFrom u.flash page 0) (hu : u.logFs = s.logFs) (hgrown : Grown s u)
    (hnr : s.logFs.recPageNrNext < 0x10000) : ∃ t, Prog.Returns (do
      setLogFs fun l => { l with
        pageHeader := { l.pageHeader with marker := logFsMarkerRecord, nr := l.recPageNrNext } }
      if !(← logFsPageHeaderWr page) then
        return some (← recordHeaderFailed c page)
      else
        setLogFs fun l => { l with
          recPageNrNext := (l.recPageNrNext + 1) % 0x10000
          recPageLast := page
          recPageFirst := if l.recPageFirst = logFsPageInvalid then page else l.recPageFirst }
        return none : SysM (Option LogFsErr)) u none t ∧ PageStarted s page c t := by
  let named : Sys := { u with logFs := { u.logFs with
    pageHeader := { u.logFs.pageHeader with marker := logFsMarkerRecord, nr := u.logFs.recPageNrNext } } }
  obtain ⟨v, hwr, hflash, himages, x, hx⟩ : ∃ v, (logFsPageHeaderWr page).Returns named true v ∧
      v.flash = u.flash.program page 0 (sealedHeader logFsMarkerRecord u.logFs.recPageNrNext).toBytes ∧
      v.images = u.flash :: u.images ∧ ∃ x, v.logFs = { u.logFs with pageHeader := x } :=
    ⟨_, pageHeaderWr_returns (s := named) he, rfl, rfl, _, rfl⟩
  simp only [setLogFs_bind]
  refine ⟨{ v with logFs := { v.logFs with
    recPageNrNext := (v.logFs.recPageNrNext + 1) % 0x10000
    recPageLast := page
    recPageFirst := if v.logFs.recPageFirst = logFsPageInvalid then page else v.logFs.recPageFirst } },
    hwr.bind ?_, ?_⟩
  · simp only [Bool.not_true, Bool.false_eq_true, if_false, setLogFs_bind]
    exact Prog.returns_pure.mpr ⟨rfl, rfl⟩
  constructor
  · apply hgrown.trans
    change _ <:+ v.flash :: v.images
    rw [himages]
    exact List.suffix_cons ..
  · change ∃ nr, Holds c v.flash page (.record nr [])
    rw [hflash]
    exact ⟨_, markerBad_holds_started he (by rw [hu]; exact hnr)⟩
  · simp only [hx, hu]
  · simp only [hx, hu]
  · simp only [hx, hu]

theorem recordPageStart_returns (h : Startable c s page) (hw : WriteEnds c s) :
    ∃ t, (recordPageStart c page).Returns s none t ∧ PageStarted s page c t := by
  have hmarker : s.flash page 0 = logFsMarkerFree ∨ s.flash page 0 = logFsMarkerBad := by
    rcases h.content with he | hb
    · exact .inl (he 0 (Nat.le_refl 0))
    · exact .inr hb
  have hvalid : validMarker (s.flash page 0) := by
    rcases hmarker with he | hb
    · rw [he]
      decide
    · rw [hb]
      decide
  have hne : s.flash page 0 ≠ logFsMarkerFile := by
    rcases hmarker with he | hb
    · rw [he]
      decide
    · rw [hb]
      decide
  -- a BAD page is erased first
  obtain ⟨u, he, hu, hgrown, hstep⟩ : ∃ u : Sys, ErasedFrom u.flash page 0 ∧ u.logFs = s.logFs ∧ Grown s u ∧
      ∀ (k : SysM (Option LogFsErr)) t, k.Returns u none t →
        (if s.flash page 0 = logFsMarkerBad then at45dErasePage page >>= fun _ => k else k).Returns s none t := by
    rcases h.content with he | hb
    · refine ⟨s, he, rfl, Std.Refl.refl s, fun k t hk => ?_⟩
      rw [if_neg (by rw [he 0 (Nat.le_refl 0)]; decide)]
      exact hk
    · refine ⟨s.putFlash (s.flash.erase page), fun i _ => erase_same, rfl, List.suffix_cons .., fun k t hk => ?_⟩
      rw [if_pos hb, at45dErase_bind]
      exact hk
  obtain ⟨t, ht, hrest⟩ := recordHeader_started he hu hgrown h.nr
  refine ⟨t, ?_, hrest⟩
  unfold recordPageStart
  apply (markerRd_returns hvalid).bind
  cases hl : c.type with
  | linear =>
    simp only
    rw [if_neg hne]
    have hbound : (isBoundPage c page).Returns s (decide (page = c.ring.next (boundEnd c s.filePage))) s :=
      isBoundPage_returns hw.file hw.bound
    rw [decide_eq_false (h.inside hl)] at hbound
    apply hbound.bind
    rw [if_neg (by simp)]
    exact hstep _ t ht
  | circular =>
    simp only
    rw [pure_bind, if_neg (by simp)]
    exact hstep _ t ht

theorem recordAdvance_last : (recordAdvance c page c.recOffsetLast).Leaves fun t => t.logFs.recAdrWr.offset = recOffsetFirst := by
  have set : ∀ next, (setLogFs fun l => { l with recAdrWr := ⟨next, recOffsetFirst⟩ }).Leaves
      fun t => t.logFs.recAdrWr.offset = recOffsetFirst := fun next => Prog.leaves_modify fun _ => rfl
  unfold recordAdvance
  rw [if_pos rfl]
  refine Prog.leaves_bind fun next => ?_
  cases c.type with
  | linear =>
    simp only [pure_bind]
    refine Prog.leaves_bind fun reached => Prog.leaves_ite ?_ (set _)
    refine Prog.leaves_bind fun marker => Prog.leaves_ite ?_ (set _)
    exact Prog.leaves_bind fun _ => set _
  | circular =>
    simp only [pure_bind]
    refine Prog.leaves_bind fun next => Prog.leaves_bind fun _ => ?_
    exact Prog.leaves_bind fun _ => set _

theorem recordAdvance_before (h : recOffset c (k + 1) ≤ c.recOffsetLast) (hs : s.logFs.recAdrWr = ⟨page, recOffset c k⟩) :
    (recordAdvance c page (recOffset c k)).Returns s ()
      { s with logFs := { s.logFs with recAdrWr := ⟨page, recOffset c (k + 1)⟩ } } := by
  have hne : recOffset c k ≠ c.recOffsetLast := by
    have := recOffset_strict (c := c) (Nat.lt_add_one k)
    omega
  have hmod : (recOffset c k + c.recBlockSize) % 0x10000 = recOffset c (k + 1) := by
    rw [← recOffset_succ]
    apply Nat.mod_eq_of_lt
    have := recOffset_lt (c := c) (k := c.recordsPerPage - 1) (Nat.sub_le _ _)
    rw [recOffset_last] at this
    omega
  unfold recordAdvance
  rw [if_neg hne, setLogFs_returns, hs, hmod]

theorem length_recordData (n : ℕ) (data : List UInt8) : (recordData n data).length = n := by
  induction n generalizing data with
  | zero => rfl
  | succ n ih =>
    cases data with
    | nil => rw [recordData, List.length_cons, ih]
    | cons b data => rw [recordData, List.length_cons, ih]

/-- The page is open for its next record. -/
structure Opened (c : LogFsCfg) (s : Sys) (page : ℕ) (recs : List Rec) (v : Sys) : Prop where
  grown : Grown s v
  content : ∃ nr, Holds c v.flash page (.record nr recs)
  file : v.logFs.fileInfo = s.logFs.fileInfo
  cursor : v.logFs.recAdrWr = s.logFs.recAdrWr
  first : c.type = .circular → v.logFs.recPageFirst ≠ logFsPageInvalid ∧ InBounds c s.filePage v.logFs.recPageFirst ∨
    v.logFs.recPageFirst = s.logFs.recPageFirst

theorem ReadyAt.opened (h : ReadyAt c s page k recs) : ∃ v, Opened c s page recs v ∧
    ∀ (rest : Option LogFsErr → SysM LogFsErr) err t, (rest none).Returns v err t →
      (if s.logFs.recAdrWr.offset = recOffsetFirst then recordPageStart c s.logFs.recAdrWr.page >>= rest
        else pure none >>= rest).Returns s err t := by
  have hpage : s.logFs.recAdrWr.page = page := by rw [h.cursor]
  have hoffset : s.logFs.recAdrWr.offset = recOffset c k := by rw [h.cursor]
  rcases Nat.eq_zero_or_pos k with rfl | hk
  · obtain ⟨v, hv, hs⟩ := recordPageStart_returns (h.startable rfl) h.ends
    refine ⟨v, ⟨hs.grown, ?_, hs.file, hs.cursor, fun hty => ?_⟩, fun rest err t hr => ?_⟩
    · rw [List.length_eq_zero_iff.mp h.count]
      exact hs.content
    · have hbounds := (h.ends.first hty).2
      rw [hpage] at hbounds
      rw [hs.first]
      split
      · next hinv => exact .inl ⟨mem_ne_invalid (hpage ▸ h.ends.page), hbounds hinv⟩
      · exact .inr rfl
    · rw [if_pos (by rw [hoffset, recOffset_zero]), hpage]
      exact hv.bind hr
  · refine ⟨s, ⟨Std.Refl.refl s, h.started hk, rfl, rfl, fun _ => .inr rfl⟩, fun rest err t hr => ?_⟩
    rw [if_neg, pure_bind]
    · exact hr
    · have := recOffset_strict (c := c) hk
      rw [recOffset_zero] at this
      omega

theorem ReadyAt.writeEnds {v w : Sys} (h : ReadyAt c s page k recs) (ho : Opened c s page recs v)
    (hinfo : w.logFs.fileInfo = v.logFs.fileInfo) (hcursor : w.logFs.recAdrWr = v.logFs.recAdrWr)
    (hfirst : w.logFs.recPageFirst = v.logFs.recPageFirst) : WriteEnds c w := by
  have hfile : w.filePage = s.filePage := by rw [Sys.filePage, hinfo, ho.file, Sys.filePage]
  have hpage : w.logFs.recAdrWr.page = s.logFs.recAdrWr.page := by rw [hcursor, ho.cursor]
  refine ⟨hpage ▸ h.ends.page, hfile ▸ h.ends.file, hfile ▸ h.ends.bound, fun hty => ?_⟩
  unfold FirstEnds
  rw [hfile, hfirst, hpage]
  rcases ho.first hty with ⟨hne, hin⟩ | hsame
  · exact ⟨fun _ => hin, fun he => absurd he hne⟩
  · rw [hsame]
    exact h.ends.first hty

theorem recordWr_stored (h : ReadyAt c s page k recs) (hk : k < c.recordsPerPage)
    (hfit : recOffset c k + c.recBlockSize < c.pageSize) (data : List UInt8) :
    ∃ t, (logFsRecordWr c data).Returns s .none t ∧
      RecordStored c s page (recs ++ [recordData c.recDataSize data]) t ∧
      (k + 1 < c.recordsPerPage → ReadyAt c t page (k + 1) (recs ++ [recordData c.recDataSize data])) ∧
      (k + 1 = c.recordsPerPage → t.logFs.recAdrWr.offset = recOffsetFirst) := by
  obtain ⟨v, ho, hv⟩ := h.opened
  obtain ⟨nr, hcontent⟩ := ho.content
  have hcount := h.count
  subst hcount
  let d := recordData c.recDataSize data
  let u : Sys := { v with logFs := { v.logFs with recordBlock := { v.logFs.recordBlock with data := d } } }
  have hd : d.length = c.recDataSize := length_recordData _ _
  have hwr := recordBlockWr_returns (s := u) hcontent hd hfit
  have hholds := recordImage_holds hcontent hd hk
  obtain ⟨w, hwr, hflash, himages, hinfo, hcursor, hfirst⟩ : ∃ w, (logFsRecordBlockWr c page (recOffset c recs.length)).Returns u true w ∧
      w.flash = recordImage c v.flash page recs.length d ∧ w.images = v.flash :: v.images ∧
      w.logFs.fileInfo = v.logFs.fileInfo ∧ w.logFs.recAdrWr = v.logFs.recAdrWr ∧
      w.logFs.recPageFirst = v.logFs.recPageFirst := ⟨_, hwr, rfl, rfl, rfl, rfl, rfl⟩
  rw [← hflash] at hholds
  have hends := h.writeEnds ho hinfo hcursor hfirst
  have hcursor : w.logFs.recAdrWr = ⟨page, recOffset c recs.length⟩ := hcursor.trans (ho.cursor.trans h.cursor)
  have hgrown : ∃ new, w.flash :: w.images = w.flash :: new ++ s.flash :: s.images := by
    obtain ⟨new, hnew⟩ := ho.grown
    exact ⟨new, by rw [himages, ← hnew, List.cons_append]⟩
  obtain ⟨⟨⟩, t, hadv⟩ : (recordAdvance c page (recOffset c recs.length)).Terminates w := by
    have hmem : c.ring.Mem page := by
      have := hends.page
      rwa [hcursor] at this
    exact recordAdvance_terminates hmem hends.file hends.bound fun hty => (hends.first hty).1
  refine ⟨t, ?_, ⟨?_, ?_⟩, ?_, ?_⟩
  · unfold logFsRecordWr
    rw [getLogFs_bind]
    apply hv
    rw [h.cursor]
    simp only [setLogFs_bind]
    apply hwr.bind
    apply hadv.bind
    exact Prog.returns_pure.mpr ⟨rfl, rfl⟩
  · obtain ⟨later, hlater⟩ := recordAdvance_grown hadv
    obtain ⟨new, hnew⟩ := hgrown
    refine ⟨later ++ w.flash :: new, w.flash, nr, ?_, ?_, hholds⟩
    · rw [← hlater, hnew, List.append_assoc]
    · exact List.mem_append_right _ (List.mem_cons_self ..)
  · intro hkept
    refine ⟨nr, hholds.congr fun i => ?_⟩
    rcases hkept with hl | hlt
    · exact ((recordAdvance_keeps hl hadv).2 i).symm
    · rw [List.length_append, List.length_singleton] at hlt
      have hbefore := recordAdvance_before (s := w) (c := c) (recOffset_mono (by omega)) hcursor
      rw [← (hbefore.unique hadv).2]
  · intro hnext
    have hbefore := recordAdvance_before (s := w) (c := c) (recOffset_mono (by omega)) hcursor
    obtain ⟨-, rfl⟩ := hbefore.unique hadv
    refine ⟨rfl, List.length_append, fun _ => ⟨nr, hholds⟩, fun h0 => absurd h0 (Nat.succ_ne_zero _), ?_⟩
    obtain ⟨hpage, hfile, hbound, hfirst⟩ := hends
    rw [hcursor] at hpage hfirst
    exact ⟨hpage, hfile, hbound, hfirst⟩
  · intro hlast
    have hoffset : recOffset c recs.length = c.recOffsetLast := by
      rw [← recOffset_last, ← hlast, Nat.add_sub_cancel]
    rw [hoffset] at hadv
    exact recordAdvance_last hadv

theorem recordWr_overflow (h : ReadyAt c s page k recs) (hover : c.pageSize ≤ recOffset c k + c.recBlockSize)
    (data : List UInt8) : ∃ t, (logFsRecordWr c data).Returns s .writeFail t := by
  obtain ⟨v, ho, hv⟩ := h.opened
  let u : Sys := { v with logFs := { v.logFs with
    recordBlock := { v.logFs.recordBlock with data := recordData c.recDataSize data } } }
  have hends : WriteEnds c u := h.writeEnds ho rfl rfl rfl
  have hmem : c.ring.Mem page := by
    have := h.ends.page
    rwa [h.cursor] at this
  obtain ⟨⟨⟩, t, hadv⟩ : (recordAdvance c page (recOffset c k)).Terminates u :=
    recordAdvance_terminates hmem hends.file hends.bound fun hty => (hends.first hty).1
  refine ⟨t, ?_⟩
  unfold logFsRecordWr
  rw [getLogFs_bind]
  apply hv
  rw [h.cursor]
  simp only [setLogFs_bind]
  apply (recordBlockWr_overflow hover).bind
  apply hadv.bind
  exact Prog.returns_pure.mpr ⟨rfl, rfl⟩

/-- An erased flash and an open file whose FILE page is the first page. -/
def freshSys (c : LogFsCfg) : Sys :=
  ⟨{ LogFs.zero c with
      fileInfo := ⟨⟨c.pageStart, ⟨0, 0, 0, 0, 0, 0⟩⟩, 0⟩
      recPageFirst := logFsPageInvalid
      recAdrWr := ⟨c.ring.next c.pageStart, recOffsetFirst⟩ }, erased, []⟩

theorem boundEnd_ne_pageStart : boundEnd c c.pageStart ≠ c.pageStart := by
  have h1 := c.pageStart_lt
  have h2 := c.pageEnd_maxPages_lt
  have hmod : (c.pageStart + c.maxPages) % 0x10000 = c.pageStart + c.maxPages := Nat.mod_eq_of_lt (by omega)
  have hprev : c.ring.prev c.pageStart = c.pageEnd := if_pos rfl
  unfold boundEnd
  rw [hmod, hprev]
  split_ifs
  · omega
  · omega
  · omega

theorem freshSys_ready : ReadyAt c (freshSys c) (c.ring.next c.pageStart) 0 [] := by
  have hmem : c.ring.Mem c.pageStart := PageRing.lo_mem
  have hlt := c.pageStart_lt
  have hbound : c.ring.Mem (boundEnd c c.pageStart) := boundEnd_mem hmem fun h => absurd h.1 (Nat.ne_of_lt hlt)
  constructor
  · rw [recOffset_zero]
    rfl
  · rfl
  · exact fun h => absurd h (Nat.lt_irrefl 0)
  · intro _
    refine ⟨.inl fun i _ => rfl, Nat.zero_lt_succ _, fun _ heq => ?_⟩
    have hback : c.ring.prev (c.ring.next c.pageStart) = c.ring.prev (c.ring.next (boundEnd c c.pageStart)) :=
      congrArg c.ring.prev heq
    rw [PageRing.prev_next hmem, PageRing.prev_next hbound] at hback
    exact boundEnd_ne_pageStart hback.symm
  · refine ⟨PageRing.next_mem hmem, hmem, hbound, fun _ => ⟨fun h => absurd rfl h, fun _ => ?_⟩⟩
    obtain ⟨j, hj, hstep⟩ := PageRing.exists_step (PageRing.next_mem hmem) hbound
    refine ⟨j + 1, hj, 0, Nat.zero_lt_succ _, ?_, ?_⟩
    · rw [Nat.add_sub_cancel]
      exact hstep.symm
    · exact (PageRing.step_zero (PageRing.next_mem hmem)).symm

theorem exists_ready (hk : k < c.recordsPerPage) : ∃ s recs, ReadyAt c s (c.ring.next c.pageStart) k recs := by
  induction k with
  | zero => exact ⟨freshSys c, [], freshSys_ready⟩
  | succ k ih =>
    obtain ⟨s, recs, h⟩ := ih (Nat.lt_of_succ_lt hk)
    have hfit : recOffset c k + c.recBlockSize < c.pageSize := by
      have h1 := recOffset_records_le (c := c)
      have h2 := recOffset_strict (c := c) hk
      rw [← recOffset_succ]
      omega
    obtain ⟨t, -, -, hnext, -⟩ := recordWr_stored h (Nat.lt_of_succ_lt hk) hfit []
    exact ⟨t, _, hnext hk⟩

/-- The record offsets divide the page, and a record is stored at each of them. -/
structure TakesRecords (c : LogFsCfg) : Prop where
  first : recOffset c 0 = recOffsetFirst
  last : recOffset c (c.recordsPerPage - 1) = c.recOffsetLast
  inside : ∀ k < c.recordsPerPage, pageHeaderSize ≤ recOffset c k ∧ recOffset c k + c.recBlockSize ≤ c.pageSize
  apart : ∀ k < c.recordsPerPage, ∀ j < k, recOffset c j + c.recBlockSize ≤ recOffset c k
  takes : ∀ s page k recs data, k < c.recordsPerPage → ReadyAt c s page k recs →
    ∃ t, (logFsRecordWr c data).Returns s .none t ∧
      RecordStored c s page (recs ++ [recordData c.recDataSize data]) t ∧
      (k + 1 < c.recordsPerPage → ReadyAt c t page (k + 1) (recs ++ [recordData c.recDataSize data])) ∧
      (k + 1 = c.recordsPerPage → t.logFs.recAdrWr.offset = recOffsetFirst)

theorem takesRecords_iff : TakesRecords c ↔ c.recOffsetLast + c.recBlockSize < c.pageSize := by
  have hpos := recordsPerPage_pos (c := c)
  constructor
  · intro h
    by_contra hover
    obtain ⟨s, recs, hs⟩ := exists_ready (c := c) (k := c.recordsPerPage - 1) (Nat.sub_lt hpos Nat.one_pos)
    obtain ⟨t, ht, -⟩ := h.takes s _ _ recs [] (Nat.sub_lt hpos Nat.one_pos) hs
    obtain ⟨u, hu⟩ := recordWr_overflow hs (by rw [recOffset_last]; exact Nat.not_lt.mp hover) []
    exact absurd (ht.unique hu).1 (by decide)
  · intro h
    have hfit : ∀ k < c.recordsPerPage, recOffset c k + c.recBlockSize < c.pageSize := by
      intro k hk
      have hmono := recOffset_mono (c := c) (Nat.le_sub_one_of_lt hk)
      rw [recOffset_last] at hmono
      omega
    constructor
    · exact recOffset_zero
    · exact recOffset_last
    · exact fun k hk => ⟨pageHeaderSize_le_recOffset k, Nat.le_of_lt (hfit k hk)⟩
    · intro k _ j hj
      rw [← recOffset_succ]
      exact recOffset_mono hj
    · exact fun s page k recs data hk hs => recordWr_stored hs hk (hfit k hk) data

/-- Two records of four data bytes fill a page of 16 bytes. -/
def filledCfg : LogFsCfg :=
  { reclaimCfg with
    pageSize := 16
    recDataSize := 4
    fileBlock_le := by decide
    recBlock_le := by decide
    pageSize_lt := by decide }

/-- The second record of the page is refused. -/
theorem recordWr_refuses_last : ¬ ∀ c : LogFsCfg, TakesRecords c := by
  intro h
  obtain ⟨s, recs, hs⟩ := exists_ready (c := filledCfg) (k := 1) (by decide)
  obtain ⟨t, ht, -⟩ := (h filledCfg).takes s _ _ recs [] (by decide) hs
  obtain ⟨u, hu⟩ := recordWr_overflow hs (by decide) []
  exact absurd (ht.unique hu).1 (by decide)

end Lpc1788Libraries.DataManager

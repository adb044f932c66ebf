import Lpc1788Libraries.DataManager.LogFsFollow
import Lpc1788Libraries.DataManager.LogFsReclaim

namespace Lpc1788Libraries.DataManager

open Lpc1788Libraries.Support NorFlash BoundedProgram

variable {c : LogFsCfg} {f page : ℕ} {m : UInt8}

/-- The call looks at the file info to find the pages of the open file. -/
def readsFileInfo (c : LogFsCfg) (l : LogFs) : LogFsCall → Prop
  | .recordRdFirst _ => c.type = .circular
  | .recordRdNext _ => c.type = .circular
  | .recordRdLast _ => True
  | .recordRdPrevious _ => True
  | .recordWr _ => l.recAdrWr.offset = recOffsetFirst ∨ l.recAdrWr.offset = c.recOffsetLast
  | _ => False

def LogFsCall.isRecordOp : LogFsCall → Prop
  | .recordRdFirst _ => True
  | .recordRdLast _ => True
  | .recordRdNext _ => True
  | .recordRdPrevious _ => True
  | .recordWr _ => True
  | _ => False

theorem recordOp_follows {call : LogFsCall} (hcall : call.isRecordOp) {s s' t : Sys} {a : LogFsAnswer}
    (hs : Alike f (readsFileInfo c s.logFs call) s s') (hr : (logFsCall c call).Returns s a t) :
    ∃ t', (logFsCall c call).Returns s' a t' ∧ Alike f (readsFileInfo c s.logFs call) t t' := by
  cases call with
  | recordRdFirst nrOfBytes => exact (follows_rdFirst id).map hs hr
  | recordRdLast nrOfBytes => exact (follows_rdLast trivial).map hs hr
  | recordRdNext nrOfBytes => exact (follows_rdNext id).map hs hr
  | recordRdPrevious nrOfBytes => exact (follows_rdPrevious trivial).map hs hr
  | recordWr data =>
    generalize hown : readsFileInfo c s.logFs (.recordWr data) = own at hs
    have hstart : s.logFs.recAdrWr.offset = recOffsetFirst → own := fun h => hown ▸ .inl h
    have hlast : s.logFs.recAdrWr.offset = c.recOffsetLast → own := fun h => hown ▸ .inr h
    have hwr : s'.logFs.recAdrWr = s.logFs.recAdrWr := by
      obtain ⟨h, i, hl⟩ := hs.records
      rw [hl]
    obtain ⟨err, hw, rfl⟩ := Prog.returns_map.mp hr
    unfold logFsRecordWr at hw
    rw [getLogFs_bind] at hw
    have followed : ∀ {p : SysM LogFsErr}, p.Returns s err t → Follows f own p →
        ∃ t', p.Returns s' err t' ∧ Alike f own t t' := fun hp h => h hs hp
    obtain ⟨t', hr', ht⟩ := followed hw (by
      dsimp only
      split
      · rename_i hfirst
        apply (follows_recordPageStart (hstart hfirst)).bind
        rintro (_ | err)
        · exact follows_recordWritten hlast
        · exact follows_pure
      · rw [pure_bind]
        exact follows_recordWritten hlast)
    refine ⟨t', Prog.returns_map.mpr ⟨err, ?_, rfl⟩, ht⟩
    unfold logFsRecordWr
    rw [getLogFs_bind, hwr]
    exact hr'
  | init => exact absurd hcall id
  | create timeStamp => exact absurd hcall id
  | fileFindFirst => exact absurd hcall id
  | fileFindLast => exact absurd hcall id
  | fileFindNext => exact absurd hcall id
  | fileFindPrevious => exact absurd hcall id
  | «open» file => exact absurd hcall id
  | fileDelete file => exact absurd hcall id

section intact

/-- The page passes the checks that are made when its header or its file block is read. -/
def PageChecks (g : Pages) (page : ℕ) : Prop :=
  ErasedFrom g page 0 ∨ g page 0 = logFsMarkerBad ∨
    (page < 0x10000 ∧ ∃ nr ts, HeaderAt g page logFsMarkerFile nr ∧
      g.read page pageHeaderSize fileInfoSize = (fileInfoOf page ts).toBytes) ∨
    ∃ nr, HeaderAt g page logFsMarkerRecord nr

def Intact (g : Pages) : Prop := ∀ page, PageChecks g page

/-- With an intact flash only the page header and the file info change. -/
def Quiet (s t : Sys) : Prop := Intact s.flash → t.flash = s.flash ∧ DescriptorOnly s t

instance : Std.Refl Quiet := ⟨fun s _ => ⟨rfl, Std.Refl.refl s⟩⟩

instance : IsTrans Sys Quiet where
  trans := by
    intro s t u hst htu hs
    obtain ⟨hf, hd⟩ := hst hs
    have ht : Intact t.flash := by
      rw [hf]
      exact hs
    obtain ⟨hf', hd'⟩ := htu ht
    exact ⟨hf'.trans hf, IsTrans.trans _ _ _ hd hd'⟩

theorem PageChecks.marker_valid {g : Pages} (h : PageChecks g page) : validMarker (g page 0) := by
  rcases h with h | h | ⟨-, nr, ts, h, -⟩ | ⟨nr, h⟩
  · rw [h 0 (Nat.le_refl 0)]
    decide
  · rw [h]
    decide
  · rw [h.marker_eq]
    decide
  · rw [h.marker_eq]
    decide

theorem markerRd_intact {s t : Sys} (hs : Intact s.flash) (hr : (logFsMarkerRd page 0).Returns s m t) :
    m = s.flash page 0 ∧ t = s := by
  obtain ⟨h1, h2⟩ := hr.unique (markerRd_returns (hs page).marker_valid)
  exact ⟨h1, h2⟩

theorem markerRd_quiet : (logFsMarkerRd page 0).Within Quiet := by
  intro s m t hr hs
  obtain ⟨-, rfl⟩ := markerRd_intact hs hr
  exact ⟨rfl, Std.Refl.refl t⟩

theorem pageHeaderRd_intact {s t : Sys} (hs : Intact s.flash) (hr : (logFsPageHeaderRd page).Returns s m t) :
    m = s.flash page 0 ∧ t.flash = s.flash ∧ ∃ h, t = s.setHeader h := by
  have unread : s.flash page 0 = logFsMarkerFree ∨ s.flash page 0 = logFsMarkerBad →
      (logFsPageHeaderRd page).Returns s (s.flash page 0) s := by
    intro hm
    unfold logFsPageHeaderRd
    apply (markerRd_returns (hs page).marker_valid).bind
    rw [if_pos hm]
    exact Prog.returns_pure.mpr ⟨rfl, rfl⟩
  have same : ∀ {m' t'}, (logFsPageHeaderRd page).Returns s m' t' → m = m' ∧ t = t' := fun hr' => hr.unique hr'
  rcases hs page with h | h | ⟨-, nr, ts, h, -⟩ | ⟨nr, h⟩
  · obtain ⟨rfl, rfl⟩ := same (unread (.inl (h 0 (Nat.le_refl 0))))
    exact ⟨rfl, rfl, t.logFs.pageHeader, rfl⟩
  · obtain ⟨rfl, rfl⟩ := same (unread (.inr h))
    exact ⟨rfl, rfl, t.logFs.pageHeader, rfl⟩
  · obtain ⟨rfl, rfl⟩ := same (h.pageHeaderRd (by decide) (by decide) (by decide))
    exact ⟨h.marker_eq.symm, rfl, _, rfl⟩
  · obtain ⟨rfl, rfl⟩ := same (h.pageHeaderRd (by decide) (by decide) (by decide))
    exact ⟨h.marker_eq.symm, rfl, _, rfl⟩

theorem setHeader_descriptorOnly {s : Sys} {h : LogFsPageHeader} : DescriptorOnly s (s.setHeader h) :=
  ⟨h, s.logFs.fileInfo, rfl⟩

theorem pageHeaderRd_quiet : (logFsPageHeaderRd page).Within Quiet := by
  intro s m t hr hs
  obtain ⟨-, hf, h, rfl⟩ := pageHeaderRd_intact hs hr
  exact ⟨hf, setHeader_descriptorOnly⟩

theorem fileBlockRd_quiet : (logFsFileBlockRd page).Within Quiet := by
  intro s found t hr hs
  obtain ⟨m, t₁, h₁, hr⟩ := Prog.returns_bind.mp hr
  obtain ⟨hm, hf, h, rfl⟩ := pageHeaderRd_intact hs h₁
  split at hr
  · obtain ⟨-, rfl⟩ := Prog.returns_pure.mp hr
    exact ⟨hf, setHeader_descriptorOnly⟩
  · rename_i hfile
    rw [not_not] at hfile
    have hmarker : s.flash page 0 = logFsMarkerFile := hm.symm.trans hfile
    -- only a FILE page has the marker
    rcases hs page with hp | hp | ⟨hlt, nr, ts, -, hp⟩ | ⟨nr, hp⟩
    · exact absurd ((hp 0 (Nat.le_refl 0)).symm.trans hmarker) (by decide)
    · exact absurd (hp.symm.trans hmarker) (by decide)
    · have hof : LogFsFileInfo.ofBytes (s.flash.read page pageHeaderSize fileInfoSize) = fileInfoOf page ts := by
        rw [hp]
        exact LogFsFileInfo.ofBytes_toBytes hlt
      simp only [at45dRd_bind, Sys.setHeader_flash, hof, setLogFs_bind] at hr
      rw [if_neg (by simp [fileInfoOf, logFsCrcFileInfo, LogFsFileInfo.body]), if_neg (by simp [fileInfoOf])] at hr
      obtain ⟨-, rfl⟩ := Prog.returns_pure.mp hr
      exact ⟨rfl, _, _, rfl⟩
    · exact absurd (hp.marker_eq.symm.trans hmarker) (by decide)

theorem fileSearch_quiet {go : ℕ → SysM ℕ} {stop : ℕ} (hgo : ∀ page, (go page).Within Quiet) :
    (fileSearch go stop).Within Quiet := by
  apply within_getLogFs
  intro l
  apply Prog.within_loop
  intro page
  apply Prog.within_bind (hgo page)
  intro page
  apply Prog.within_bind fileBlockRd_quiet
  intro found
  apply Prog.within_ite
  · exact within_getLogFs fun _ => Prog.within_pure
  · exact Prog.within_ite Prog.within_pure Prog.within_pure

theorem createPage_quiet : (createPage c).Within Quiet := by
  apply within_getLogFs
  intro l
  apply Prog.within_ite
  · apply Prog.within_bind
    · apply Prog.within_loop
      rintro ⟨page, last⟩
      refine Prog.within_bind within_pageNext fun page => ?_
      apply Prog.within_bind pageHeaderRd_quiet
      intro marker
      exact Prog.within_ite Prog.within_pure Prog.within_pure
    · intro last
      refine Prog.within_bind within_pageNext fun page => ?_
      apply Prog.within_bind markerRd_quiet
      intro marker
      refine Prog.within_ite Prog.within_pure ?_
      refine Prog.within_bind within_pageNext fun next => ?_
      apply Prog.within_bind markerRd_quiet
      intro marker
      exact Prog.within_ite Prog.within_pure Prog.within_pure
  · apply Prog.within_bind
    · apply Prog.within_loop
      intro page
      apply Prog.within_bind markerRd_quiet
      intro marker
      refine Prog.within_ite Prog.within_pure ?_
      exact Prog.within_ite Prog.within_pure Prog.within_pure
    · intro page
      exact Prog.within_pure

theorem PageChecks.erased {g : Pages} (h : PageChecks g page) (hfree : g page 0 = logFsMarkerFree) :
    ErasedFrom g page 0 := by
  rcases h with h | h | ⟨-, nr, ts, h, -⟩ | ⟨nr, h⟩
  · exact h
  · exact absurd (h.symm.trans hfree) (by decide)
  · exact absurd (h.marker_eq.symm.trans hfree) (by decide)
  · exact absurd (h.marker_eq.symm.trans hfree) (by decide)

theorem eraseIfNotFree_erased {s t : Sys} {u : Unit} (hs : Intact s.flash)
    (hr : (eraseIfNotFree page).Returns s u t) : ErasedFrom t.flash page 0 := by
  obtain ⟨m, s₁, h₁, h₂⟩ := Prog.returns_bind.mp hr
  obtain ⟨rfl, rfl⟩ := markerRd_intact hs h₁
  split at h₂
  · obtain rfl := at45dErase_returns.mp h₂
    exact fun i _ => erase_same
  · rename_i hfree
    obtain ⟨-, rfl⟩ := Prog.returns_pure.mp h₂
    exact (hs page).erased (not_not.mp hfree)

theorem fileBlockWr_true {s t : Sys} {written : Bool} (hr : (logFsFileBlockWr page).Returns s written t)
    (h : ErasedFrom s.flash page 0) : written = true := (hr.unique (fileBlockWr_returns h rfl rfl)).1

theorem create_error {s t : Sys} {timeStamp : LogFsTimeStamp} {err : LogFsErr} (hs : Intact s.flash)
    (hr : (logFsCreate c timeStamp).Returns s err t) (herr : err ≠ .none) :
    t.flash = s.flash ∧ DescriptorOnly s t := by
  obtain ⟨r, s₁, h₁, hr₁⟩ := Prog.returns_bind.mp hr
  obtain ⟨hf, hd⟩ := createPage_quiet h₁ hs
  cases r with
  | none =>
    obtain ⟨-, rfl⟩ := Prog.returns_pure.mp hr₁
    exact ⟨hf, hd⟩
  | some page =>
    -- from here on nothing fails
    exfalso
    have hs₁ : Intact s₁.flash := by
      rw [hf]
      exact hs
    obtain ⟨u, s₂, h₂, hr₂⟩ := Prog.returns_bind.mp hr₁
    have herased := eraseIfNotFree_erased hs₁ h₂
    simp only [setLogFs_bind] at hr₂
    obtain ⟨written, s₃, h₃, hr₃⟩ := Prog.returns_bind.mp hr₂
    obtain rfl := fileBlockWr_true h₃ herased
    have answer : Prog.Answers (· = .none) (do
        setLogFs fun l => { l with
          filePageLast := page
          filePageFirst := if l.filePageFirst = logFsPageInvalid then page else l.filePageFirst
          filePageNrNext := (l.filePageNrNext + 1) % 0x10000 }
        let page ← logFsPageNext c page
        eraseIfNotFree page
        setLogFs (resetRecords page)
        return .none : SysM LogFsErr) := by
      apply Prog.answers_bind
      intro _
      apply Prog.answers_bind
      intro _
      apply Prog.answers_bind
      intro _
      apply Prog.answers_bind
      intro _
      exact Prog.answers_pure rfl
    exact herr (answer hr₃)

theorem open_error {s t : Sys} {file : LogFsFile} {err : LogFsErr} (hs : Intact s.flash)
    (hr : (logFsOpen c file).Returns s err t) (herr : err ≠ .none) :
    t.flash = s.flash ∧ DescriptorOnly s t := by
  obtain ⟨found, s₁, h₁, hr₁⟩ := Prog.returns_bind.mp hr
  have hquiet := fileBlockRd_quiet h₁ hs
  cases found with
  | false =>
    obtain ⟨-, rfl⟩ := Prog.returns_pure.mp hr₁
    exact hquiet
  | true =>
    -- every other way out answers that all is well
    exfalso
    apply herr
    obtain ⟨pages, s₂, -, hr₂⟩ := Prog.returns_bind.mp hr₁
    rcases pages with _ | ⟨start, stop⟩
    · exact (Prog.returns_pure.mp hr₂).1.symm
    obtain ⟨first, s₃, -, hr₃⟩ := Prog.returns_bind.mp hr₂
    split at hr₃
    · refine (?_ : Prog.Answers (fun err => err = LogFsErr.none) _) hr₃
      exact Prog.answers_bind fun _ => Prog.answers_bind fun _ => Prog.answers_pure rfl
    · have last : ∀ adr : LogFsAdr, Prog.Answers (· = LogFsErr.none) (do
          setLogFs fun l => { l with recAdrWr := adr }
          return .none : SysM LogFsErr) :=
        fun adr => Prog.answers_bind fun _ => Prog.answers_pure rfl
      refine (?_ : Prog.Answers (fun err => err = LogFsErr.none) _) hr₃
      apply Prog.answers_bind
      intro _
      apply Prog.answers_bind
      intro l
      apply Prog.answers_bind
      intro offset
      cases offset with
      | some offset => exact last _
      | none =>
        apply Prog.answers_bind
        intro page
        cases c.type with
        | linear =>
          apply Prog.answers_bind
          intro bound
          apply Prog.answers_ite
          · apply Prog.answers_bind
            intro marker
            exact Prog.answers_ite (Prog.answers_bind fun _ => last _) (last _)
          · exact last _
        | circular =>
          apply Prog.answers_bind
          intro page
          apply Prog.answers_bind
          intro _
          apply Prog.answers_bind
          intro l
          apply Prog.answers_ite
          · exact Prog.answers_bind fun _ => Prog.answers_bind fun _ => last _
          · exact last _

end intact

/-- The calls that enumerate the files, and a `log_fs_create` or `log_fs_open` that fails. -/
def Inserted : LogFsCall → LogFsAnswer → Prop
  | .fileFindFirst, _ => True
  | .fileFindLast, _ => True
  | .fileFindNext, _ => True
  | .fileFindPrevious, _ => True
  | .create _, a => a.err ≠ .none
  | .open _, a => a.err ≠ .none
  | _, _ => False

theorem inserted_quiet {call : LogFsCall} {a : LogFsAnswer} {s t : Sys} (hcall : Inserted call a)
    (hs : Intact s.flash) (hr : (logFsCall c call).Returns s a t) :
    t.flash = s.flash ∧ DescriptorOnly s t := by
  cases call with
  | fileFindFirst =>
    refine (?_ : Prog.Within Quiet _) hr hs
    apply Prog.within_map
    apply within_getLogFs
    intro l
    refine Prog.within_ite Prog.within_pure ?_
    apply Prog.within_bind fileBlockRd_quiet
    intro found
    exact Prog.within_ite Prog.within_pure (within_getLogFs fun _ => Prog.within_pure)
  | fileFindLast =>
    refine (?_ : Prog.Within Quiet _) hr hs
    apply Prog.within_map
    apply within_getLogFs
    intro l
    refine Prog.within_ite Prog.within_pure ?_
    apply Prog.within_bind fileBlockRd_quiet
    intro found
    exact Prog.within_ite Prog.within_pure (within_getLogFs fun _ => Prog.within_pure)
  | fileFindNext =>
    refine (?_ : Prog.Within Quiet _) hr hs
    apply Prog.within_map
    apply within_getLogFs
    intro l
    refine Prog.within_ite Prog.within_pure (Prog.within_ite Prog.within_pure ?_)
    exact fileSearch_quiet fun _ => within_pageNext
  | fileFindPrevious =>
    refine (?_ : Prog.Within Quiet _) hr hs
    apply Prog.within_map
    apply within_getLogFs
    intro l
    refine Prog.within_ite Prog.within_pure (Prog.within_ite Prog.within_pure ?_)
    exact fileSearch_quiet fun _ => within_pagePrevious
  | create timeStamp =>
    obtain ⟨err, hr', rfl⟩ := Prog.returns_map.mp hr
    exact create_error hs hr' hcall
  | «open» file =>
    obtain ⟨err, hr', rfl⟩ := Prog.returns_map.mp hr
    exact open_error hs hr' hcall
  | init => exact absurd hcall id
  | fileDelete file => exact absurd hcall id
  | recordRdFirst nrOfBytes => exact absurd hcall id
  | recordRdLast nrOfBytes => exact absurd hcall id
  | recordRdNext nrOfBytes => exact absurd hcall id
  | recordRdPrevious nrOfBytes => exact absurd hcall id
  | recordWr data => exact absurd hcall id

/-- Record operations on the file with the FILE page `f`, with other calls between them. A record
operation that looks at the file info finds the one of `f` there, and the other calls find an
intact flash. -/
inductive Interleaved (c : LogFsCfg) (f : ℕ) : Sys → List (LogFsCall × LogFsAnswer) → Sys → Prop
  | done (s : Sys) : Interleaved c f s [] s
  | record {s t u : Sys} {call : LogFsCall} {a : LogFsAnswer} {ops : List (LogFsCall × LogFsAnswer)}
      (hcall : call.isRecordOp)
      (hown : readsFileInfo c s.logFs call → s.logFs.fileInfo.file.startPage = f)
      (hr : (logFsCall c call).Returns s a t) (rest : Interleaved c f t ops u) :
      Interleaved c f s ((call, a) :: ops) u
  | insert {s t u : Sys} {call : LogFsCall} {a : LogFsAnswer} {ops : List (LogFsCall × LogFsAnswer)}
      (hcall : Inserted call a) (hs : Intact s.flash) (hr : (logFsCall c call).Returns s a t)
      (rest : Interleaved c f t ops u) : Interleaved c f s ops u

theorem Interleaved.alike {ops : List (LogFsCall × LogFsAnswer)} {s s' u : Sys}
    (h : Interleaved c f s ops u) (hs : Alike f False s s') :
    ∃ u', (logFsCalls c (ops.map Prod.fst)).Returns s' (ops.map Prod.snd) u' ∧ Alike f False u u' := by
  induction h generalizing s' with
  | done s => exact ⟨s', Prog.returns_pure.mpr ⟨rfl, rfl⟩, hs⟩
  | record hcall hown hr _ ih =>
    obtain ⟨t', hr', ht⟩ := recordOp_follows hcall ⟨hs.flash, hs.records, hs.file, hown⟩ hr
    obtain ⟨u', hu, hend⟩ := ih ⟨ht.flash, ht.records, ht.file, False.elim⟩
    exact ⟨u', hr'.bind (hu.bind (Prog.returns_pure.mpr ⟨rfl, rfl⟩)), hend⟩
  | insert hcall hintact hr _ ih =>
    obtain ⟨hf, h, i, hl⟩ := inserted_quiet hcall hintact hr
    obtain ⟨h', i', hl'⟩ := hs.records
    refine ih ⟨hs.flash.trans hf.symm, ⟨h', i', ?_⟩, hs.file, False.elim⟩
    rw [hl', hl]

/-- Without the calls between them the record operations give the same answers and leave the same
flash content. -/
theorem interleaved_frame {ops : List (LogFsCall × LogFsAnswer)} {s u : Sys}
    (hopen : s.logFs.fileInfo.file.startPage = f) (h : Interleaved c f s ops u) :
    ∃ u', (logFsCalls c (ops.map Prod.fst)).Returns s (ops.map Prod.snd) u' ∧ u'.flash = u.flash := by
  obtain ⟨u', hu, ha⟩ := h.alike ⟨rfl, ⟨s.logFs.pageHeader, s.logFs.fileInfo, rfl⟩, hopen, False.elim⟩
  exact ⟨u', hu, ha.flash⟩

/-- One file, on page 0, with nothing recorded. -/
def newFileSys : Sys where
  logFs := { LogFs.zero reclaimCfg with
    fileInfo := fileInfoOf 0 reclaimTime
    filePageNrNext := 1
    recPageFirst := logFsPageInvalid
    recPageLast := logFsPageInvalid
    recAdrRd := ⟨logFsPageInvalid, 0⟩
    recAdrWr := ⟨1, recOffsetFirst⟩ }
  flash := fileImage erased 0 0 reclaimTime
  images := []

theorem newFileSys_intact : Intact newFileSys.flash := by
  intro page
  by_cases h0 : page = 0
  · subst h0
    obtain ⟨h1, h2⟩ : Holds reclaimCfg (fileImage erased 0 0 reclaimTime) 0 (.file 0 reclaimTime) :=
      fileImage_holds (fun _ _ => rfl) (by decide)
    exact .inr (.inr (.inl ⟨by decide, 0, reclaimTime, h1, h2⟩))
  · left
    intro i _
    exact (program_other h0).trans (program_other h0)

/-- A file is looked up before the first record is written. -/
theorem interleaved_frame_newFile : ∃ a u',
    (logFsCalls reclaimCfg [.recordWr [7]]).Returns newFileSys [a] u' ∧ a.err = .none := by
  have hrun : ((logFsCall reclaimCfg .fileFindFirst).run 20 newFileSys).any fun r =>
      decide (r.2.logFs.fileInfo.file.startPage = 0) &&
        ((logFsCall reclaimCfg (.recordWr [7])).run 20 r.2).any fun r' => decide (r'.1.err = .none) := by
    decide +kernel
  obtain ⟨⟨a₁, t⟩, ht, hrun⟩ := (Option.any_eq_true _ _).mp hrun
  obtain ⟨hown, hrun⟩ := (Bool.and_eq_true _ _).mp hrun
  obtain ⟨⟨a, u⟩, hu, herr⟩ := (Option.any_eq_true _ _).mp hrun
  have hin : Inserted .fileFindFirst a₁ := trivial
  have hop : LogFsCall.isRecordOp (.recordWr [7]) := trivial
  obtain ⟨u', hu', -⟩ := interleaved_frame (c := reclaimCfg) (f := 0) (s := newFileSys) (u := u) rfl
    (.insert hin newFileSys_intact ⟨20, ht⟩
      (.record hop (fun _ => of_decide_eq_true hown) ⟨20, hu⟩ (.done u)))
  exact ⟨a, u', hu', of_decide_eq_true herr⟩

/-- Two files with one record each; the older one is looked up while the newer one is open. -/
def lookUpCalls : List LogFsCall :=
  [.create reclaimTime, .recordWr [1], .create reclaimTime, .recordWr [2]]

theorem fileFindFirst_changes_answers : ¬ ∀ hist s t u u' a ops as as', Reached reclaimCfg hist s →
    (logFsCall reclaimCfg .fileFindFirst).Returns s a t → (∀ call ∈ ops, LogFsCall.isRecordOp call) →
    (logFsCalls reclaimCfg ops).Returns s as u → (logFsCalls reclaimCfg ops).Returns t as' u' → as = as' := by
  have hrun : ((logFsCalls reclaimCfg (.init :: lookUpCalls)).run 20 (powerOn reclaimCfg)).any fun r =>
      ((logFsCall reclaimCfg .fileFindFirst).run 20 r.2).any fun d =>
        ((logFsCalls reclaimCfg [.recordRdLast 1, .recordRdPrevious 1]).run 20 r.2).any fun x =>
          ((logFsCalls reclaimCfg [.recordRdLast 1, .recordRdPrevious 1]).run 20 d.2).any fun y =>
            decide (x.1 = [⟨.none, none, [2]⟩, ⟨.noRecord, none, []⟩] ∧
              y.1 = [⟨.none, none, [2]⟩, ⟨.none, none, [1]⟩]) := by
    decide +kernel
  obtain ⟨⟨answers, s⟩, hs, hrun⟩ := (Option.any_eq_true _ _).mp hrun
  obtain ⟨⟨a, t⟩, ht, hrun⟩ := (Option.any_eq_true _ _).mp hrun
  obtain ⟨⟨as, u⟩, hu, hrun⟩ := (Option.any_eq_true _ _).mp hrun
  obtain ⟨⟨as', u'⟩, hu', hrun⟩ := (Option.any_eq_true _ _).mp hrun
  obtain ⟨rfl, rfl⟩ := of_decide_eq_true hrun
  obtain ⟨hist, hs⟩ := reached_calls ⟨20, hs⟩
  intro hframe
  have hops : ∀ call ∈ [LogFsCall.recordRdLast 1, .recordRdPrevious 1], call.isRecordOp := by
    intro call hcall
    simp only [List.mem_cons, List.not_mem_nil, or_false] at hcall
    rcases hcall with rfl | rfl <;> trivial
  exact absurd (hframe hist s t u u' a _ _ _ hs ⟨20, ht⟩ hops ⟨20, hu⟩ ⟨20, hu'⟩) (by decide)

end Lpc1788Libraries.DataManager

import Lpc1788Libraries.DataManager.LogFsRun
import Lpc1788Libraries.DataManager.LogFsSearch

namespace Lpc1788Libraries.DataManager

open Lpc1788Libraries.Support NorFlash BoundedProgram

variable {c : LogFsCfg} {s t : Sys} {f g : Pages} {page p q start stop offset j k n nr i : ℕ} {m : UInt8}
  {adr : LogFsAdr}

theorem getLogFs_achieves {β : Type} {k : LogFs → SysM β} {Q : β → Sys → Prop}
    (h : (k s.logFs).Achieves s Q) : (getLogFs >>= k).Achieves s Q := by
  obtain ⟨b, t, hb, hq⟩ := h
  exact ⟨b, t, getLogFs_bind.mpr hb, hq⟩

theorem setLogFs_achieves {β : Type} {l : LogFs → LogFs} {k : Unit → SysM β} {Q : β → Sys → Prop}
    (h : (k ()).Achieves { s with logFs := l s.logFs } Q) : (setLogFs l >>= k).Achieves s Q :=
  Prog.achieves_modify_bind h

section total

theorem getLogFs_total {β : Type} {k : LogFs → SysM β} (h : ∀ l, (k l).Total) : (getLogFs >>= k).Total := by
  intro s
  obtain ⟨b, t, hb⟩ := h s.logFs s
  exact ⟨b, t, getLogFs_bind.mpr hb⟩

theorem setLogFs_total {g : LogFs → LogFs} : (setLogFs g).Total := Prog.total_modify

theorem at45dWr_total {data : List UInt8} : (at45dWrPageOffset data page offset).Total := Prog.total_modify

theorem at45dErase_total : (at45dErasePage page).Total := Prog.total_modify

theorem at45dRd_total : (at45dRdPageOffset page offset n).Total :=
  fun s => ⟨s.flash.read page offset n, s, by simp [at45dRdPageOffset]⟩

theorem markerRd_total (page offset : ℕ) : (logFsMarkerRd page offset).Total := markerRd_terminates page offset

theorem markerWr_total : (logFsMarkerWr m page offset).Total := markerWr_terminates page offset

theorem pageHeaderRd_total (page : ℕ) : (logFsPageHeaderRd page).Total := pageHeaderRd_terminates page

theorem pageHeaderWr_total (page : ℕ) : (logFsPageHeaderWr page).Total := by
  apply Prog.total_bind setLogFs_total
  intro _
  apply getLogFs_total
  intro l
  apply Prog.total_bind at45dWr_total
  intro _
  apply Prog.total_bind at45dRd_total
  intro b
  apply Prog.total_ite Prog.total_pure
  exact Prog.total_bind markerWr_total fun _ => Prog.total_pure

theorem fileBlockRd_total (page : ℕ) : (logFsFileBlockRd page).Total := by
  apply Prog.total_bind (pageHeaderRd_total _)
  intro marker
  apply Prog.total_ite Prog.total_pure
  apply Prog.total_bind at45dRd_total
  intro bytes
  apply Prog.total_bind setLogFs_total
  intro _
  have invalid : (do
      let _ ← logFsMarkerWr logFsMarkerBad page 0
      return false : SysM Bool).Total := Prog.total_bind markerWr_total fun _ => Prog.total_pure
  exact Prog.total_ite invalid (Prog.total_ite invalid Prog.total_pure)

theorem fileBlockWr_total (page : ℕ) : (logFsFileBlockWr page).Total := by
  apply Prog.total_bind setLogFs_total
  intro _
  apply Prog.total_bind (pageHeaderWr_total _)
  intro ok
  apply Prog.total_ite Prog.total_pure
  apply Prog.total_bind setLogFs_total
  intro _
  apply getLogFs_total
  intro l
  apply Prog.total_bind at45dWr_total
  intro _
  apply Prog.total_bind at45dRd_total
  intro b
  apply Prog.total_ite Prog.total_pure
  exact Prog.total_bind markerWr_total fun _ => Prog.total_pure

theorem recordBlockRd_total (page offset : ℕ) : (logFsRecordBlockRd c page offset).Total := by
  apply Prog.total_bind (markerRd_total _ _)
  intro marker
  apply Prog.total_ite Prog.total_pure
  apply Prog.total_bind at45dRd_total
  intro bytes
  apply Prog.total_bind setLogFs_total
  intro _
  apply Prog.total_ite ?_ Prog.total_pure
  exact Prog.total_bind markerWr_total fun _ => Prog.total_pure

theorem recordBlockWr_total (page offset : ℕ) : (logFsRecordBlockWr c page offset).Total := by
  apply Prog.total_ite Prog.total_pure
  apply Prog.total_bind setLogFs_total
  intro _
  apply getLogFs_total
  intro l
  apply Prog.total_bind at45dWr_total
  intro _
  apply Prog.total_bind at45dRd_total
  intro b
  apply Prog.total_ite ?_ Prog.total_pure
  exact Prog.total_bind markerWr_total fun _ => Prog.total_pure

theorem eraseIfNotFree_total (page : ℕ) : (eraseIfNotFree page).Total :=
  Prog.total_bind (markerRd_total _ _) fun _ => Prog.total_ite at45dErase_total Prog.total_pure

theorem readFound_total (adr : LogFsAdr) (nrOfBytes : ℕ) : (readFound adr nrOfBytes).Total :=
  Prog.total_bind setLogFs_total fun _ => getLogFs_total fun _ => Prog.total_pure

end total

/-- A read leaves the open file, the cursors and the pages that are found as they are. -/
structure Looked (s t : Sys) : Prop where
  fileInfo : t.logFs.fileInfo = s.logFs.fileInfo
  recAdrRd : t.logFs.recAdrRd = s.logFs.recAdrRd
  recAdrWr : t.logFs.recAdrWr = s.logFs.recAdrWr
  headers : SameHeaders s t

instance : Std.Refl Looked := ⟨fun s => ⟨rfl, rfl, rfl, Std.Refl.refl s⟩⟩

instance : IsTrans Sys Looked where
  trans := by
    intro s t u h h'
    constructor
    · exact h'.fileInfo.trans h.fileInfo
    · exact h'.recAdrRd.trans h.recAdrRd
    · exact h'.recAdrWr.trans h.recAdrWr
    · exact IsTrans.trans _ _ _ h.headers h'.headers

theorem HeaderOnly.looked (h : HeaderOnly s t) (h' : SameHeaders s t) : Looked s t := by
  obtain ⟨x, hx⟩ := h
  constructor
  · rw [hx]
  · rw [hx]
  · rw [hx]
  · exact h'

theorem pageHeaderRd_looked : (logFsPageHeaderRd page).Within Looked :=
  fun _ _ _ hr => (pageHeaderRd_headerOnly hr).looked (pageHeaderRd_sameHeaders hr)

theorem recordBlockRd_looked (ho : pageHeaderSize ≤ offset) :
    (logFsRecordBlockRd c page offset).Within Looked := by
  intro s b t hr
  have hs := recordBlockRd_sameHeaders ho hr
  obtain ⟨marker, t₁, h₁, hr⟩ := Prog.returns_bind.mp hr
  obtain ⟨x, hx⟩ := markerRd_headerOnly h₁
  split at hr
  · obtain ⟨-, rfl⟩ := Prog.returns_pure.mp hr
    exact HeaderOnly.looked ⟨x, hx⟩ hs
  · simp only [at45dRd_bind, setLogFs_bind] at hr
    have hlast : HeaderOnly { t₁ with logFs := { t₁.logFs with
        recordBlock := LogFsRecBlock.ofBytes c.recDataSize (t₁.flash.read page offset c.recBlockSize) } } t := by
      split at hr
      · obtain ⟨_, t₂, h₂, hr⟩ := Prog.returns_bind.mp hr
        obtain ⟨-, rfl⟩ := Prog.returns_pure.mp hr
        exact markerWr_headerOnly h₂
      · obtain ⟨-, rfl⟩ := Prog.returns_pure.mp hr
        exact Std.Refl.refl _
    obtain ⟨y, hy⟩ := hlast
    constructor
    · rw [hy, hx]
    · rw [hy, hx]
    · rw [hy, hx]
    · exact hs

section next

/-- The page that `log_fs_record_rd_next` goes to from a page of the file with the FILE page `file`. -/
def nextPage (c : LogFsCfg) (file : ℕ) : ℕ → ℕ :=
  match c.type with
  | .linear => c.ring.next
  | .circular => c.ring.nextIn (c.ring.next file) (boundEnd c file)

theorem nextIn_mem (hs : c.ring.Mem start) (hp : c.ring.Mem p) : c.ring.Mem (c.ring.nextIn start stop p) := by
  unfold PageRing.nextIn
  split
  · exact hs
  · exact PageRing.next_mem hp

theorem nextPage_mem (hf : c.type = .circular → c.ring.Mem q) (hp : c.ring.Mem p) :
    c.ring.Mem (nextPage c q p) := by
  unfold nextPage
  cases hty : c.type with
  | linear => exact PageRing.next_mem hp
  | circular => exact nextIn_mem (PageRing.next_mem (hf hty)) hp

/-- The page at which `log_fs_record_rd_next` comes to an end, with the read and the write cursor. -/
def nextStop (c : LogFsCfg) (rd wr : LogFsAdr) : ℕ :=
  match c.type with
  | .linear => rd.page
  | .circular => wr.page

/-- The reader may have to go on into the page of the write cursor. -/
def MeetsWrite (c : LogFsCfg) (wr : LogFsAdr) : Prop := c.type = .circular ∧ wr.offset ≠ recOffsetFirst

/-- What makes `log_fs_record_rd_next` come to an end from the address `rd` on. -/
structure NextEnds (c : LogFsCfg) (s : Sys) (rd : LogFsAdr) : Prop where
  page : c.ring.Mem rd.page
  offset : pageHeaderSize ≤ rd.offset
  circular : c.type = .circular → c.ring.Mem s.filePage ∧ c.ring.Mem (boundEnd c s.filePage) ∧
    ∃ i, 0 < i ∧ (nextPage c s.filePage)^[i] rd.page = s.logFs.recAdrWr.page
  write : MeetsWrite c s.logFs.recAdrWr → Found s.flash logFsMarkerRecord s.logFs.recAdrWr.page ∧
    ∃ k < c.recordsPerPage, s.logFs.recAdrWr.offset = recOffset c k

theorem NextEnds.iterate (h : NextEnds c s adr) :
    ∃ i, 0 < i ∧ (nextPage c s.filePage)^[i] adr.page = nextStop c adr s.logFs.recAdrWr := by
  cases hty : c.type with
  | linear =>
    refine ⟨c.ring.size, PageRing.size_pos, ?_⟩
    have hnext : nextPage c s.filePage = c.ring.next := by rw [nextPage, hty]
    have hiter : ∀ i, c.ring.next^[i] adr.page = c.ring.step adr.page i := by
      intro i
      induction i with
      | zero => exact (PageRing.step_zero h.page).symm
      | succ i ih => rw [Function.iterate_succ_apply', ih, PageRing.next_step]
    rw [hnext, hiter, PageRing.step_size h.page, nextStop, hty]
  | circular =>
    obtain ⟨-, -, i, hi, hstop⟩ := h.circular hty
    exact ⟨i, hi, by rw [hstop, nextStop, hty]⟩

theorem nextRecordPage_achieves (h : NextEnds c s s.logFs.recAdrRd) (ht : Looked s t) (hp : c.ring.Mem p)
    (hi : 0 < i)
    (hstop : (nextPage c s.filePage)^[i] p = nextStop c s.logFs.recAdrRd s.logFs.recAdrWr) :
    (nextRecordPage c p).Achieves t fun r u => r = none ∨ ∃ j, 0 < j ∧ j ≤ i ∧
      r = some ((nextPage c s.filePage)^[j] p) ∧ (j = i → MeetsWrite c s.logFs.recAdrWr) ∧ Looked s u := by
  apply Prog.loop_walk (I := c.ring.Mem) (fun x hx => nextPage_mem (fun hty => (h.circular hty).1) hx) ?_ hp ht hi hstop
  intro x t hx ht
  unfold nextRecordPageRound
  cases hty : c.type with
  | linear =>
    simp only [nextStop, nextPage, MeetsWrite, hty]
    apply (pageNext_returns hx).achieves
    apply getLogFs_achieves
    rw [ht.recAdrRd]
    by_cases he : c.ring.next x = s.logFs.recAdrRd.page
    · rw [if_pos he]
      apply setLogFs_achieves
      exact Prog.achieves_pure (.inl rfl)
    · rw [if_neg he]
      obtain ⟨marker, u, hr⟩ := pageHeaderRd_total (c.ring.next x) t
      have hu : Looked s u := IsTrans.trans _ _ _ ht (pageHeaderRd_looked hr)
      apply hr.achieves
      split_ifs with hmf hmr
      · exact Prog.achieves_pure (.inl rfl)
      · exact Prog.achieves_pure (.inr ⟨hu, .inr ⟨rfl, he⟩⟩)
      · exact Prog.achieves_pure (.inr ⟨hu, .inl ⟨rfl, fun h => absurd h he⟩⟩)
  | circular =>
    obtain ⟨hfile, hend, -⟩ := h.circular hty
    have hmeet := h.write
    simp only [nextStop, nextPage, MeetsWrite, hty, true_and] at hmeet ⊢
    have hf : t.filePage = s.filePage := congrArg (fun i => i.file.startPage) ht.fileInfo
    have look : ∀ y : ℕ, Prog.Achieves (do
          if (⟨y, recOffsetFirst⟩ : LogFsAdr) = (← getLogFs).recAdrWr then
            return .inr none
          else if (← logFsPageHeaderRd y) ≠ logFsMarkerRecord then
            return .inl y
          else
            return .inr (some y) : SysM (ℕ ⊕ Option ℕ)) t fun z u => z = .inr none ∨ Looked s u ∧
        (z = .inr (some y) ∧ (y = s.logFs.recAdrWr.page → s.logFs.recAdrWr.offset ≠ recOffsetFirst) ∨
          z = .inl y ∧ y ≠ s.logFs.recAdrWr.page) := by
      intro y
      apply getLogFs_achieves
      rw [ht.recAdrWr]
      by_cases he : (⟨y, recOffsetFirst⟩ : LogFsAdr) = s.logFs.recAdrWr
      · rw [if_pos he]
        exact Prog.achieves_pure (.inl rfl)
      · rw [if_neg he]
        have hoff : y = s.logFs.recAdrWr.page → s.logFs.recAdrWr.offset ≠ recOffsetFirst := by
          rintro rfl ho
          exact he (by rw [← ho])
        obtain ⟨marker, u, hr⟩ := pageHeaderRd_total y t
        have hu : Looked s u := IsTrans.trans _ _ _ ht (pageHeaderRd_looked hr)
        apply hr.achieves
        by_cases hmr : marker = logFsMarkerRecord
        · rw [if_neg (not_not.mpr hmr)]
          exact Prog.achieves_pure (.inr ⟨hu, .inl ⟨rfl, hoff⟩⟩)
        · rw [if_pos hmr]
          refine Prog.achieves_pure (.inr ⟨hu, .inr ⟨rfl, fun h => hmr ?_⟩⟩)
          -- the page of the write cursor is a RECORD page
          subst h
          obtain ⟨nr, hr'⟩ := (ht.headers.found.mp (hmeet (hoff rfl)).1).pageHeaderRd
          exact (hr.unique hr').1
    apply (boundEnd_returns (hf ▸ hfile)).achieves
    unfold PageRing.nextIn
    rw [hf]
    by_cases he : x = boundEnd c s.filePage
    · rw [if_pos he, if_pos he]
      apply (boundStart_returns (hf ▸ hfile)).achieves
      rw [hf]
      exact look _
    · rw [if_neg he, if_neg he]
      exact (pageNext_returns hx).achieves (look _)

/-- The address lies before the write cursor in its page. -/
def BeforeWrite (c : LogFsCfg) (wr adr : LogFsAdr) : Prop :=
  adr.page = wr.page ∧ ∃ j k, j < k ∧ k < c.recordsPerPage ∧ adr.offset = recOffset c j ∧ wr.offset = recOffset c k

/-- What is left to `log_fs_record_rd_next`: whole pages up to the stop, and records of its page. -/
def NextLeft (c : LogFsCfg) (s : Sys) (d : ℕ) (adr : LogFsAdr) (t : Sys) : Prop :=
  Looked s t ∧ c.ring.Mem adr.page ∧ pageHeaderSize ≤ adr.offset ∧
    ∃ i, d = i * 0x10000 + (c.recOffsetLast + 1 - adr.offset) ∧
      (nextPage c s.filePage)^[i] adr.page = nextStop c s.logFs.recAdrRd s.logFs.recAdrWr ∧
      (0 < i ∨ BeforeWrite c s.logFs.recAdrWr adr)

theorem recOffsetLast_lt : c.recOffsetLast + c.recBlockSize < 0x10000 := by
  rw [← recOffset_last, ← recOffset_succ, Nat.sub_add_cancel recordsPerPage_pos]
  exact recOffset_lt (Nat.le_refl _)

theorem nextRecordAdr_achieves {d : ℕ} (h : NextEnds c s s.logFs.recAdrRd) (hl : NextLeft c s d adr t) :
    (nextRecordAdr c adr.page adr.offset).Achieves t fun r u => r = none ∨
      ∃ adr', r = some adr' ∧ Looked s u ∧ pageHeaderSize ≤ adr'.offset ∧
        (adr' = s.logFs.recAdrWr ∨ ∃ l < d, NextLeft c s l adr' u) := by
  obtain ⟨ht, hmem, hoff, i, rfl, hstop, hcase⟩ := hl
  have hlast := recOffsetLast_lt (c := c)
  have hpos := recBlockSize_pos (c := c)
  unfold nextRecordAdr
  by_cases hle : c.recOffsetLast ≤ adr.offset
  · rw [if_pos hle]
    have hi : 0 < i := by
      rcases hcase with hi | ⟨-, j, k, hjk, hk, ho, -⟩
      · exact hi
      · have := recOffset_strict (c := c) (show j < c.recordsPerPage - 1 by omega)
        rw [← ho, recOffset_last] at this
        omega
    apply (nextRecordPage_achieves h ht hmem hi hstop).bind
    rintro r u (rfl | ⟨j, hj, hji, rfl, hmeet, hu⟩)
    · exact Prog.achieves_pure (.inl rfl)
    · refine Prog.achieves_pure (.inr ⟨_, rfl, hu, Nat.le_refl _, ?_⟩)
      have hgo : ∀ j, c.ring.Mem ((nextPage c s.filePage)^[j] adr.page) := by
        intro j
        induction j with
        | zero => exact hmem
        | succ j ih =>
          rw [Function.iterate_succ_apply']
          exact nextPage_mem (fun hty => (h.circular hty).1) ih
      right
      have hfirst : c.recOffsetLast + 1 - recOffsetFirst < 0x10000 := by omega
      refine ⟨(i - j) * 0x10000 + (c.recOffsetLast + 1 - recOffsetFirst), ?_, hu, hgo j, Nat.le_refl _, i - j,
        rfl, ?_, ?_⟩
      · have : (i - j) * 0x10000 + 0x10000 ≤ i * 0x10000 := by omega
        omega
      · rw [← Function.iterate_add_apply, Nat.sub_add_cancel hji, hstop]
      · by_cases he : j = i
        · right
          obtain ⟨hty, hne⟩ := hmeet he
          obtain ⟨-, k, hk, hwr⟩ := h.write (hmeet he)
          have hk0 : k ≠ 0 := fun hk0 => hne (by rw [hwr, hk0, recOffset_zero])
          refine ⟨?_, 0, k, by omega, hk, recOffset_zero.symm, hwr⟩
          rw [he, hstop, nextStop, hty]
        · exact .inl (by omega)
  · rw [if_neg hle]
    have hmod : (adr.offset + c.recBlockSize) % 0x10000 = adr.offset + c.recBlockSize :=
      Nat.mod_eq_of_lt (by omega)
    rw [hmod]
    refine Prog.achieves_pure (.inr ⟨_, rfl, ht, by simp only; omega, ?_⟩)
    have hlt : i * 0x10000 + (c.recOffsetLast + 1 - (adr.offset + c.recBlockSize)) <
        i * 0x10000 + (c.recOffsetLast + 1 - adr.offset) := by omega
    rcases hcase with hi | ⟨hpage, j, k, hjk, hk, ho, hwr⟩
    · right
      exact ⟨_, hlt, ht, hmem, by simp only; omega, i, rfl, hstop, .inl hi⟩
    · by_cases he : j + 1 = k
      · left
        rw [hpage, ho, ← recOffset_succ, he, ← hwr]
      · right
        refine ⟨_, hlt, ht, hmem, by simp only; omega, i, rfl, hstop, .inr ⟨hpage, j + 1, k, by omega, hk, ?_, hwr⟩⟩
        simp only [ho, recOffset_succ]

theorem recordRdNext_terminates {nrOfBytes : ℕ} (h : NextEnds c s s.logFs.recAdrRd) :
    (logFsRecordRdNext c nrOfBytes).Terminates s := by
  obtain ⟨i, hi, hstop⟩ := h.iterate
  have hloop : (Prog.loop (recordRdNextRound c (min nrOfBytes c.recDataSize)) s.logFs.recAdrRd).Achieves s
      fun _ _ => True := by
    refine Prog.loop_achieves (I := NextLeft c s) ?_
      ⟨Std.Refl.refl s, h.page, h.offset, i, rfl, hstop, .inl hi⟩
    intro d adr t hl
    apply (nextRecordAdr_achieves h hl).bind
    rintro r u (rfl | ⟨adr', rfl, hu, ho, hcase⟩)
    · exact Prog.achieves_pure (.inl ⟨_, rfl, trivial⟩)
    · apply getLogFs_achieves
      rw [hu.recAdrWr]
      split_ifs with he
      · exact Prog.achieves_pure (.inl ⟨_, rfl, trivial⟩)
      · obtain ⟨ok, v, hr⟩ := recordBlockRd_total (c := c) adr'.page adr'.offset u
        apply hr.achieves
        split_ifs
        · obtain ⟨a, w, hr'⟩ := readFound_total adr' (min nrOfBytes c.recDataSize) v
          exact hr'.achieves (Prog.achieves_pure (.inl ⟨_, rfl, trivial⟩))
        · obtain ⟨l, hl, hu', hrest⟩ := hcase.resolve_left he
          have hv := IsTrans.trans _ _ _ hu (recordBlockRd_looked ho hr)
          exact Prog.achieves_pure (.inr ⟨adr', rfl, l, hl, hv, hrest⟩)
  exact (getLogFs_achieves hloop).terminates

end next

section previous

/-- The page that `log_fs_record_rd_previous` goes to from a page of the file with the FILE page `file`. -/
def previousPage (c : LogFsCfg) (file page : ℕ) : ℕ :=
  match c.type with
  | .linear => c.ring.prev page
  | .circular => if page = c.ring.next file then boundEnd c file else c.ring.prev page

/-- The page at which `log_fs_record_rd_previous` comes to an end. -/
def previousStop (c : LogFsCfg) (s : Sys) : ℕ :=
  match c.type with
  | .linear => s.filePage
  | .circular => s.logFs.recAdrWr.page

/-- What makes `log_fs_record_rd_previous` come to an end from the address `rd` on. -/
structure PreviousEnds (c : LogFsCfg) (s : Sys) (rd : LogFsAdr) : Prop where
  page : c.ring.Mem rd.page
  offset : rd.offset ≤ recOffsetFirst ∨ ∃ k < c.recordsPerPage, rd.offset = recOffset c k
  file : c.ring.Mem s.filePage
  circular : c.type = .circular → c.ring.Mem (boundEnd c s.filePage) ∧
    ∃ i, 0 < i ∧ (previousPage c s.filePage)^[i] rd.page = s.logFs.recAdrWr.page

theorem PreviousEnds.mem (h : PreviousEnds c s adr) (hp : c.ring.Mem p) :
    c.ring.Mem (previousPage c s.filePage p) := by
  unfold previousPage
  cases hty : c.type with
  | linear => exact PageRing.prev_mem hp
  | circular =>
    simp only
    split
    · exact (h.circular hty).1
    · exact PageRing.prev_mem hp

theorem PreviousEnds.iterate (h : PreviousEnds c s adr) :
    ∃ i, 0 < i ∧ (previousPage c s.filePage)^[i] adr.page = previousStop c s := by
  cases hty : c.type with
  | linear =>
    obtain ⟨i, hi, hstep⟩ := PageRing.exists_step h.file (PageRing.prev_mem h.page)
    have hpage : adr.page = c.ring.step s.filePage (i + 1) := by
      rw [← PageRing.next_step, hstep, PageRing.next_prev h.page]
    have hprev : previousPage c s.filePage = c.ring.prev := by
      funext p
      rw [previousPage, hty]
    have hiter : ∀ j, c.ring.prev^[j] (c.ring.step s.filePage j) = s.filePage := by
      intro j
      induction j with
      | zero => exact PageRing.step_zero h.file
      | succ j ih => rw [Function.iterate_succ_apply, PageRing.prev_step, ih]
    exact ⟨i + 1, Nat.succ_pos i, by rw [hprev, hpage, hiter, previousStop, hty]⟩
  | circular =>
    obtain ⟨-, i, hi, hstop⟩ := h.circular hty
    exact ⟨i, hi, by rw [hstop, previousStop, hty]⟩

theorem previousRecordPage_achieves (h : PreviousEnds c s adr) (ht : Looked s t) (hp : c.ring.Mem p)
    (hi : 0 < i) (hstop : (previousPage c s.filePage)^[i] p = previousStop c s) :
    (previousRecordPage c p).Achieves t fun r u => r = none ∨ ∃ j, 0 < j ∧ j ≤ i ∧
      r = some ((previousPage c s.filePage)^[j] p) ∧ (j = i → False) ∧ Looked s u := by
  apply Prog.loop_walk (I := c.ring.Mem) (fun x hx => h.mem hx) ?_ hp ht hi hstop
  intro x t hx ht
  have hf : t.filePage = s.filePage := congrArg (fun i => i.file.startPage) ht.fileInfo
  have look : ∀ y, y ≠ previousStop c s → Prog.Achieves (do
        if (← logFsPageHeaderRd y) ≠ logFsMarkerRecord then
          return .inl y
        else
          return .inr (some y) : SysM (ℕ ⊕ Option ℕ)) t fun z u => z = .inr none ∨ Looked s u ∧
      (z = .inr (some y) ∧ (y = previousStop c s → False) ∨ z = .inl y ∧ y ≠ previousStop c s) := by
    intro y hy
    obtain ⟨marker, u, hr⟩ := pageHeaderRd_total y t
    have hu : Looked s u := IsTrans.trans _ _ _ ht (pageHeaderRd_looked hr)
    apply hr.achieves
    split_ifs
    · exact Prog.achieves_pure (.inr ⟨hu, .inr ⟨rfl, hy⟩⟩)
    · exact Prog.achieves_pure (.inr ⟨hu, .inl ⟨rfl, hy⟩⟩)
  unfold previousRecordPageRound
  cases hty : c.type with
  | linear =>
    simp only [previousStop, previousPage, hty] at look ⊢
    apply (pagePrevious_returns hx).achieves
    apply getLogFs_achieves
    by_cases he : c.ring.prev x = s.filePage
    · rw [if_pos (by rw [he]; exact hf.symm)]
      exact Prog.achieves_pure (.inl rfl)
    · rw [if_neg (by change ¬ _ = t.filePage; rwa [hf])]
      exact look _ he
  | circular =>
    simp only [previousStop, previousPage, hty] at look ⊢
    have stop : ∀ y, Prog.Achieves (do
          if y = (← getLogFs).recAdrWr.page then
            return .inr none
          else if (← logFsPageHeaderRd y) ≠ logFsMarkerRecord then
            return .inl y
          else
            return .inr (some y) : SysM (ℕ ⊕ Option ℕ)) t fun z u => z = .inr none ∨ Looked s u ∧
        (z = .inr (some y) ∧ (y = s.logFs.recAdrWr.page → False) ∨
          z = .inl y ∧ y ≠ s.logFs.recAdrWr.page) := by
      intro y
      apply getLogFs_achieves
      rw [ht.recAdrWr]
      by_cases he : y = s.logFs.recAdrWr.page
      · rw [if_pos he]
        exact Prog.achieves_pure (.inl rfl)
      · rw [if_neg he]
        exact look y he
    apply (boundStart_returns (hf ▸ h.file)).achieves
    rw [hf]
    by_cases he : x = c.ring.next s.filePage
    · rw [if_pos he, if_pos he]
      apply (boundEnd_returns (hf ▸ h.file)).achieves
      rw [hf]
      exact stop _
    · rw [if_neg he, if_neg he]
      exact (pagePrevious_returns hx).achieves (stop _)

/-- What is left to `log_fs_record_rd_previous`: pages up to the stop, and records of its page. -/
def PreviousLeft (c : LogFsCfg) (s : Sys) (d : ℕ) (adr : LogFsAdr) (t : Sys) : Prop :=
  Looked s t ∧ c.ring.Mem adr.page ∧
    (adr.offset ≤ recOffsetFirst ∨ ∃ k < c.recordsPerPage, adr.offset = recOffset c k) ∧
    ∃ i, 0 < i ∧ d = i * 0x10000 + adr.offset ∧
      (previousPage c s.filePage)^[i] adr.page = previousStop c s

theorem previousRecordAdr_achieves {rd : LogFsAdr} {d : ℕ} (h : PreviousEnds c s rd)
    (hl : PreviousLeft c s d adr t) :
    (previousRecordAdr c adr.page adr.offset).Achieves t fun r u => r = none ∨
      ∃ adr', r = some adr' ∧ pageHeaderSize ≤ adr'.offset ∧ ∃ l < d, PreviousLeft c s l adr' u := by
  obtain ⟨ht, hmem, hoff, i, hi, rfl, hstop⟩ := hl
  have hlast := recOffsetLast_lt (c := c)
  have hpos := recordsPerPage_pos (c := c)
  unfold previousRecordAdr
  by_cases hle : adr.offset ≤ recOffsetFirst
  · rw [if_pos hle]
    apply (previousRecordPage_achieves h ht hmem hi hstop).bind
    rintro r u (rfl | ⟨j, hj, hji, rfl, hne, hu⟩)
    · exact Prog.achieves_pure (.inl rfl)
    · refine Prog.achieves_pure (.inr ⟨_, rfl, pageHeaderSize_le_recOffset (c := c) _, ?_⟩)
      have hgo : ∀ j, c.ring.Mem ((previousPage c s.filePage)^[j] adr.page) := by
        intro j
        induction j with
        | zero => exact hmem
        | succ j ih =>
          rw [Function.iterate_succ_apply']
          exact h.mem ih
      have hlt : j < i := Nat.lt_of_le_of_ne hji hne
      refine ⟨(i - j) * 0x10000 + c.recOffsetLast, by omega, hu, hgo j, .inr ⟨_, ?_, recOffset_last.symm⟩,
        i - j, by omega, rfl, ?_⟩
      · omega
      · rw [← Function.iterate_add_apply, Nat.sub_add_cancel hji, hstop]
  · rw [if_neg hle]
    obtain ⟨k, hk, ho⟩ := hoff.resolve_left hle
    obtain ⟨k, rfl⟩ : ∃ j, k = j + 1 := by
      refine ⟨k - 1, ?_⟩
      have : k ≠ 0 := fun hk0 => hle (by rw [ho, hk0, recOffset_zero])
      omega
    have hlt := recOffset_lt (c := c) (Nat.le_of_lt hk)
    have hsub : (adr.offset + 0x10000 - c.recBlockSize) % 0x10000 = recOffset c k := by
      rw [ho, recOffset_succ] at *
      omega
    rw [hsub]
    have hblock := recBlockSize_pos (c := c)
    rw [recOffset_succ] at ho
    refine Prog.achieves_pure (.inr ⟨_, rfl, pageHeaderSize_le_recOffset k, i * 0x10000 + recOffset c k, ?_, ht,
      hmem, .inr ⟨k, by omega, rfl⟩, i, hi, rfl, hstop⟩)
    omega

theorem recordRdPrevious_terminates {nrOfBytes : ℕ} (h : PreviousEnds c s s.logFs.recAdrRd) :
    (logFsRecordRdPrevious c nrOfBytes).Terminates s := by
  obtain ⟨i, hi, hstop⟩ := h.iterate
  have hloop : (Prog.loop (recordRdPreviousRound c (min nrOfBytes c.recDataSize)) s.logFs.recAdrRd).Achieves s
      fun _ _ => True := by
    refine Prog.loop_achieves (I := PreviousLeft c s) ?_
      ⟨Std.Refl.refl s, h.page, h.offset, i, hi, rfl, hstop⟩
    intro d adr t hl
    apply (previousRecordAdr_achieves h hl).bind
    rintro r u (rfl | ⟨adr', rfl, ho, l, hl, hu, hrest⟩)
    · exact Prog.achieves_pure (.inl ⟨_, rfl, trivial⟩)
    · obtain ⟨ok, v, hr⟩ := recordBlockRd_total (c := c) adr'.page adr'.offset u
      apply hr.achieves
      split_ifs
      · obtain ⟨a, w, hr'⟩ := readFound_total adr' (min nrOfBytes c.recDataSize) v
        exact hr'.achieves (Prog.achieves_pure (.inl ⟨_, rfl, trivial⟩))
      · have hv := IsTrans.trans _ _ _ hu (recordBlockRd_looked ho hr)
        exact Prog.achieves_pure (.inr ⟨adr', rfl, l, hl, hv, hrest⟩)
  exact (getLogFs_achieves hloop).terminates

end previous

section firstAndLast

theorem recordRdFirst_terminates {nrOfBytes : ℕ} (h : s.logFs.recPageFirst = logFsPageInvalid ∨
    c.ring.Mem s.logFs.recPageFirst ∧ NextEnds c s ⟨c.ring.prev s.logFs.recPageFirst, c.recOffsetLast⟩) :
    (logFsRecordRdFirst c nrOfBytes).Terminates s := by
  apply Prog.Achieves.terminates (Q := fun _ _ => True)
  apply getLogFs_achieves
  by_cases hinv : s.logFs.recPageFirst = logFsPageInvalid
  · rw [if_pos hinv]
    exact Prog.achieves_pure trivial
  · rw [if_neg hinv]
    obtain ⟨hmem, hends⟩ := h.resolve_left hinv
    apply (pagePrevious_returns hmem).achieves
    apply setLogFs_achieves
    apply Prog.Terminates.achieves
    exact recordRdNext_terminates ⟨hends.page, hends.offset, hends.circular, hends.write⟩

theorem recordRdLast_terminates {nrOfBytes : ℕ} (h : s.logFs.recPageLast = logFsPageInvalid ∨
    PreviousEnds c s s.logFs.recAdrWr) : (logFsRecordRdLast c nrOfBytes).Terminates s := by
  apply Prog.Achieves.terminates (Q := fun _ _ => True)
  apply getLogFs_achieves
  by_cases hinv : s.logFs.recPageLast = logFsPageInvalid
  · rw [if_pos hinv]
    exact Prog.achieves_pure trivial
  · rw [if_neg hinv]
    have hends := h.resolve_left hinv
    apply setLogFs_achieves
    apply Prog.Terminates.achieves
    exact recordRdPrevious_terminates ⟨hends.page, hends.offset, hends.file, hends.circular⟩

end firstAndLast

end Lpc1788Libraries.DataManager

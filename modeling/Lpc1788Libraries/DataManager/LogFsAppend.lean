import Lpc1788Libraries.DataManager.LogFsCreateFile
import Lpc1788Libraries.DataManager.LogFsGeometry

namespace Lpc1788Libraries.DataManager

open Lpc1788Libraries.Support NorFlash BoundedProgram

/-- The file with other pages behind its FILE page. -/
def StoredFile.holding (g : StoredFile) (used : List (List Rec)) (spare : List Bool) : StoredFile :=
  { g with used := used, spare := spare }

variable {c : LogFsCfg} {s t u : Sys} {f x y : Pages} {P Q : Pages → Prop} {b p i j k n nr : ℕ} {v w : PageView} {g h : StoredFile}
  {pre post files : List StoredFile} {used used' : List (List Rec)} {recs recs' : List Rec} {spare rest : List Bool} {e : Bool}
  {data : List UInt8} {err : LogFsErr}

section capacity

theorem capacity_le : capacity c ≤ c.recordsPerPage := by
  unfold capacity
  split
  · exact Nat.le_refl _
  · exact Nat.sub_le _ _

theorem recordsPerPage_le : c.recordsPerPage ≤ capacity c + 1 := by
  unfold capacity
  split <;> omega

theorem fits_iff (hk : k < c.recordsPerPage) : recOffset c k + c.recBlockSize < c.pageSize ↔ k < capacity c := by
  by_cases hlast : k + 1 = c.recordsPerPage
  · have hoffset : recOffset c k = c.recOffsetLast := by rw [← recOffset_last, ← hlast, Nat.add_sub_cancel]
    unfold capacity
    rw [hoffset]
    split <;> omega
  · have hle := recOffset_records_le (c := c)
    have hlt := recOffset_strict (c := c) (show k + 1 < c.recordsPerPage by omega)
    rw [recOffset_succ] at hlt
    have := recordsPerPage_le (c := c)
    omega

theorem filled_snoc : Filled c (used ++ [recs]) ↔ (∀ x ∈ used, x.length = capacity c) ∧ recs.length ≤ capacity c := by
  constructor
  · intro h
    have hfull := h.full
    rw [List.dropLast_concat] at hfull
    exact ⟨hfull, h.le recs (by simp)⟩
  · rintro ⟨hused, hrecs⟩
    refine ⟨fun x hx => ?_, fun x hx => ?_⟩
    · rw [List.dropLast_concat] at hx
      exact hused x hx
    · rcases List.mem_append.mp hx with hx | hx
      · exact Nat.le_of_eq (hused x hx)
      · rw [List.mem_singleton.mp hx]
        exact hrecs

end capacity

section edit

theorem layout_holding : layout (pre ++ g.holding (used ++ used') spare :: post) =
    layout (pre ++ [g.holding used []]) ++ (recordPages used.length used' ++ (spare.map spareView ++ layout post)) := by
  rw [layout_append, layout_append, layout_cons, layout_single, StoredFile.pages, StoredFile.pages, StoredFile.body,
    StoredFile.body]
  simp [StoredFile.holding, StoredFile.head, recordPages_append]

theorem pageAfter_holding : pageAfter c b (pre ++ [g.holding used []]) = c.ring.step (pageAfter c b pre) (used.length + 1) := by
  rw [pageAfter_snoc, length_pages]
  rfl

namespace Volume

theorem edit_erase (hv : Volume c f b (layout (pre ++ g.holding used (e :: rest) :: post)))
    (hf : OnlyPage (c.ring.step (pageAfter c b pre) (used.length + 1)) f x)
    (hx : Holds c x (c.ring.step (pageAfter c b pre) (used.length + 1)) .free) :
    Volume c x b (layout (pre ++ g.holding used (true :: rest) :: post)) := by
  rw [← List.append_nil used, layout_holding] at hv ⊢
  rw [← pageAfter_holding (g := g)] at hf hx
  exact hv.set hf hx

theorem edit_start (hv : Volume c f b (layout (pre ++ g.holding used (e :: rest) :: post)))
    (hf : OnlyPage (c.ring.step (pageAfter c b pre) (used.length + 1)) f x)
    (hx : Holds c x (c.ring.step (pageAfter c b pre) (used.length + 1)) (.record used.length recs)) :
    Volume c x b (layout (pre ++ g.holding (used ++ [recs]) rest :: post)) := by
  rw [← List.append_nil used, layout_holding] at hv
  rw [layout_holding]
  rw [← pageAfter_holding (g := g)] at hf hx
  exact hv.set hf hx

theorem edit_record (hv : Volume c f b (layout (pre ++ g.holding (used ++ [recs]) spare :: post)))
    (hf : OnlyPage (c.ring.step (pageAfter c b pre) (used.length + 1)) f x)
    (hx : Holds c x (c.ring.step (pageAfter c b pre) (used.length + 1)) (.record used.length recs')) :
    Volume c x b (layout (pre ++ g.holding (used ++ [recs']) spare :: post)) := by
  rw [layout_holding] at hv ⊢
  rw [← pageAfter_holding (g := g)] at hf hx
  exact hv.set hf hx

theorem record_page (hv : Volume c f b (layout (pre ++ g.holding (used ++ [recs]) spare :: post))) :
    Holds c f (c.ring.step (pageAfter c b pre) (used.length + 1)) (.record used.length recs) := by
  rw [layout_holding] at hv
  rw [← pageAfter_holding (g := g)]
  exact hv.get (by simp [recordPages])

theorem spare_page (hv : Volume c f b (layout (pre ++ g.holding used (e :: rest) :: post))) :
    Holds c f (c.ring.step (pageAfter c b pre) (used.length + 1)) (spareView e) := by
  rw [← List.append_nil used, layout_holding] at hv
  rw [← pageAfter_holding (g := g)]
  exact hv.get (by simp [recordPages])

theorem file_page (hv : Volume c f b (layout (pre ++ g.holding used [] :: post))) :
    ∃ v, v.marker = logFsMarkerFile ∧ Holds c f (c.ring.step (pageAfter c b pre) (used.length + 1)) v := by
  have hat := hv.at_file
  have hagain := Volume.ahead_again (v := g.head) (l := (g.holding used []).body ++ layout (post ++ pre)) hat
  have hlen : (g.holding used []).pages.length = used.length + 1 := length_pages
  obtain ⟨v, l, hl, hv⟩ : ∃ v l, layout (post ++ pre) ++ [g.head] = v :: l ∧ v.marker = logFsMarkerFile := by
    cases post ++ pre with
    | nil => exact ⟨g.head, [], rfl, rfl⟩
    | cons h files => exact ⟨h.head, h.body ++ layout files ++ [g.head], by simp [StoredFile.pages], rfl⟩
  have hsplit : g.head :: ((g.holding used []).body ++ layout (post ++ pre)) ++ [g.head] = (g.holding used []).pages ++ v :: l := by
    rw [← hl]
    simp [StoredFile.pages, StoredFile.head, StoredFile.holding]
  rw [hsplit, ahead_append pageAfter_mem, hlen] at hagain
  exact ⟨v, hv, hagain.2.1⟩

end Volume

theorem Image.edit (h : Image c f b (pre ++ g :: post)) (hv : Volume c x b (layout (pre ++ g.holding used spare :: post)))
    (hused : Filled c used) : Image c x b (pre ++ g.holding used spare :: post) := by
  obtain ⟨nr, hnr, hnum⟩ := h.numbered
  refine ⟨hv, ⟨nr, hnr, ?_⟩, ?_⟩
  · rw [nrFrom_append hnr] at hnum ⊢
    exact ⟨hnum.1, hnum.2⟩
  · intro g' hg'
    rcases List.mem_append.mp hg' with hg' | hg'
    · exact h.filled g' (List.mem_append_left _ hg')
    · rcases List.mem_cons.mp hg' with rfl | hg'
      · exact hused
      · exact h.filled g' (List.mem_append_right _ (List.mem_cons_of_mem _ hg'))

end edit

section advance

theorem isBoundPage_same : (isBoundPage c p).Within Eq := by
  apply Prog.within_bind
  · apply within_getLogFs
    intro l
    exact Prog.within_ite Prog.within_pure within_pagePrevious
  · exact fun _ => Prog.within_bind within_pageNext fun _ => Prog.within_pure

/-- The page is the one behind the last page that the file may use. -/
def AtBound (c : LogFsCfg) (s : Sys) (page : ℕ) : Prop := (isBoundPage c page).Returns s true s

/-- The page is another one. -/
def NotAtBound (c : LogFsCfg) (s : Sys) (page : ℕ) : Prop := (isBoundPage c page).Returns s false s

theorem isBoundPage_cases {b : Bool} (hr : (isBoundPage c p).Returns s b t) :
    t = s ∧ (b = true ∧ AtBound c s p ∨ b = false ∧ NotAtBound c s p) := by
  obtain rfl := isBoundPage_same hr
  cases b with
  | true => exact ⟨rfl, .inl ⟨rfl, hr⟩⟩
  | false => exact ⟨rfl, .inr ⟨rfl, hr⟩⟩

/-- The state with another write cursor. -/
def Sys.setRecAdrWr (s : Sys) (adr : LogFsAdr) : Sys := { s with logFs := { s.logFs with recAdrWr := adr } }

/-- Behind the last record of a page the write cursor goes on to the next page. That page is erased, unless
it is a FILE page or lies behind the bound. -/
theorem recordAdvance_next (hl : c.type = .linear) (hv : Volume c s.flash b (layout (pre ++ g.holding used spare :: post)))
    (hp : p = c.ring.step (pageAfter c b pre) used.length)
    (hr : (recordAdvance c p c.recOffsetLast).Returns s () t) :
    ((spare = [] ∨ AtBound c s (c.ring.next p)) ∧ t = s.setRecAdrWr ⟨c.ring.next p, recOffsetFirst⟩) ∨
      ∃ e rest, spare = e :: rest ∧ NotAtBound c s (c.ring.next p) ∧
        t = (s.putFlash (s.flash.erase (c.ring.next p))).setRecAdrWr ⟨c.ring.next p, recOffsetFirst⟩ := by
  have hnext : c.ring.next p = c.ring.step (pageAfter c b pre) (used.length + 1) := by rw [hp, PageRing.next_step]
  unfold recordAdvance at hr
  rw [if_pos rfl, (pageNext_returns (hp ▸ PageRing.step_mem)).bind_iff] at hr
  simp only [hl] at hr
  obtain ⟨reached, s₁, h₁, hr⟩ := Prog.returns_bind.mp hr
  obtain ⟨rfl, ⟨rfl, hbound⟩ | ⟨rfl, hbound⟩⟩ := isBoundPage_cases h₁
  · left
    simp only [Bool.not_true, Bool.false_eq_true, if_false, pure_bind] at hr
    exact ⟨.inr hbound, (setLogFs_returns.mp hr).symm⟩
  · simp only [Bool.not_false, if_true] at hr
    cases spare with
    | nil =>
      left
      obtain ⟨v, hv, hfile⟩ := hv.file_page
      rw [← hnext] at hfile
      rw [hfile.markerRd.bind_iff, if_neg (not_not.mpr hv), pure_bind] at hr
      exact ⟨.inl rfl, (setLogFs_returns.mp hr).symm⟩
    | cons e rest =>
      right
      have hspare := hv.spare_page
      rw [← hnext] at hspare
      rw [hspare.markerRd.bind_iff, if_pos (spareView_not_file e), at45dErase_bind, pure_bind] at hr
      exact ⟨e, rest, rfl, hbound, (setLogFs_returns.mp hr).symm⟩

end advance

section writeRecord

/-- What `log_fs_record_wr` does in a page that has been started. -/
def writeRecord (c : LogFsCfg) (page offset : ℕ) (data : List UInt8) : SysM LogFsErr := do
  setLogFs fun l => { l with recordBlock := { l.recordBlock with data := recordData c.recDataSize data } }
  let success ← logFsRecordBlockWr c page offset
  recordAdvance c page offset
  return if success then .none else .writeFail

theorem recordWr_eq (data : List UInt8) : logFsRecordWr c data = (getLogFs >>= fun l =>
    have rest : Option LogFsErr → SysM LogFsErr := fun started => match started with
      | some err => return err
      | none => writeRecord c l.recAdrWr.page l.recAdrWr.offset data
    if l.recAdrWr.offset = recOffsetFirst then recordPageStart c l.recAdrWr.page >>= rest else pure none >>= rest) := rfl

/-- Only the part of the descriptor about the records of the open file has changed. -/
def RecordOnly (s t : Sys) : Prop := ∃ x y first last nr adr, t.logFs = { s.logFs with
  pageHeader := x, recordBlock := y, recPageFirst := first, recPageLast := last, recPageNrNext := nr, recAdrWr := adr }

theorem RecordOnly.trans (h : RecordOnly s t) (h' : RecordOnly t u) : RecordOnly s u := by
  obtain ⟨x, y, a, b, n, d, h⟩ := h
  obtain ⟨x', y', a', b', n', d', h'⟩ := h'
  exact ⟨x', y', a', b', n', d', by rw [h', h]⟩

/-- The place of the write cursor behind the records of the last page. -/
structure Behind (c : LogFsCfg) (s : Sys) (b : ℕ) (pre : List StoredFile) (g : StoredFile) (post : List StoredFile)
    (used : List (List Rec)) (recs : List Rec) (spare : List Bool) : Prop where
  volume : Volume c s.flash b (layout (pre ++ g.holding (used ++ [recs]) spare :: post))
  cursor : s.logFs.recAdrWr = ⟨c.ring.step (pageAfter c b pre) (used.length + 1), recOffset c recs.length⟩
  first : s.logFs.recPageFirst = c.ring.next (pageAfter c b pre)
  last : s.logFs.recPageLast = c.ring.step (pageAfter c b pre) (used.length + 1)
  nr : s.logFs.recPageNrNext = used.length + 1

theorem Behind.moved (h : Behind c s b pre g post used recs spare) {l : LogFs} (hfirst : l.recPageFirst = s.logFs.recPageFirst)
    (hlast : l.recPageLast = s.logFs.recPageLast) (hnr : l.recPageNrNext = s.logFs.recPageNrNext)
    (hcursor : l.recAdrWr = ⟨c.ring.step (pageAfter c b pre) (used.length + 1 + 1), recOffset c 0⟩ ∧ recs'.length = capacity c ∨
      l.recAdrWr = ⟨c.ring.step (pageAfter c b pre) (used.length + 1), recOffset c recs'.length⟩ ∧ 0 < recs'.length ∧
        recs'.length < c.recordsPerPage) : Writing c l (pageAfter c b pre) (used ++ [recs']) := by
  have hlen : (used ++ [recs']).length = used.length + 1 := List.length_append
  have hnil : used ++ [recs'] ≠ [] := by simp
  constructor
  · rw [if_neg hnil, hfirst, h.first]
  · rw [if_neg hnil, hlen, hlast, h.last]
  · rw [hlen, hnr, h.nr]
  · rw [hlen]
    rcases hcursor with ⟨hadr, hfull⟩ | ⟨hadr, hpos, hlt⟩
    · left
      refine ⟨hadr, fun x hx => ?_⟩
      rw [List.getLast?_concat, Option.mem_some_iff] at hx
      rw [← hx, hfull]
    · exact .inr ⟨recs', List.getLast?_concat, hadr, hpos, hlt⟩

/-- What the write of a record leaves behind, with the records of the last page and the spare pages before
and after it. -/
structure Stored (c : LogFsCfg) (s t : Sys) (b : ℕ) (pre : List StoredFile) (g : StoredFile) (post : List StoredFile)
    (used : List (List Rec)) (recs recs' : List Rec) (spare' : List Bool) : Prop where
  volume : Volume c t.flash b (layout (pre ++ g.holding (used ++ [recs']) spare' :: post))
  writing : Writing c t.logFs (pageAfter c b pre) (used ++ [recs'])
  only : RecordOnly s t
  passed : Passed (fun x => ∃ r spare, (r = recs ∨ r = recs') ∧
    Volume c x b (layout (pre ++ g.holding (used ++ [r]) spare :: post))) s t

theorem recordBlock_cases (hb : Behind c s b pre g post used recs spare) (hk : recs.length < c.recordsPerPage)
    (hd : s.logFs.recordBlock.data.length = c.recDataSize) :
    ∃ ok recs' t y, (logFsRecordBlockWr c (c.ring.step (pageAfter c b pre) (used.length + 1)) (recOffset c recs.length)).Returns s ok t ∧
      (recs.length < capacity c ∧ ok = true ∧ recs' = recs ++ [s.logFs.recordBlock.data] ∨
        capacity c ≤ recs.length ∧ ok = false ∧ recs' = recs) ∧
      t.logFs = { s.logFs with recordBlock := y } ∧
      Volume c t.flash b (layout (pre ++ g.holding (used ++ [recs']) spare :: post)) ∧
      Passed (fun x => Volume c x b (layout (pre ++ g.holding (used ++ [recs']) spare :: post))) s t := by
  have hpage := hb.volume.record_page
  by_cases hfit : recs.length < capacity c
  · have hv := hb.volume.edit_record onlyPage_program (recordImage_holds hpage hd hk)
    refine ⟨true, _, _, _, recordBlockWr_returns hpage hd ((fits_iff hk).mpr hfit), .inl ⟨hfit, rfl, rfl⟩, rfl, hv, ?_⟩
    exact .put rfl rfl hv
  · have hover : c.pageSize ≤ recOffset c recs.length + c.recBlockSize := by
      have := (fits_iff hk).not.mpr hfit
      omega
    refine ⟨false, recs, s, s.logFs.recordBlock, recordBlockWr_overflow hover, .inr ⟨by omega, rfl, rfl⟩, rfl, hb.volume, ?_⟩
    exact .of_same rfl rfl

theorem writeRecord_cases (hl : c.type = .linear) (hb : Behind c s b pre g post used recs spare)
    (hk : recs.length < c.recordsPerPage)
    (hr : (writeRecord c (c.ring.step (pageAfter c b pre) (used.length + 1)) (recOffset c recs.length) data).Returns s err t) :
    ∃ recs' spare', (recs.length < capacity c ∧ err = .none ∧ recs' = recs ++ [recordData c.recDataSize data] ∨
        capacity c ≤ recs.length ∧ err = .writeFail ∧ recs' = recs) ∧
      Stored c s t b pre g post used recs recs' spare' := by
  let d := recordData c.recDataSize data
  let s₁ : Sys := { s with logFs := { s.logFs with recordBlock := { s.logFs.recordBlock with data := d } } }
  have hb₁ : Behind c s₁ b pre g post used recs spare := ⟨hb.volume, hb.cursor, hb.first, hb.last, hb.nr⟩
  obtain ⟨ok, recs', s₂, y, h₂, hcase, hlog, hv, hpassed⟩ := recordBlock_cases hb₁ hk (length_recordData _ _)
  unfold writeRecord at hr
  rw [setLogFs_bind, h₂.bind_iff] at hr
  obtain ⟨⟨⟩, t₁, hadv, hr⟩ := Prog.returns_bind.mp hr
  obtain ⟨herr, rfl⟩ := Prog.returns_pure.mp hr
  have hadr : s₂.logFs.recAdrWr = ⟨c.ring.step (pageAfter c b pre) (used.length + 1), recOffset c recs.length⟩ := by
    rw [hlog]
    exact hb.cursor
  have hpassed₂ : Passed (fun x => ∃ r spare, (r = recs ∨ r = recs') ∧
      Volume c x b (layout (pre ++ g.holding (used ++ [r]) spare :: post))) s s₂ :=
    (Passed.of_same rfl rfl).trans (hpassed.imp fun x hx => ⟨recs', spare, .inr rfl, hx⟩)
  have herr' : recs.length < capacity c ∧ err = .none ∧ recs' = recs ++ [d] ∨
      capacity c ≤ recs.length ∧ err = .writeFail ∧ recs' = recs := by
    rcases hcase with ⟨h, rfl, hrecs⟩ | ⟨h, rfl, hrecs⟩
    · exact .inl ⟨h, herr.symm, hrecs⟩
    · exact .inr ⟨h, herr.symm, hrecs⟩
  have hlen : (used ++ [recs']).length = used.length + 1 := List.length_append
  have hfirst₂ : s₂.logFs.recPageFirst = s.logFs.recPageFirst := by rw [hlog]
  have hlast₂ : s₂.logFs.recPageLast = s.logFs.recPageLast := by rw [hlog]
  have hnr₂ : s₂.logFs.recPageNrNext = s.logFs.recPageNrNext := by rw [hlog]
  have honly : ∀ adr, RecordOnly s (s₂.setRecAdrWr adr) := by
    intro adr
    refine ⟨s.logFs.pageHeader, y, s.logFs.recPageFirst, s.logFs.recPageLast, s.logFs.recPageNrNext, adr, ?_⟩
    rw [Sys.setRecAdrWr, hlog]
  by_cases hlast : recs.length + 1 = c.recordsPerPage
  · -- the page is full
    have hoffset : recOffset c recs.length = c.recOffsetLast := by rw [← recOffset_last, ← hlast, Nat.add_sub_cancel]
    rw [hoffset] at hadv
    have hfull : recs'.length = capacity c := by
      have h1 := capacity_le (c := c)
      have h2 := recordsPerPage_le (c := c)
      rcases hcase with ⟨h, -, rfl⟩ | ⟨h, -, rfl⟩
      · rw [List.length_append, List.length_singleton]
        omega
      · omega
    have hwriting : Writing c (s₂.setRecAdrWr ⟨c.ring.next (c.ring.step (pageAfter c b pre) (used.length + 1)), recOffsetFirst⟩).logFs
        (pageAfter c b pre) (used ++ [recs']) := by
      apply hb.moved
      · exact hfirst₂
      · exact hlast₂
      · exact hnr₂
      · left
        rw [recOffset_zero, ← PageRing.next_step (p := pageAfter c b pre) (k := used.length + 1)]
        exact ⟨rfl, hfull⟩
    rcases recordAdvance_next hl hv (by rw [hlen]) hadv with ⟨-, rfl⟩ | ⟨e, rest, rfl, -, rfl⟩
    · exact ⟨recs', spare, herr', hv, hwriting, honly _, hpassed₂.trans (.of_same rfl rfl)⟩
    · have hpage : c.ring.next (c.ring.step (pageAfter c b pre) (used.length + 1)) =
          c.ring.step (pageAfter c b pre) ((used ++ [recs']).length + 1) := by rw [hlen, PageRing.next_step]
      have hvt : Volume c (s₂.flash.erase (c.ring.next (c.ring.step (pageAfter c b pre) (used.length + 1)))) b
          (layout (pre ++ g.holding (used ++ [recs']) (true :: rest) :: post)) := by
        rw [hpage]
        exact hv.edit_erase onlyPage_erase holds_erase
      refine ⟨recs', true :: rest, herr', hvt, hwriting, honly _, hpassed₂.trans ?_⟩
      exact .put rfl rfl ⟨recs', true :: rest, .inr rfl, hvt⟩
  · have hfit : recs.length < capacity c := by
      have := recordsPerPage_le (c := c)
      omega
    obtain ⟨h, -, rfl⟩ | ⟨h, -, -⟩ := hcase
    · have hbefore := recordAdvance_before (s := s₂) (c := c) (recOffset_mono (by omega : recs.length + 1 ≤ c.recordsPerPage - 1)) hadr
      obtain ⟨-, rfl⟩ := hbefore.unique hadv
      have hcount : (recs ++ [d]).length = recs.length + 1 := List.length_append
      refine ⟨recs ++ [d], spare, herr', hv, ?_, honly _, hpassed₂.trans (.of_same rfl rfl)⟩
      apply hb.moved
      · exact hfirst₂
      · exact hlast₂
      · exact hnr₂
      · rw [hcount]
        exact .inr ⟨rfl, Nat.succ_pos _, by omega⟩
    · omega

end writeRecord

section start

/-- A RECORD page has been started behind the others. -/
structure Begun (c : LogFsCfg) (s t : Sys) (b : ℕ) (pre : List StoredFile) (g : StoredFile) (post : List StoredFile)
    (used : List (List Rec)) (rest : List Bool) : Prop where
  volume : Volume c t.flash b (layout (pre ++ g.holding (used ++ [[]]) rest :: post))
  only : RecordOnly s t
  nr : t.logFs.recPageNrNext = used.length + 1
  last : t.logFs.recPageLast = c.ring.step (pageAfter c b pre) (used.length + 1)
  first : t.logFs.recPageFirst = if s.logFs.recPageFirst = logFsPageInvalid then
    c.ring.step (pageAfter c b pre) (used.length + 1) else s.logFs.recPageFirst
  cursor : t.logFs.recAdrWr = s.logFs.recAdrWr
  passed : Passed (fun x => Volume c x b (layout (pre ++ g.holding used (true :: rest) :: post)) ∨
    Volume c x b (layout (pre ++ g.holding (used ++ [[]]) rest :: post))) s t

theorem Volume.used_lt (hv : Volume c f b (layout (pre ++ g.holding used spare :: post))) : used.length < 0x8000 := by
  have hlen := hv.length
  rw [layout_append, layout_cons, List.length_append, List.length_append, length_pages] at hlen
  have h1 := c.pageEnd_lt
  have h2 : c.ring.size = c.pageEnd + 1 - c.pageStart := rfl
  have h3 : (g.holding used spare).used.length = used.length := rfl
  omega

theorem recordPageStart_cases (hl : c.type = .linear) (hv : Volume c s.flash b (layout (pre ++ g.holding used spare :: post)))
    (hnr : s.logFs.recPageNrNext = used.length) (hp : p = c.ring.step (pageAfter c b pre) (used.length + 1)) {r : Option LogFsErr}
    (hr : (recordPageStart c p).Returns s r t) :
    (r = some .full ∧ t = s ∧ (spare = [] ∨ AtBound c s p)) ∨
      ∃ e rest, r = none ∧ spare = e :: rest ∧ NotAtBound c s p ∧ Begun c s t b pre g post used rest := by
  have hlt : used.length < 0x10000 := by
    have := hv.used_lt
    omega
  unfold recordPageStart at hr
  cases spare with
  | nil =>
    obtain ⟨v, hvm, hfile⟩ := hv.file_page
    rw [← hp] at hfile
    rw [hfile.markerRd.bind_iff] at hr
    simp only [hl] at hr
    rw [if_pos hvm, pure_bind, if_pos rfl] at hr
    obtain ⟨rfl, rfl⟩ := Prog.returns_pure.mp hr
    exact .inl ⟨rfl, rfl, .inl rfl⟩
  | cons e rest =>
    have hpage := hv.spare_page
    rw [← hp] at hpage
    rw [hpage.markerRd.bind_iff] at hr
    simp only [hl] at hr
    rw [if_neg (spareView_not_file e)] at hr
    obtain ⟨reached, s₁, h₁, hr⟩ := Prog.returns_bind.mp hr
    obtain ⟨rfl, ⟨rfl, hbound⟩ | ⟨rfl, hbound⟩⟩ := isBoundPage_cases h₁
    · rw [if_pos rfl] at hr
      obtain ⟨rfl, rfl⟩ := Prog.returns_pure.mp hr
      exact .inl ⟨rfl, rfl, .inr hbound⟩
    · right
      rw [if_neg (by decide)] at hr
      -- a BAD page is erased first
      obtain ⟨u, hlog, hvu, hpassed, hrest⟩ : ∃ u : Sys, u.logFs = s₁.logFs ∧
          Volume c u.flash b (layout (pre ++ g.holding used (true :: rest) :: post)) ∧
          Passed (fun x => Volume c x b (layout (pre ++ g.holding used (true :: rest) :: post))) s₁ u ∧
          ∀ k : SysM (Option LogFsErr), (if (spareView e).marker = logFsMarkerBad then at45dErasePage p >>= fun _ => k else k).Returns s₁ r t →
            k.Returns u r t := by
        cases e with
        | true => exact ⟨s₁, rfl, hv, .of_same rfl rfl, fun k hk => by rwa [if_neg (by decide)] at hk⟩
        | false =>
          have hve := hv.edit_erase (x := s₁.flash.erase p) (hp ▸ onlyPage_erase) (hp ▸ holds_erase)
          refine ⟨s₁.putFlash (s₁.flash.erase p), rfl, hve, .put rfl rfl hve, fun k hk => ?_⟩
          rw [if_pos (by decide), at45dErase_bind] at hk
          exact hk
      have hr := hrest _ hr
      let named : Sys := { u with logFs := { u.logFs with
        pageHeader := { u.logFs.pageHeader with marker := logFsMarkerRecord, nr := u.logFs.recPageNrNext } } }
      have hfree := hvu.spare_page
      rw [← hp] at hfree
      have hwr := pageHeaderWr_returns (s := named) hfree
      rw [setLogFs_bind, hwr.bind_iff, if_neg (by decide), setLogFs_bind] at hr
      obtain ⟨rfl, rfl⟩ := Prog.returns_pure.mp hr
      have hnr' : u.logFs.recPageNrNext = used.length := by rw [hlog, hnr]
      have hvt : Volume c (u.flash.program p 0 (sealedHeader logFsMarkerRecord u.logFs.recPageNrNext).toBytes) b
          (layout (pre ++ g.holding (used ++ [[]]) rest :: post)) := by
        rw [hnr', hp]
        rw [hp] at hfree
        exact hvu.edit_start onlyPage_program (markerBad_holds_started hfree hlt)
      refine ⟨e, rest, rfl, rfl, hbound, hvt, ?_, ?_, ?_, ?_, ?_, ?_⟩
      · refine ⟨sealedHeader logFsMarkerRecord u.logFs.recPageNrNext, s₁.logFs.recordBlock,
          if s₁.logFs.recPageFirst = logFsPageInvalid then p else s₁.logFs.recPageFirst, p,
          (s₁.logFs.recPageNrNext + 1) % 0x10000, s₁.logFs.recAdrWr, ?_⟩
        simp only [named, Sys.putFlash, Sys.setHeader, hlog]
      · change (u.logFs.recPageNrNext + 1) % 0x10000 = used.length + 1
        rw [hnr']
        have := hv.used_lt
        omega
      · exact hp
      · rw [← hp, ← hlog]
        rfl
      · rw [← hlog]
        rfl
      · apply (hpassed.imp fun x hx => .inl hx).trans
        exact .put rfl rfl (.inr hvt)

end start

section recordWr

/-- What `log_fs_record_wr` has done when the file was not full. -/
structure Appended (c : LogFsCfg) (s t : Sys) (b : ℕ) (pre : List StoredFile) (g : StoredFile) (post : List StoredFile)
    (data : List UInt8) (err : LogFsErr) (used : List (List Rec)) (spare : List Bool) : Prop where
  image : Image c t.flash b (pre ++ g.holding used spare :: post)
  writing : Writing c t.logFs (pageAfter c b pre) used
  only : RecordOnly s t
  records : err = .none ∧ used.flatten = g.used.flatten ++ [recordData c.recDataSize data] ∨
    err = .writeFail ∧ capacity c < c.recordsPerPage ∧ used.flatten = g.used.flatten
  pages : used.length = g.used.length ∨ used.length = g.used.length + 1 ∧
    NotAtBound c s (c.ring.step (pageAfter c b pre) (g.used.length + 1))
  passed : Passed (fun x => ∃ u sp, Image c x b (pre ++ g.holding u sp :: post) ∧
    (u.flatten = g.used.flatten ∨ u.flatten = used.flatten)) s t

/-- The file is full: its next page is a FILE page or lies behind the bound. -/
structure Full (c : LogFsCfg) (s : Sys) (b : ℕ) (pre : List StoredFile) (g : StoredFile) : Prop where
  cursor : s.logFs.recAdrWr = ⟨c.ring.step (pageAfter c b pre) (g.used.length + 1), recOffset c 0⟩
  reached : g.spare = [] ∨ AtBound c s (c.ring.step (pageAfter c b pre) (g.used.length + 1))

theorem Stored.appended (hs : Stored c s t b pre g post used recs recs' spare) {v : Sys}
    (h : Image c f b (pre ++ g :: post)) (hused : ∀ x ∈ used, x.length = capacity c) (hle : recs.length ≤ capacity c)
    (hcase : recs.length < capacity c ∧ err = .none ∧ recs' = recs ++ [recordData c.recDataSize data] ∨
      capacity c ≤ recs.length ∧ err = .writeFail ∧ recs' = recs)
    (hk : recs.length < c.recordsPerPage) (hflatten : g.used.flatten = (used ++ [recs]).flatten)
    (hpages : (used ++ [recs]).length = g.used.length ∨ (used ++ [recs]).length = g.used.length + 1 ∧
      NotAtBound c v (c.ring.step (pageAfter c b pre) (g.used.length + 1)))
    (honly : RecordOnly v s) (hpassed : Passed (fun x => ∃ u sp, Image c x b (pre ++ g.holding u sp :: post) ∧
      u.flatten = g.used.flatten) v s) :
    Appended c v t b pre g post data err (used ++ [recs']) spare := by
  have hrecs' : recs'.length ≤ capacity c := by
    rcases hcase with ⟨h, -, rfl⟩ | ⟨-, -, rfl⟩
    · rw [List.length_append, List.length_singleton]
      omega
    · exact hle
  constructor
  · exact h.edit hs.volume (filled_snoc.mpr ⟨hused, hrecs'⟩)
  · exact hs.writing
  · exact honly.trans hs.only
  · rcases hcase with ⟨-, rfl, rfl⟩ | ⟨hge, rfl, rfl⟩
    · refine .inl ⟨rfl, ?_⟩
      rw [hflatten]
      simp
    · exact .inr ⟨rfl, by omega, hflatten.symm⟩
  · rw [List.length_append] at hpages ⊢
    exact hpages
  · apply (hpassed.imp fun x ⟨u, sp, hx, hu⟩ => ⟨u, sp, hx, .inl hu⟩).trans
    refine hs.passed.imp fun x ⟨r, sp, hr, hx⟩ => ⟨used ++ [r], sp, h.edit hx (filled_snoc.mpr ⟨hused, ?_⟩), ?_⟩
    · rcases hr with rfl | rfl
      · exact hle
      · exact hrecs'
    · rcases hr with rfl | rfl
      · exact .inl hflatten.symm
      · exact .inr rfl

theorem recordWr_cases (hl : c.type = .linear) (h : Image c s.flash b (pre ++ g :: post))
    (hw : Writing c s.logFs (pageAfter c b pre) g.used) (hr : (logFsRecordWr c data).Returns s err t) :
    (err = .full ∧ t = s ∧ Full c s b pre g) ∨ ∃ used spare, Appended c s t b pre g post data err used spare := by
  have hfilled : Filled c g.used := h.filled g (by simp)
  have hmem : c.ring.Mem (pageAfter c b pre) := pageAfter_mem
  have hv : Volume c s.flash b (layout (pre ++ g.holding g.used g.spare :: post)) := h.volume
  rw [recordWr_eq, getLogFs_bind] at hr
  rcases hw.cursor with ⟨hadr, hfull⟩ | ⟨recs, hlast, hadr, hpos, hlt⟩
  · -- a page is started
    rw [hadr] at hr
    simp only at hr
    rw [recOffset_zero, if_pos rfl] at hr
    obtain ⟨r, s₁, h₁, hrest⟩ := Prog.returns_bind.mp hr
    clear hr
    rcases recordPageStart_cases hl hv hw.nr rfl h₁ with ⟨rfl, rfl, hreached⟩ | ⟨e, rest, rfl, hspare, hbound, hbegun⟩
    · obtain ⟨rfl, rfl⟩ := Prog.returns_pure.mp hrest
      exact .inl ⟨rfl, rfl, hadr, hreached⟩
    · right
      have hall : ∀ x ∈ g.used, x.length = capacity c := by
        rcases List.eq_nil_or_concat g.used with hnil | ⟨us, u, hus⟩
        · intro x hx
          rw [hnil] at hx
          exact absurd hx List.not_mem_nil
        · rw [List.concat_eq_append] at hus
          rw [hus] at hfilled hfull
          intro x hx
          rw [hus] at hx
          rcases List.mem_append.mp hx with hx | hx
          · exact (filled_snoc.mp hfilled).1 x hx
          · rw [List.mem_singleton.mp hx]
            exact hfull u (by rw [List.getLast?_concat]; rfl)
      have hb : Behind c s₁ b pre g post g.used [] rest := by
        refine ⟨hbegun.volume, ?_, ?_, hbegun.last, hbegun.nr⟩
        · rw [hbegun.cursor, hadr, List.length_nil]
        · rw [hbegun.first, hw.first]
          by_cases hnil : g.used = []
          · rw [if_pos hnil, if_pos rfl, hnil, List.length_nil, PageRing.step_one hmem]
          · rw [if_neg hnil, if_neg (mem_ne_invalid (PageRing.next_mem hmem))]
      have hr' : (writeRecord c (c.ring.step (pageAfter c b pre) (g.used.length + 1)) (recOffset c ([] : List Rec).length) data).Returns
          s₁ err t := by
        rw [List.length_nil, recOffset_zero]
        exact hrest
      obtain ⟨recs', spare', hcase, hs⟩ := writeRecord_cases hl hb recordsPerPage_pos hr'
      have hedit : ∀ x u sp, (u = g.used ∨ u = g.used ++ [[]]) → Volume c x b (layout (pre ++ g.holding u sp :: post)) →
          Image c x b (pre ++ g.holding u sp :: post) ∧ u.flatten = g.used.flatten := by
        rintro x u sp (rfl | rfl) hx
        · exact ⟨h.edit hx hfilled, rfl⟩
        · exact ⟨h.edit hx (filled_snoc.mpr ⟨hall, Nat.zero_le _⟩), by simp⟩
      refine ⟨g.used ++ [recs'], spare', hs.appended h hall (Nat.zero_le _) hcase recordsPerPage_pos (by simp) ?_ hbegun.only ?_⟩
      · exact .inr ⟨List.length_append, hbound⟩
      · refine hbegun.passed.imp ?_
        rintro x (hx | hx)
        · exact ⟨_, _, hedit x _ _ (.inl rfl) hx⟩
        · exact ⟨_, _, hedit x _ _ (.inr rfl) hx⟩
  · -- the last page has room
    right
    obtain ⟨us, hus⟩ : ∃ us, g.used = us ++ [recs] := by
      rcases List.eq_nil_or_concat g.used with hnil | ⟨us, u, hus⟩
      · rw [hnil] at hlast
        exact absurd hlast (by simp)
      · rw [List.concat_eq_append] at hus
        rw [hus, List.getLast?_concat, Option.some.injEq] at hlast
        exact ⟨us, by rw [hus, hlast]⟩
    have hlen : g.used.length = us.length + 1 := by rw [hus, List.length_append, List.length_singleton]
    have hnil : g.used ≠ [] := by
      rw [hus]
      simp
    rw [hus] at hv hfilled
    obtain ⟨hall, hle⟩ := filled_snoc.mp hfilled
    have hb : Behind c s b pre g post us recs g.spare := by
      refine ⟨hv, ?_, ?_, ?_, ?_⟩
      · rw [hadr, hlen]
      · rw [hw.first, if_neg hnil]
      · rw [hw.last, if_neg hnil, hlen]
      · rw [hw.nr, hlen]
    have hne : recOffset c recs.length ≠ recOffsetFirst := by
      have := recOffset_strict (c := c) hpos
      rw [recOffset_zero] at this
      omega
    rw [hadr, hlen] at hr
    simp only at hr
    rw [if_neg hne, pure_bind] at hr
    obtain ⟨recs', spare', hcase, hs⟩ := writeRecord_cases hl hb hlt hr
    refine ⟨us ++ [recs'], spare', hs.appended h hall hle hcase hlt (by rw [hus]) (.inl ?_) ?_ (.of_same rfl rfl)⟩
    · rw [hlen, List.length_append, List.length_singleton]
    · exact ⟨_, _, _, _, _, _, rfl⟩

end recordWr

end Lpc1788Libraries.DataManager

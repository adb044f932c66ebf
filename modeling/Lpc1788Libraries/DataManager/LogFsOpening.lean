import Lpc1788Libraries.DataManager.LogFsCatalog
import Lpc1788Libraries.DataManager.LogFsRegion

namespace Lpc1788Libraries.DataManager

open Lpc1788Libraries.Support NorFlash BoundedProgram

variable {c : LogFsCfg} {s t u : Sys} {f : Pages} {b p page start stop m n i k nr : ℕ} {v : PageView} {g : StoredFile}
  {pre post : List StoredFile} {used : List (List Rec)} {recs : List Rec} {spare : List Bool} {rest l : List PageView}
  {file : LogFsFile} {err : LogFsErr}

section parts

/-- The last part of `log_fs_open`, which places the write cursor. -/
def placeCursor (c : LogFsCfg) (recSearchPageStart recSearchPageEnd : ℕ) : SysM LogFsErr := do
  let recPage := (← getLogFs).recPageLast
  match ← freeOffset c recPage with
  | some offset =>
    setLogFs fun l => { l with recAdrWr := ⟨recPage, offset⟩ }
    return .none
  | none =>
    let recPage ← logFsPageNext c recPage
    match c.type with
    | .linear =>
      if !(← isBoundPage c recPage) then
        let marker ← logFsMarkerRd recPage 0
        if marker ≠ logFsMarkerFile ∧ marker ≠ logFsMarkerFree then
          at45dErasePage recPage
      setLogFs fun l => { l with recAdrWr := ⟨recPage, recOffsetFirst⟩ }
      return .none
    | .circular =>
      let recPage ← circularPage c recPage
      at45dErasePage recPage
      if recPage = (← getLogFs).recPageFirst then
        let page ← logFsPageHeaderFindNext c logFsMarkerRecord recSearchPageStart
          recSearchPageEnd recPage
        setLogFs fun l => { l with recPageFirst := page }
      setLogFs fun l => { l with recAdrWr := ⟨recPage, recOffsetFirst⟩ }
      return .none

/-- What `log_fs_open` does in the pages in which the records may lie. -/
def openRecords (c : LogFsCfg) (recSearchPageStart recSearchPageEnd : ℕ) : SysM LogFsErr := do
  let recPageFirst ← logFsPageHeaderFindFirst c logFsMarkerRecord recSearchPageStart recSearchPageEnd
  if recPageFirst = logFsPageInvalid then
    setLogFs (resetRecords recSearchPageStart)
    eraseIfNotFree recSearchPageStart
    return .none
  else
    largestDiff c logFsMarkerRecord recSearchPageStart recSearchPageEnd saveRecPages recPageFirst
    placeCursor c recSearchPageStart recSearchPageEnd

theorem open_eq : logFsOpen c file = (logFsFileBlockRd file.startPage >>= fun read =>
    if !read then return .fileInvalid
    else recSearchPages c >>= fun pages => match pages with
      | none => return .none
      | some (start, stop) => openRecords c start stop) := rfl

theorem findFirst_checks {r : ℕ} {marker : UInt8} (hr : (logFsPageHeaderFindFirst c marker start stop).Returns s r t) :
    (c.dbg = true → c.ring.Mem stop) ∧ (Prog.loop (findFirstRound c marker stop) start).Returns s r t := by
  unfold logFsPageHeaderFindFirst at hr
  simp only [dbgAssertPage, Prog.check_bind_returns] at hr
  exact ⟨hr.2.1, hr.2.2⟩

theorem freeOffset_returns (h : Holds c s.flash page (.record nr recs)) :
    (freeOffset c page).Returns s (if recs.length < c.recordsPerPage then some (recOffset c recs.length) else none) s := by
  have hpos := recordsPerPage_pos (c := c)
  have hle : recs.length ≤ c.recordsPerPage := h.2.1
  have hloop : ∀ j k, k + j = recs.length → (Prog.loop (freeOffsetRound c page) (recOffset c k)).Returns s
      (if recs.length < c.recordsPerPage then some (recOffset c recs.length) else none) s := by
    have hlast : ∀ k < c.recordsPerPage, ¬ c.recOffsetLast < recOffset c k := by
      intro k hk
      rw [← recOffset_last]
      exact Nat.not_lt.mpr (recOffset_mono (Nat.le_sub_one_of_lt hk))
    intro j
    induction j with
    | zero =>
      intro k hk
      obtain rfl : k = recs.length := hk
      apply Prog.loop_inr
      unfold freeOffsetRound
      by_cases hlt : recs.length < c.recordsPerPage
      · rw [if_neg (hlast _ hlt), if_pos hlt]
        apply (h.markerRd_free (Nat.le_refl _)).bind
        rw [if_pos rfl]
        exact Prog.returns_pure.mpr ⟨rfl, rfl⟩
      · have hover := recOffset_strict (c := c) (show c.recordsPerPage - 1 < recs.length by omega)
        rw [recOffset_last] at hover
        rw [if_pos hover, if_neg hlt]
        exact Prog.returns_pure.mpr ⟨rfl, rfl⟩
    | succ j ih =>
      intro k hk
      have hmod : (recOffset c k + c.recBlockSize) % 0x10000 = recOffset c (k + 1) := by
        rw [← recOffset_succ]
        exact Nat.mod_eq_of_lt (recOffset_lt (by omega))
      have hrecord := h.markerRd_record (List.getElem?_eq_getElem (show k < recs.length by omega))
      have hround : (freeOffsetRound c page (recOffset c k)).Returns s (.inl (recOffset c (k + 1))) s := by
        unfold freeOffsetRound
        rw [if_neg (hlast k (by omega))]
        apply hrecord.bind
        rw [if_neg (by decide), hmod]
        exact Prog.returns_pure.mpr ⟨rfl, rfl⟩
      exact Prog.loop_inl hround (ih (k + 1) (by omega))
  have h0 := hloop recs.length 0 (Nat.zero_add _)
  rw [recOffset_zero] at h0
  exact h0

theorem placeCursor_cases (hl : c.type = .linear) (hp : c.ring.Mem page) (hlast : s.logFs.recPageLast = page)
    (h : Holds c s.flash page (.record nr recs)) (hv : Holds c s.flash (c.ring.next page) v)
    (hr : (placeCursor c start stop).Returns s err t) : err = .none ∧
      ((recs.length < c.recordsPerPage ∧ t = s.setRecAdrWr ⟨page, recOffset c recs.length⟩) ∨
        recs.length = c.recordsPerPage ∧ ∃ u, t = u.setRecAdrWr ⟨c.ring.next page, recOffsetFirst⟩ ∧
          (u = s ∧ (AtBound c s (c.ring.next page) ∨ v.marker = logFsMarkerFile ∨ v.marker = logFsMarkerFree) ∨
            u = s.putFlash (s.flash.erase (c.ring.next page)) ∧ NotAtBound c s (c.ring.next page) ∧
              v.marker ≠ logFsMarkerFile ∧ v.marker ≠ logFsMarkerFree)) := by
  unfold placeCursor at hr
  rw [getLogFs_bind, hlast, (freeOffset_returns h).bind_iff] at hr
  by_cases hlt : recs.length < c.recordsPerPage
  · rw [if_pos hlt] at hr
    simp only [setLogFs_bind] at hr
    obtain ⟨rfl, rfl⟩ := Prog.returns_pure.mp hr
    exact ⟨rfl, .inl ⟨hlt, rfl⟩⟩
  · have hfull : recs.length = c.recordsPerPage := by
      have hle : recs.length ≤ c.recordsPerPage := h.2.1
      omega
    rw [if_neg hlt] at hr
    simp only [hl] at hr
    rw [(pageNext_returns hp).bind_iff] at hr
    obtain ⟨reached, s₁, h₁, hrest⟩ := Prog.returns_bind.mp hr
    clear hr
    obtain ⟨rfl, ⟨rfl, hbound⟩ | ⟨rfl, hbound⟩⟩ := isBoundPage_cases h₁
    · rw [if_neg (by decide), setLogFs_bind] at hrest
      obtain ⟨rfl, rfl⟩ := Prog.returns_pure.mp hrest
      exact ⟨rfl, .inr ⟨hfull, s₁, rfl, .inl ⟨rfl, .inl hbound⟩⟩⟩
    · rw [if_pos (by decide), hv.markerRd.bind_iff] at hrest
      by_cases hkeep : v.marker = logFsMarkerFile ∨ v.marker = logFsMarkerFree
      · have hno : ¬ (v.marker ≠ logFsMarkerFile ∧ v.marker ≠ logFsMarkerFree) := by
          rintro ⟨h1, h2⟩
          exact hkeep.elim h1 h2
        rw [if_neg hno, setLogFs_bind] at hrest
        obtain ⟨rfl, rfl⟩ := Prog.returns_pure.mp hrest
        exact ⟨rfl, .inr ⟨hfull, s₁, rfl, .inl ⟨rfl, .inr hkeep⟩⟩⟩
      · obtain ⟨h1, h2⟩ := not_or.mp hkeep
        rw [if_pos ⟨h1, h2⟩, at45dErase_bind, setLogFs_bind] at hrest
        obtain ⟨rfl, rfl⟩ := Prog.returns_pure.mp hrest
        exact ⟨rfl, .inr ⟨hfull, _, rfl, .inr ⟨rfl, hbound, h1, h2⟩⟩⟩

end parts

section searchPages

theorem Volume.behind (hv : Volume c f b (layout (pre ++ g :: post))) :
    ∃ v, v.marker = logFsMarkerFile ∧ Ahead c f (c.ring.next (pageAfter c b pre)) (g.body ++ [v]) := by
  have hagain := Volume.ahead_again (v := g.head) (l := g.body ++ layout (post ++ pre)) hv.at_file
  obtain ⟨v, l, hl, hv⟩ : ∃ v l, layout (post ++ pre) ++ [g.head] = v :: l ∧ v.marker = logFsMarkerFile := by
    cases post ++ pre with
    | nil => exact ⟨g.head, [], rfl, rfl⟩
    | cons h files => exact ⟨h.head, h.body ++ layout files ++ [g.head], by simp [StoredFile.pages], rfl⟩
  have hsplit : g.head :: (g.body ++ layout (post ++ pre)) ++ [g.head] = g.head :: ((g.body ++ [v]) ++ l) := by
    rw [List.cons_append, List.append_assoc, hl]
    simp
  rw [hsplit] at hagain
  exact ⟨v, hv, ((ahead_append (PageRing.next_mem pageAfter_mem)).mp hagain.2).1⟩

theorem length_body_lt (hv : Volume c f b (layout (pre ++ g :: post))) : g.body.length < c.ring.size := by
  have hlen := hv.at_file.length
  rw [StoredFile.pages, List.length_append, List.length_cons] at hlen
  omega

theorem Mounted.alone (hv : Volume c f b (layout (pre ++ g :: post))) (hm : Mounted c s.logFs b (pre ++ g :: post)) :
    s.logFs.filePageFirst = s.logFs.filePageLast ↔ pre ++ post = [] := by
  obtain ⟨mid, h, hmid⟩ := exists_newest hv.not_blank
  have hlen := hv.length
  have hb : pageAfter c b [] = b := PageRing.step_zero hv.base
  rw [hmid, layout_append, layout_single, List.length_append, length_pages] at hlen
  rw [hm.first, (hm.last mid h hmid).1]
  constructor
  · intro heq
    have hzero : (layout mid).length = 0 := by
      rw [← PageRing.step_zero hv.base, pageAfter, PageRing.step_step, PageRing.step_inj PageRing.size_pos (by omega)] at heq
      omega
    have hnil : mid = [] := by
      by_contra hne
      have := layout_pos hne
      omega
    have hcount := congrArg List.length hmid
    rw [hnil, List.length_append, List.length_cons, List.nil_append, List.length_singleton] at hcount
    apply List.eq_nil_of_length_eq_zero
    rw [List.length_append]
    omega
  · intro hnil
    obtain ⟨rfl, rfl⟩ := List.append_eq_nil_iff.mp hnil
    have hmid' : mid = [] := by
      have hcount := congrArg List.length hmid
      rw [List.nil_append, List.length_append, List.length_singleton, List.length_singleton] at hcount
      exact List.eq_nil_of_length_eq_zero (by omega)
    rw [hmid', hb]

theorem recSearchPages_cases {r : Option (ℕ × ℕ)} (hv : Volume c s.flash b (layout (pre ++ g :: post)))
    (hm : Mounted c s.logFs b (pre ++ g :: post)) (hp : s.filePage = pageAfter c b pre) (hr : (recSearchPages c).Returns s r t) :
    (r = none ∧ g.body = [] ∧
      ∃ x, t = { s with logFs := resetRecords (c.ring.next (pageAfter c b pre)) { s.logFs with pageHeader := x } }) ∨
      g.body ≠ [] ∧ (∃ x, t = s.setHeader x) ∧ r = some (c.ring.next (pageAfter c b pre),
        if pre ++ post = [] then boundEnd c (pageAfter c b pre) else c.ring.step (pageAfter c b pre) g.body.length) := by
  have hmem : c.ring.Mem (pageAfter c b pre) := pageAfter_mem
  have hnext := PageRing.next_mem hmem
  have hlt := length_body_lt hv
  obtain ⟨v, hvm, hbehind⟩ := hv.behind
  have hstart := boundStart_returns (c := c) (s := s) (hp ▸ hmem)
  rw [hp] at hstart
  unfold recSearchPages at hr
  rw [hstart.bind_iff] at hr
  cases hbody : g.body with
  | nil =>
    left
    rw [hbody] at hbehind
    rw [hbehind.1.pageHeaderRd.bind_iff, if_pos hvm, setLogFs_bind] at hr
    obtain ⟨rfl, rfl⟩ := Prog.returns_pure.mp hr
    exact ⟨rfl, rfl, _, rfl⟩
  | cons w body =>
    right
    have hw : w.marker ≠ logFsMarkerFile := body_not_file (g := g) (by rw [hbody]; exact List.mem_cons_self ..)
    have hfirst := hbehind
    rw [hbody] at hfirst
    rw [hfirst.1.pageHeaderRd.bind_iff, if_neg hw] at hr
    have hpage : (s.seen w).filePage = pageAfter c b pre := hp
    have hend := boundEnd_returns (c := c) (s := s.seen w) (hpage ▸ hmem)
    have hmounted : Mounted c (s.seen w).logFs b (pre ++ g :: post) := ⟨hm.first, hm.last⟩
    have hone := hmounted.alone hv
    have hsearch : (s.seen w).logFs.fileInfo.file.startPage = pageAfter c b pre := hpage
    rw [hpage] at hend
    rw [hend.bind_iff, getLogFs_bind, hsearch] at hr
    refine ⟨by simp, ?_⟩
    by_cases halone : pre ++ post = []
    · rw [if_neg (by rw [not_not]; exact hone.mpr halone)] at hr
      obtain ⟨rfl, rfl⟩ := Prog.returns_pure.mp hr
      rw [if_pos halone]
      exact ⟨⟨_, rfl⟩, rfl⟩
    · rw [if_pos (hone.not.mpr halone)] at hr
      have hsize : g.body.length + 1 < c.ring.size := by
        have hlen := hv.at_file.length
        have hothers : post ++ pre ≠ [] := by
          intro hnil
          obtain ⟨rfl, rfl⟩ := List.append_eq_nil_iff.mp hnil
          exact halone rfl
        have hpos := layout_pos hothers
        rw [StoredFile.pages, List.length_append, List.length_cons] at hlen
        omega
      have hcount : g.body.length = body.length + 1 := by rw [hbody, List.length_cons]
      have hbefore : ∀ k < g.body.length, c.ring.step (c.ring.next (pageAfter c b pre)) k ≠ pageAfter c b pre := by
        intro k hk
        rw [PageRing.step_next hmem]
        conv_rhs => rw [← PageRing.step_zero hmem]
        rw [Ne, PageRing.step_inj (by omega) (by omega)]
        omega
      have hfound := findFirst_loop_found (s := s.seen w) hnext hbehind (fun x hx => body_not_file hx) hvm (.inl rfl) hbefore
      have hfind : (logFsPageHeaderFindFirst c logFsMarkerFile (c.ring.next (pageAfter c b pre)) (pageAfter c b pre)).Returns
          (s.seen w) _ _ := (assert_returns hnext).bind ((assert_returns hmem).bind hfound)
      have hne : c.ring.step (c.ring.next (pageAfter c b pre)) g.body.length ≠ c.ring.next (pageAfter c b pre) := by
        conv_rhs => rw [← PageRing.step_zero hnext]
        rw [Ne, PageRing.step_inj (by omega) (by omega)]
        omega
      rw [hfind.bind_iff, if_neg hne, if_pos (mem_ne_invalid PageRing.step_mem),
        (pagePrevious_returns PageRing.step_mem).bind_iff] at hr
      obtain ⟨rfl, rfl⟩ := Prog.returns_pure.mp hr
      rw [if_neg halone]
      refine ⟨⟨_, rfl⟩, ?_⟩
      rw [hcount, PageRing.prev_step, PageRing.step_next hmem, List.length_cons]

end searchPages

end Lpc1788Libraries.DataManager

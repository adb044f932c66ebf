import Lpc1788Libraries.DataManager.LogFsOpening

namespace Lpc1788Libraries.DataManager

open Lpc1788Libraries.Support NorFlash BoundedProgram

/-- The search for the records of the file with the FILE page `p` takes in all of its RECORD pages. -/
def Fits (c : LogFsCfg) (p : ℕ) (used : List (List Rec)) : Prop := ∃ n, Region c p (boundEnd c p) n ∧ used.length ≤ n

/-- The descriptor tells the same of the files. -/
structure SameFiles (s t : Sys) : Prop where
  fileInfo : t.logFs.fileInfo = s.logFs.fileInfo
  first : t.logFs.filePageFirst = s.logFs.filePageFirst
  last : t.logFs.filePageLast = s.logFs.filePageLast
  nr : t.logFs.filePageNrNext = s.logFs.filePageNrNext

/-- What `log_fs_open` leaves behind when it has read the FILE page. -/
structure Reopened (c : LogFsCfg) (s t : Sys) (b : ℕ) (pre : List StoredFile) (g : StoredFile) (post : List StoredFile)
    (spare : List Bool) : Prop where
  volume : Volume c t.flash b (layout (pre ++ g.holding g.used spare :: post))
  writing : 0 < capacity c → Writing c t.logFs (pageAfter c b pre) g.used
  files : SameFiles s t
  flash : t.flash = s.flash ∨
    ∃ rest, g.spare = false :: rest ∧ t.flash = s.flash.erase (c.ring.step (pageAfter c b pre) (g.used.length + 1))
  passed : Passed (fun x => ∃ sp, Volume c x b (layout (pre ++ g.holding g.used sp :: post))) s t

variable {c : LogFsCfg} {s t u : Sys} {f : Pages} {b p start stop n i k nr : ℕ} {v : PageView} {g : StoredFile}
  {pre post : List StoredFile} {used : List (List Rec)} {recs : List Rec} {spare : List Bool} {rest l : List PageView}
  {file : LogFsFile} {err : LogFsErr} {e : Bool}

section fits

theorem exists_region (hp : c.ring.Mem p) : ∃ n, Region c p (boundEnd c p) n := by
  by_cases hb : c.ring.Mem (boundEnd c p)
  · obtain ⟨k, hk, hstep⟩ := PageRing.exists_step hp hb
    rw [← hstep]
    rcases Nat.eq_zero_or_pos k with rfl | hpos
    · have hall := region_step hp PageRing.size_pos (Nat.le_refl _)
      rw [PageRing.step_size hp] at hall
      rw [PageRing.step_zero hp]
      exact ⟨_, hall⟩
    · exact ⟨k, region_step hp hpos (Nat.le_of_lt hk)⟩
  · exact ⟨_, region_all hp hb⟩

theorem fits_nil (hp : c.ring.Mem p) : Fits c p [] := by
  obtain ⟨n, hn⟩ := exists_region hp
  exact ⟨n, hn, Nat.zero_le n⟩

theorem two_le_size : 2 ≤ c.ring.size := by
  have h1 := c.pageStart_lt
  have h2 : c.ring.size = c.pageEnd + 1 - c.pageStart := rfl
  omega

theorem fits_unbounded (h0 : c.maxPages = 0) (hp : c.ring.Mem p) (hlen : used.length < c.ring.size) : Fits c p used := by
  have hsize := two_le_size (c := c)
  have hend : boundEnd c p = c.ring.step p (c.ring.size - 1) := by
    unfold boundEnd
    rw [if_neg (not_not.mpr h0), PageRing.step_size_pred hp]
  refine ⟨c.ring.size - 1, ?_, by omega⟩
  rw [hend]
  exact region_step hp (by omega) (Nat.sub_le _ _)

theorem Fits.next (h : Fits c p used) (recs : List Rec) (hp : c.ring.Mem p) (hfile : s.filePage = p)
    (hb : NotAtBound c s (c.ring.step p (used.length + 1))) (hlen : used.length + 1 < c.ring.size) :
    Fits c p (used ++ [recs]) := by
  obtain ⟨n, hr, hle⟩ := h
  refine ⟨n, hr, ?_⟩
  rw [List.length_append, List.length_singleton]
  by_contra hn
  obtain rfl : n = used.length := by omega
  have hpos := hr.pos
  have hback := hr.back
  unfold PageRing.nextIn at hback
  by_cases hend : c.ring.step p used.length = boundEnd c p
  · have hbound : c.ring.Mem (boundEnd c s.filePage) := by
      rw [hfile, ← hend]
      exact PageRing.step_mem
    have htrue : (isBoundPage c (c.ring.step p (used.length + 1))).Returns s _ s := isBoundPage_returns (hfile ▸ hp) hbound
    rw [hfile, ← hend, PageRing.next_step, decide_eq_true rfl] at htrue
    exact absurd (htrue.unique hb).1 (by decide)
  · rw [if_neg hend, PageRing.next_step, ← PageRing.step_one hp, PageRing.step_inj hlen (by omega)] at hback
    omega

end fits

section openRecords

theorem eraseIfNotFree_cases (hh : Holds c s.flash p (spareView e)) (hr : (eraseIfNotFree p).Returns s () t) :
    e = true ∧ t = s ∨ e = false ∧ t = s.putFlash (s.flash.erase p) := by
  unfold eraseIfNotFree at hr
  rw [hh.markerRd.bind_iff] at hr
  cases e with
  | true =>
    rw [if_neg (by decide)] at hr
    exact .inl ⟨rfl, (Prog.returns_pure.mp hr).2.symm⟩
  | false =>
    rw [if_pos (by decide), at45dErase_returns] at hr
    exact .inr ⟨rfl, hr.symm⟩

theorem Volume.region_pages (hv : Volume c f b (layout (pre ++ g :: post))) (hle : g.used.length ≤ n)
    (hn : n ≤ g.body.length + 1) : ∃ rest, Ahead c f (c.ring.next (pageAfter c b pre)) (recordPages 0 g.used ++ rest) ∧
      g.used.length + rest.length = n ∧ ∀ x ∈ rest, x.marker ≠ logFsMarkerRecord := by
  obtain ⟨v, hvm, hA⟩ := hv.behind
  have hlen : (recordPages 0 g.used).length = g.used.length := length_recordPages
  have hbody : g.body.length = g.used.length + g.spare.length := by
    rw [StoredFile.body, List.length_append, hlen, List.length_map]
  have hsplit : g.body ++ [v] = (recordPages 0 g.used ++ (g.spare.map spareView ++ [v]).take (n - g.used.length)) ++
      (g.spare.map spareView ++ [v]).drop (n - g.used.length) := by
    rw [List.append_assoc, List.take_append_drop, StoredFile.body, List.append_assoc]
  rw [hsplit] at hA
  refine ⟨_, ((ahead_append (PageRing.next_mem pageAfter_mem)).mp hA).1, ?_, ?_⟩
  · rw [List.length_take, List.length_append, List.length_map, List.length_singleton]
    omega
  · intro x hx
    rcases List.mem_append.mp (List.mem_of_mem_take hx) with hx | hx
    · exact spare_not_record hx
    · rw [List.mem_singleton.mp hx, hvm]
      decide

theorem Volume.next_view (hv : Volume c f b (layout (pre ++ g :: post))) :
    ∃ w, Holds c f (c.ring.step (pageAfter c b pre) (g.used.length + 1)) w ∧
      (g.spare = [] ∧ w.marker = logFsMarkerFile ∨ ∃ e rest, g.spare = e :: rest ∧ w = spareView e) := by
  have hv' : Volume c f b (layout (pre ++ g.holding g.used g.spare :: post)) := hv
  cases hspare : g.spare with
  | nil =>
    rw [hspare] at hv'
    obtain ⟨w, hw, hh⟩ := hv'.file_page
    exact ⟨w, hh, .inl ⟨rfl, hw⟩⟩
  | cons e rest =>
    rw [hspare] at hv'
    exact ⟨spareView e, hv'.spare_page, .inr ⟨e, rest, rfl, rfl⟩⟩

theorem openRecords_blank (hv : Volume c s.flash b (layout (pre ++ g :: post))) (hused : g.used = []) (hbody : g.body ≠ [])
    (hregion : Region c (pageAfter c b pre) stop n) (hn : n ≤ g.body.length + 1)
    (hr : (openRecords c (c.ring.next (pageAfter c b pre)) stop).Returns s err t) :
    err = .none ∧ ∃ spare, Reopened c s t b pre g post spare := by
  have hmem : c.ring.Mem (pageAfter c b pre) := pageAfter_mem
  obtain ⟨rest, hA, hlen, hrest⟩ := hv.region_pages (by rw [hused]; exact Nat.zero_le n) hn
  rw [hused, List.length_nil, Nat.zero_add] at hlen
  rw [hused] at hA
  obtain ⟨r, s₁, h₁, hr⟩ := Prog.returns_bind.mp hr
  obtain ⟨-, hloop⟩ := findFirst_checks h₁
  obtain ⟨rfl, x, rfl⟩ := findFirst_region_none hregion hmem hA hlen hrest hloop
  rw [if_pos rfl, setLogFs_bind] at hr
  obtain ⟨⟨⟩, s₂, h₂, hr⟩ := Prog.returns_bind.mp hr
  obtain ⟨rfl, rfl⟩ := Prog.returns_pure.mp hr
  obtain ⟨e, spare, hspare⟩ : ∃ e spare, g.spare = e :: spare := by
    apply List.exists_cons_of_ne_nil
    intro hnil
    apply hbody
    rw [StoredFile.body, hused, hnil]
    rfl
  have hpage : c.ring.step (pageAfter c b pre) (g.used.length + 1) = c.ring.next (pageAfter c b pre) := by
    rw [hused, List.length_nil, Nat.zero_add, PageRing.step_one hmem]
  have hv' : Volume c s.flash b (layout (pre ++ g.holding g.used (e :: spare) :: post)) := by
    rw [← hspare]
    exact hv
  have hfree := hv'.spare_page
  rw [hpage] at hfree
  have hcursor : ∀ l : LogFs, Writing c (resetRecords (c.ring.next (pageAfter c b pre)) l) (pageAfter c b pre) g.used := by
    intro l
    rw [hused]
    refine ⟨rfl, rfl, rfl, .inl ⟨?_, by simp⟩⟩
    rw [recOffset_zero, List.length_nil, Nat.zero_add, PageRing.step_one hmem]
    rfl
  rcases eraseIfNotFree_cases (s := ⟨resetRecords (c.ring.next (pageAfter c b pre)) (s.setHeader x).logFs, s.flash, s.images⟩)
    hfree h₂ with ⟨rfl, rfl⟩ | ⟨rfl, rfl⟩
  · exact ⟨rfl, true :: spare, hv', fun _ => hcursor _, ⟨rfl, rfl, rfl, rfl⟩, .inl rfl, .of_same rfl rfl⟩
  · have hve : Volume c (s.flash.erase (c.ring.next (pageAfter c b pre))) b (layout (pre ++ g.holding g.used (true :: spare) :: post)) := by
      rw [← hpage]
      exact hv'.edit_erase onlyPage_erase holds_erase
    refine ⟨rfl, true :: spare, hve, fun _ => hcursor _, ⟨rfl, rfl, rfl, rfl⟩, .inr ⟨spare, hspare, ?_⟩, ?_⟩
    · rw [hpage]
      rfl
    · exact .put rfl rfl ⟨_, hve⟩

theorem openRecords_used (hl : c.type = .linear) (hv : Volume c s.flash b (layout (pre ++ g :: post)))
    (hfilled : Filled c g.used) (hnonempty : 0 < capacity c → [] ∉ g.used) (hused : g.used ≠ [])
    (hregion : Region c (pageAfter c b pre) stop n) (hle : g.used.length ≤ n) (hn : n ≤ g.body.length + 1)
    (hr : (openRecords c (c.ring.next (pageAfter c b pre)) stop).Returns s err t) :
    err = .none ∧ ∃ spare, Reopened c s t b pre g post spare := by
  have hmem : c.ring.Mem (pageAfter c b pre) := pageAfter_mem
  have hnext := PageRing.next_mem hmem
  obtain ⟨rest, hA, hlen, hrest⟩ := hv.region_pages hle hn
  obtain ⟨r, s₁, h₁, hr⟩ := Prog.returns_bind.mp hr
  obtain ⟨hstop, hloop⟩ := findFirst_checks h₁
  -- the first RECORD page is the page behind the FILE page
  obtain ⟨recs₀, us₀, hus₀⟩ := List.exists_cons_of_ne_nil hused
  have hfirst : Ahead c s.flash (c.ring.next (pageAfter c b pre)) ([] ++ PageView.record 0 recs₀ :: (recordPages 1 us₀ ++ rest)) := by
    rw [hus₀] at hA
    exact hA
  have hfound : (Prog.loop (findFirstRound c logFsMarkerRecord stop) (c.ring.next (pageAfter c b pre))).Returns s _ _ :=
    findFirst_loop_found hnext hfirst (by simp) rfl (.inr rfl) (by simp)
  obtain ⟨rfl, rfl⟩ := hfound.unique hloop
  rw [List.length_nil, PageRing.step_zero hnext, if_neg (mem_ne_invalid hnext)] at hr
  let s₁ : Sys := s.setHeader (sealedHeader logFsMarkerRecord 0)
  have hvolume : Volume c s.flash b (layout (pre ++ g.holding g.used g.spare :: post)) := hv
  have hlt : g.used.length < 0x8000 := hvolume.used_lt
  obtain ⟨x, hx⟩ := largestDiff_region (s := s₁) hregion hmem hstop hA hlen hrest hused hlt rfl
  have hr : (largestDiff c logFsMarkerRecord (c.ring.next (pageAfter c b pre)) stop saveRecPages (c.ring.next (pageAfter c b pre)) >>=
      fun _ => placeCursor c (c.ring.next (pageAfter c b pre)) stop).Returns s₁ err t := hr
  rw [hx.bind_iff] at hr
  let s₂ : Sys := ⟨saveRecPages (c.ring.next (pageAfter c b pre)) (c.ring.step (pageAfter c b pre) g.used.length) g.used.length
    { s.logFs with pageHeader := x }, s.flash, s.images⟩
  have hr : (placeCursor c (c.ring.next (pageAfter c b pre)) stop).Returns s₂ err t := hr
  -- the last RECORD page and the page behind it
  obtain ⟨us, recs, hus⟩ : ∃ us recs, g.used = us ++ [recs] :=
    ⟨g.used.dropLast, g.used.getLast hused, (List.dropLast_concat_getLast hused).symm⟩
  have hcount : g.used.length = us.length + 1 := by rw [hus, List.length_append, List.length_singleton]
  have hv' : Volume c s.flash b (layout (pre ++ g.holding (us ++ [recs]) g.spare :: post)) := by
    rw [← hus]
    exact hv
  have hlast := hv'.record_page
  rw [← hcount] at hlast
  obtain ⟨w, hw, hcase⟩ := hv.next_view
  rw [← PageRing.next_step] at hw
  obtain ⟨rfl, hplace⟩ := placeCursor_cases (s := s₂) hl PageRing.step_mem rfl hlast hw hr
  refine ⟨rfl, ?_⟩
  have hwriting : ∀ adr, (adr = ⟨c.ring.step (pageAfter c b pre) (g.used.length + 1), recOffset c 0⟩ ∧
        (∀ r ∈ g.used.getLast?, r.length = capacity c) ∨
      ∃ r, g.used.getLast? = some r ∧ adr = ⟨c.ring.step (pageAfter c b pre) g.used.length, recOffset c r.length⟩ ∧
        0 < r.length ∧ r.length < c.recordsPerPage) →
      Writing c (s₂.setRecAdrWr adr).logFs (pageAfter c b pre) g.used := by
    intro adr hadr
    refine ⟨?_, ?_, rfl, hadr⟩
    · rw [if_neg hused]
      rfl
    · rw [if_neg hused]
      rfl
  have hgetLast : g.used.getLast? = some recs := by rw [hus, List.getLast?_concat]
  have hrecs : recs.length ≤ capacity c := hfilled.le recs (by rw [hus]; simp)
  rcases hplace with ⟨hroom, rfl⟩ | ⟨hfull, u, rfl, hu⟩
  · refine ⟨g.spare, hv, fun hcap => hwriting _ (.inr ⟨recs, hgetLast, rfl, ?_, hroom⟩), ⟨rfl, rfl, rfl, rfl⟩, .inl rfl, .of_same rfl rfl⟩
    apply List.length_pos_iff.mpr
    rintro rfl
    exact hnonempty hcap (by rw [hus]; simp)
  · have hcap : ∀ r ∈ g.used.getLast?, r.length = capacity c := by
      intro r hr
      rw [hgetLast, Option.mem_some_iff] at hr
      have := capacity_le (c := c)
      rw [← hr]
      omega
    rw [PageRing.next_step] at hu ⊢
    rcases hu with ⟨rfl, -⟩ | ⟨rfl, -, hfile, hfree⟩
    · exact ⟨g.spare, hv, fun _ => hwriting _ (.inl ⟨by rw [recOffset_zero], hcap⟩), ⟨rfl, rfl, rfl, rfl⟩, .inl rfl, .of_same rfl rfl⟩
    · rcases hcase with ⟨-, hwm⟩ | ⟨e, spare, hspare, rfl⟩
      · exact absurd hwm hfile
      · cases e with
        | true => exact absurd rfl hfree
        | false =>
          have hv'' : Volume c s.flash b (layout (pre ++ g.holding g.used (false :: spare) :: post)) := by
            rw [← hspare]
            exact hv
          have hve := hv''.edit_erase (x := s.flash.erase (c.ring.step (pageAfter c b pre) (g.used.length + 1))) onlyPage_erase holds_erase
          refine ⟨true :: spare, hve, fun _ => hwriting _ (.inl ⟨by rw [recOffset_zero], hcap⟩), ⟨rfl, rfl, rfl, rfl⟩, ?_, ?_⟩
          · exact .inr ⟨spare, hspare, rfl⟩
          · exact .put rfl rfl ⟨_, hve⟩

end openRecords

section openFile

variable {files : List StoredFile} {found : Bool}

theorem Holds.file_read (hh : Holds c s.flash p v) (hr : (logFsFileBlockRd p).Returns s true t) :
    v.marker = logFsMarkerFile := by
  by_contra hv
  exact absurd (hr.unique (hh.fileBlockRd_other hv)).1 (by decide)

theorem Volume.file_read (hv : Volume c s.flash b (layout files)) (hr : (logFsFileBlockRd p).Returns s true t) :
    ∃ pre g post, files = pre ++ g :: post ∧ p = pageAfter c b pre := by
  by_cases hp : c.ring.Mem p
  · obtain ⟨-, v, -, -, -, hh⟩ := hv.exists_view hp
    obtain ⟨pre, g, post, hfiles, hpage, -⟩ := hv.exists_file hp hh (hh.file_read hr)
    exact ⟨pre, g, post, hfiles, hpage⟩
  · have hh : Holds c s.flash p .free := hv.outside p hp
    exact absurd (hh.file_read hr) (by decide)

theorem open_cases (hl : c.type = .linear) (h : Image c s.flash b (pre ++ g :: post)) (hm : Mounted c s.logFs b (pre ++ g :: post))
    (hfits : Fits c (pageAfter c b pre) g.used) (hnonempty : 0 < capacity c → [] ∉ g.used)
    (hfile : file.startPage = pageAfter c b pre) (hr : (logFsOpen c file).Returns s err t) :
    err = .none ∧ ∃ u spare, Described s u (pageAfter c b pre) g.timeStamp ∧ Reopened c u t b pre g post spare := by
  have hv := h.volume
  have hmem : c.ring.Mem (pageAfter c b pre) := pageAfter_mem
  have hfilled : Filled c g.used := h.filled g (by simp)
  have hlen : (recordPages 0 g.used).length = g.used.length := length_recordPages
  have hcount : g.body.length = g.used.length + g.spare.length := by
    rw [StoredFile.body, List.length_append, hlen, List.length_map]
  obtain ⟨u, hu, hd⟩ := fileBlockRd_head hv.at_file
  rw [open_eq, hfile, hu.bind_iff, if_neg (by decide)] at hr
  have hvu : Volume c u.flash b (layout (pre ++ g :: post)) := by rwa [hd.flash]
  obtain ⟨pages, w, hw, hr⟩ := Prog.returns_bind.mp hr
  rcases recSearchPages_cases hvu (hd.mounted hm) hd.filePage hw with ⟨rfl, hbody, x, rfl⟩ | ⟨hbody, ⟨x, rfl⟩, rfl⟩
  · obtain ⟨rfl, rfl⟩ := Prog.returns_pure.mp hr
    refine ⟨rfl, u, g.spare, hd, hvu, fun _ => ?_, ⟨rfl, rfl, rfl, rfl⟩, .inl rfl, .of_same rfl rfl⟩
    have hused : g.used = [] := by
      apply List.eq_nil_of_length_eq_zero
      rw [hbody, List.length_nil] at hcount
      omega
    rw [hused]
    refine ⟨rfl, rfl, rfl, .inl ⟨?_, by simp⟩⟩
    rw [recOffset_zero, List.length_nil, Nat.zero_add, PageRing.step_one hmem]
    rfl
  · obtain ⟨n, hregion, hle, hn⟩ : ∃ n, Region c (pageAfter c b pre)
        (if pre ++ post = [] then boundEnd c (pageAfter c b pre) else c.ring.step (pageAfter c b pre) g.body.length) n ∧
        g.used.length ≤ n ∧ n ≤ g.body.length + 1 := by
      by_cases halone : pre ++ post = []
      · obtain ⟨n, hregion, hle⟩ := hfits
        refine ⟨n, by rwa [if_pos halone], hle, ?_⟩
        have hsize := hv.at_file.length
        obtain ⟨rfl, rfl⟩ := List.append_eq_nil_iff.mp halone
        rw [layout_append, layout_nil, List.append_nil, List.append_nil, StoredFile.pages, List.length_cons] at hsize
        rw [hsize]
        exact hregion.le
      · refine ⟨g.body.length, ?_, by omega, Nat.le_succ _⟩
        rw [if_neg halone]
        exact region_step hmem (List.length_pos_iff.mpr hbody) (Nat.le_of_lt (length_body_lt hv))
    have hopen : err = .none ∧ ∃ spare, Reopened c (u.setHeader x) t b pre g post spare := by
      by_cases hused : g.used = []
      · exact openRecords_blank hvu hused hbody hregion hn hr
      · exact openRecords_used hl hvu hfilled hnonempty hused hregion hle hn hr
    obtain ⟨rfl, spare, ho⟩ := hopen
    refine ⟨rfl, u.setHeader x, spare, ?_, ho⟩
    obtain ⟨y, rfl⟩ := hd
    exact ⟨x, rfl⟩

end openFile

end Lpc1788Libraries.DataManager

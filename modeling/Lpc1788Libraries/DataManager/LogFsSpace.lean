import Lpc1788Libraries.DataManager.LogFsReadBack

namespace Lpc1788Libraries.DataManager

open Lpc1788Libraries.Support NorFlash BoundedProgram

/-- The RECORD pages that `LOG_FS_CFG_MAX_PAGES` leaves to the file with the FILE page `page`. Where the bound passes the
end of the file system it comes to lie one page too far. -/
def boundPages (c : LogFsCfg) (page : ℕ) : ℕ :=
  if c.maxPages = 0 ∨ page = c.pageEnd ∧ c.maxPages = c.ring.size then c.ring.size - 1
  else if page + c.maxPages ≤ c.pageEnd then c.maxPages
  else (c.maxPages + 1) % c.ring.size

namespace LogStore

variable (c : LogFsCfg) (σ : LogStore)

/-- The FILE page that the pages of a file reach up to. -/
def limit (page : ℕ) : ℕ := (((σ.files.behind page).map LogEntry.place).or σ.files.places.head?).getD page

/-- The pages between the FILE page of a file and the next one. -/
def room (page : ℕ) : ℕ := c.ring.distance (c.ring.next page) (σ.limit page)

/-- The RECORD pages that a file can have. -/
def pageLimit (page : ℕ) : ℕ := min (σ.room c page) (boundPages c page)

end LogStore

variable {c : LogFsCfg} {σ : LogStore} {s t u : Sys} {f : Pages} {b p page q j k n : ℕ} {m : Option ℕ} {g x : StoredFile}
  {pre post stored : List StoredFile} {used : List (List Rec)} {hist : List (LogFsCall × LogFsAnswer)} {call : LogFsCall}
  {a : LogFsAnswer} {r : Bool} {e : LogFsEntry} {ts : LogFsTimeStamp} {data : List UInt8}

section bound

theorem size_eq : c.ring.size = c.pageEnd + 1 - c.pageStart := rfl

theorem pageNext_inv (h : (logFsPageNext c page).Returns s q t) : q = if page = c.pageEnd then c.pageStart else (page + 1) % 0x10000 := by
  simp only [logFsPageNext, dbgAssertPage, Prog.check_bind_returns, Prog.returns_pure] at h
  exact h.2.1.symm

theorem boundEnd_step (hp : c.ring.Mem p) (hb : ¬ (c.maxPages = 0 ∨ p = c.pageEnd ∧ c.maxPages = c.ring.size)) :
    boundEnd c p = c.ring.step p (if p + c.maxPages ≤ c.pageEnd then c.maxPages else c.maxPages + 1) := by
  rw [not_or] at hb
  have h1 : c.pageStart ≤ p := hp.1
  have h2 : p ≤ c.pageEnd := hp.2
  have h3 := c.pageStart_lt
  have h4 := c.pageEnd_maxPages_lt
  have h5 := c.maxPages_le
  have hsize := size_eq (c := c)
  have hstart : c.ring.lo = c.pageStart := rfl
  have hmod : (p + c.maxPages) % 0x10000 = p + c.maxPages := Nat.mod_eq_of_lt (by omega)
  unfold boundEnd PageRing.step
  rw [if_pos hb.1, hmod, hstart]
  by_cases hwrap : p + c.maxPages ≤ c.pageEnd
  · rw [if_neg (Nat.not_lt.mpr hwrap), if_pos hwrap, Nat.mod_eq_of_lt (by omega)]
    omega
  · rw [if_pos (Nat.lt_of_not_le hwrap), if_neg hwrap]
    have hlt : p - c.pageStart + (c.maxPages + 1) < 2 * c.ring.size := by omega
    rw [Nat.mod_eq_sub_mod (by omega), Nat.mod_eq_of_lt (by omega)]
    omega

theorem isBoundPage_step (hp : c.ring.Mem p) (hfile : s.filePage = p) (hj : j + 1 < c.ring.size)
    (h : (isBoundPage c (c.ring.step p (j + 1))).Returns s r t) : r = decide (j = boundPages c p) := by
  have hsize := size_eq (c := c)
  have hmem : c.ring.Mem (c.ring.step p (j + 1)) := PageRing.step_mem
  by_cases hb : c.ring.Mem (boundEnd c p)
  · have hret : (isBoundPage c (c.ring.step p (j + 1))).Returns s _ s := isBoundPage_returns (hfile ▸ hp) (hfile.symm ▸ hb)
    rw [hfile] at hret
    rw [← (hret.unique h).1, decide_eq_decide]
    by_cases hall : c.maxPages = 0 ∨ p = c.pageEnd ∧ c.maxPages = c.ring.size
    · rcases hall with h0 | ⟨rfl, hmax⟩
      · have hend : c.ring.next (boundEnd c p) = c.ring.step p 0 := by
          rw [boundEnd, if_neg (not_not.mpr h0), PageRing.next_prev hp, PageRing.step_zero hp]
        rw [hend, PageRing.step_inj hj PageRing.size_pos, boundPages, if_pos (.inl h0)]
        omega
      · have hlt := hb.2
        have h4 := c.pageEnd_maxPages_lt
        have hmod : (c.pageEnd + c.maxPages) % 0x10000 = c.pageEnd + c.maxPages := Nat.mod_eq_of_lt (by omega)
        have hhi : c.ring.hi = c.pageEnd := rfl
        rw [boundEnd, if_pos (by omega), hmod, if_pos (by omega), hhi] at hlt
        omega
    · rw [boundEnd_step hp hall, PageRing.next_step, boundPages, if_neg hall]
      have h5 := c.maxPages_le
      rw [not_or] at hall
      have h2 : p ≤ c.pageEnd := hp.2
      have h1 : c.pageStart ≤ p := hp.1
      split_ifs with hwrap
      · by_cases hround : c.maxPages + 1 < c.ring.size
        · rw [PageRing.step_inj hj hround]
          omega
        · rw [show c.maxPages + 1 = 0 + c.ring.size by omega, PageRing.step_add_size, PageRing.step_inj hj PageRing.size_pos]
          omega
      · have hmod := Nat.mod_lt (c.maxPages + 1) (PageRing.size_pos (r := c.ring))
        have hstep : c.ring.step p (c.maxPages + 1 + 1) = c.ring.step p ((c.maxPages + 1) % c.ring.size + 1) := by
          rw [← PageRing.next_step (k := (c.maxPages + 1) % c.ring.size), PageRing.step_mod, PageRing.next_step]
        rw [hstep]
        by_cases hround : (c.maxPages + 1) % c.ring.size + 1 < c.ring.size
        · rw [PageRing.step_inj hj hround]
          omega
        · rw [show (c.maxPages + 1) % c.ring.size + 1 = 0 + c.ring.size by omega, PageRing.step_add_size,
            PageRing.step_inj hj PageRing.size_pos]
          omega
  · have hlast : p = c.pageEnd ∧ c.maxPages = c.ring.size := by
      by_contra hne
      exact hb (boundEnd_mem hp hne)
    obtain ⟨stop, u, hstop, h⟩ := Prog.returns_bind.mp h
    obtain ⟨next, v, hnext, h⟩ := Prog.returns_bind.mp h
    obtain ⟨rfl, -⟩ := Prog.returns_pure.mp h
    obtain ⟨rfl, -⟩ := (boundEnd_returns (hfile ▸ hp)).unique hstop
    have h4 := c.pageEnd_maxPages_lt
    have hhi : c.ring.step p (j + 1) ≤ c.pageEnd := hmem.2
    have hmod : (c.pageEnd + c.maxPages) % 0x10000 = c.pageEnd + c.maxPages := Nat.mod_eq_of_lt (by omega)
    have hpos := PageRing.size_pos (r := c.ring)
    have hend : boundEnd c p = c.pageEnd + 1 := by
      rw [boundEnd, if_pos (by omega), hlast.1, hmod, if_pos (by omega)]
      omega
    have hpages : boundPages c p = c.ring.size - 1 := if_pos (.inr hlast)
    rw [decide_eq_decide, pageNext_inv hnext, hfile, hpages, hend, if_neg (by omega), Nat.mod_eq_of_lt (by omega)]
    omega

end bound

section room

theorem limit_split {info : Option ℕ} {handle : Option (ℕ × Option ℕ)} (hv : Volume c f b (layout (pre ++ g :: post))) :
    LogStore.limit ⟨entries c b (pre ++ g :: post), info, handle⟩ (pageAfter c b pre) =
      c.ring.step (pageAfter c b pre) g.pages.length := by
  have hnodup := nodup_places hv
  have hsnoc : c.ring.step (pageAfter c b pre) g.pages.length = pageAfter c b (pre ++ [g]) := pageAfter_snoc.symm
  rw [entries_split hv.base] at hnodup
  have hbehind (l : List LogFsEntry) :
      RecordLog.behind (pageAfter c b pre) (entries c b pre ++ g.entry (pageAfter c b pre) :: l) = l.head? :=
    RecordLog.behind_split (e := g.entry (pageAfter c b pre)) (RecordLog.nodup_split hnodup).1
  rw [LogStore.limit, hsnoc]
  simp only
  rw [entries_split hv.base, hbehind]
  cases post with
  | nil =>
    have hround : pageAfter c b (pre ++ [g]) = b := by
      rw [pageAfter, hv.length, PageRing.step_size hv.base]
    rw [hround, entries, List.head?_nil, Option.map_none, Option.none_or]
    cases pre with
    | nil => exact PageRing.step_zero hv.base
    | cons h pre => rfl
  | cons h post => rfl

theorem room_split (info : Option ℕ) (handle : Option (ℕ × Option ℕ)) (hv : Volume c f b (layout (pre ++ g :: post))) :
    LogStore.room c ⟨entries c b (pre ++ g :: post), info, handle⟩ (pageAfter c b pre) = g.used.length + g.spare.length := by
  have hlen := hv.at_file.length
  rw [List.length_append, length_pages] at hlen
  rw [LogStore.room, limit_split hv, length_pages, ← PageRing.step_next pageAfter_mem,
    PageRing.distance_step (PageRing.next_mem pageAfter_mem) (by omega)]

theorem length_flatten_le (h : ∀ recs ∈ used, recs.length ≤ n) : used.flatten.length ≤ used.length * n := by
  induction used with
  | nil => exact Nat.zero_le _
  | cons recs used ih =>
    have hrecs := h recs (List.mem_cons_self ..)
    have hused := ih fun x hx => h x (List.mem_cons_of_mem _ hx)
    rw [List.flatten_cons, List.length_append, List.length_cons, Nat.add_mul, Nat.one_mul]
    omega

/-- The number of pages that hold `n` records. -/
def pagesFor (c : LogFsCfg) (n : ℕ) : ℕ := (n + capacity c - 1) / capacity c

theorem pagesFor_le (hcap : 0 < capacity c) : pagesFor c n ≤ k ↔ n ≤ capacity c * k := by
  unfold pagesFor
  rw [Nat.div_le_iff_le_mul_add_pred hcap]
  omega

theorem Filled.pages (hcap : 0 < capacity c) (h : Filled c used) (hne : [] ∉ used) : pagesFor c used.flatten.length = used.length := by
  apply Nat.le_antisymm
  · rw [pagesFor_le hcap, Nat.mul_comm]
    exact length_flatten_le h.le
  · rcases List.eq_nil_or_concat used with rfl | ⟨us, recs, rfl⟩
    · exact Nat.zero_le _
    · rw [List.concat_eq_append] at *
      have hpos : 0 < recs.length := by
        apply Nat.pos_of_ne_zero
        intro h0
        rw [List.length_eq_zero_iff.mp h0] at hne
        exact hne (by simp)
      rw [List.length_append, List.length_singleton, Nat.succ_le_iff, ← Nat.not_le, pagesFor_le hcap, List.flatten_append,
        List.length_append, h.flatten_length rfl, List.flatten_singleton, Nat.mul_comm]
      omega

end room

section records

theorem isBoundPage_spare (image : Image c s.flash b (pre ++ g :: post)) (hmem : c.ring.Mem s.filePage)
    (hfile : c.maxPages = 0 → s.filePage ∈ (entries c b (pre ++ g :: post)).places)
    (hpage : c.maxPages ≠ 0 → s.filePage = pageAfter c b pre) (hspare : g.spare ≠ [])
    (h : (isBoundPage c (c.ring.step (pageAfter c b pre) (g.used.length + 1))).Returns s r t) :
    r = decide (g.used.length = boundPages c (pageAfter c b pre)) := by
  have hlen := image.volume.at_file.length
  have hpos := List.length_pos_iff.mpr hspare
  rw [List.length_append, length_pages] at hlen
  by_cases h0 : c.maxPages = 0
  · obtain ⟨xs, x, ys, hstored, hx⟩ := (mem_places image.volume.base).mp (hfile h0)
    obtain ⟨e, rest, hrest⟩ := List.exists_cons_of_ne_nil hspare
    have hv : Volume c s.flash b (layout (pre ++ g.holding g.used (e :: rest) :: post)) := by
      rw [← hrest]
      exact image.volume
    have hvx := image.volume
    rw [hstored] at hvx
    have hmarker : s.flash s.filePage 0 = logFsMarkerFile := by
      rw [hx]
      exact hvx.at_file.ahead.1.marker_eq
    have hne : c.ring.step (pageAfter c b pre) (g.used.length + 1) ≠ s.filePage := by
      intro heq
      apply spareView_not_file e
      rw [← hv.spare_page.marker_eq, heq, hmarker]
    have hend : boundEnd c s.filePage = c.ring.prev s.filePage := by rw [boundEnd, if_neg (not_not.mpr h0)]
    have hret : (isBoundPage c (c.ring.step (pageAfter c b pre) (g.used.length + 1))).Returns s _ s :=
      isBoundPage_returns hmem (hend ▸ PageRing.prev_mem hmem)
    rw [hend, PageRing.next_prev hmem] at hret
    have hpages : boundPages c (pageAfter c b pre) = c.ring.size - 1 := if_pos (.inl h0)
    rw [← (hret.unique h).1, hpages, decide_eq_decide]
    constructor
    · intro heq
      exact absurd heq hne
    · intro heq
      omega
  · exact isBoundPage_step pageAfter_mem (hpage h0) (by omega) h

theorem Represents.recordWr_space {err : LogFsErr} (hl : c.type = .linear) (hcap : 0 < capacity c) (h : Represents c σ s)
    (hh : σ.handle = some (page, m)) (hi : σ.info = some q) (hq : c.maxPages ≠ 0 → q = page)
    (hfits : σ.records.length ≤ capacity c * boundPages c page) (hr : (logFsRecordWr c data).Returns s err t) :
    err = .none ∧ σ.records.length < capacity c * σ.pageLimit c page ∨
      err = .full ∧ σ.records.length = capacity c * σ.pageLimit c page ∧ t = s ∨
        err = .writeFail ∧ capacity c < c.recordsPerPage := by
  obtain ⟨b, pre, g, post, info, rfl, rfl, image, mounted, kept, info_page, hw, hmem, -⟩ := h.handle hh
  obtain rfl : info = some q := hi
  obtain ⟨hfile, hplace⟩ := info_page q rfl
  have hfilled : Filled c g.used := image.filled g (by simp)
  have hnonempty := (kept_split.mp kept).2.1.1
  have hbound : ∀ {r : Bool}, g.spare ≠ [] →
      (isBoundPage c (c.ring.step (pageAfter c b pre) (g.used.length + 1))).Returns s r s →
        r = decide (g.used.length = boundPages c (pageAfter c b pre)) :=
    fun hspare => isBoundPage_spare image hmem (fun _ => hfile ▸ hplace) (fun h0 => hfile.trans (hq h0)) hspare
  rw [records_eq _ _ image.volume] at hfits ⊢
  rw [LogStore.pageLimit, room_split _ _ image.volume]
  have hle : g.used.length ≤ boundPages c (pageAfter c b pre) := by
    rw [← hfilled.pages hcap hnonempty, pagesFor_le hcap]
    exact hfits
  rcases recordWr_cases hl image hw hr with ⟨rfl, rfl, hfull⟩ | ⟨used, spare, happ⟩
  · right
    left
    refine ⟨rfl, ?_, rfl⟩
    have hmin : min (g.used.length + g.spare.length) (boundPages c (pageAfter c b pre)) = g.used.length := by
      by_cases hspare : g.spare = []
      · rw [hspare, List.length_nil, Nat.add_zero, Nat.min_eq_left hle]
      · rcases hfull.reached with hnil | hat
        · exact absurd hnil hspare
        · have := of_decide_eq_true (hbound hspare hat).symm
          rw [← this, Nat.min_eq_right (Nat.le_add_right _ _)]
    rw [hmin, hw.full_pages hfilled hfull.cursor, Nat.mul_comm]
  · rcases happ.records with ⟨rfl, hrecs⟩ | ⟨rfl, hlt, -⟩
    · left
      refine ⟨rfl, ?_⟩
      have hlen := length_holding image.volume happ.image.volume
      have hfilled' : Filled c used := happ.image.filled (g.holding used spare) (by simp)
      have hused : used.length ≤ min (g.used.length + g.spare.length) (boundPages c (pageAfter c b pre)) := by
        rw [length_pages, length_pages] at hlen
        change used.length + spare.length + 1 = _ at hlen
        rcases happ.pages with hsame | ⟨hmore, hnot⟩
        · omega
        · have hspare : g.spare ≠ [] := by
            intro hnil
            rw [hnil, List.length_nil] at hlen
            omega
          have := of_decide_eq_false (hbound hspare hnot).symm
          omega
      have hrecords := length_flatten_le hfilled'.le
      have hmul := Nat.mul_le_mul_right (capacity c) hused
      rw [hrecs, List.length_append, List.length_singleton] at hrecords
      rw [Nat.mul_comm]
      omega
    · exact .inr (.inr ⟨rfl, hlt⟩)

end records

section runs

theorem mem_entries (hb : c.ring.Mem b) (he : e ∈ entries c b stored) :
    ∃ pre g post, stored = pre ++ g :: post ∧ e = g.entry (pageAfter c b pre) := by
  induction stored generalizing b with
  | nil => exact absurd he List.not_mem_nil
  | cons g stored ih =>
    rcases List.mem_cons.mp he with rfl | he
    · exact ⟨[], g, stored, rfl, by rw [pageAfter, layout_nil, List.length_nil, PageRing.step_zero hb]; rfl⟩
    · obtain ⟨pre, x, post, rfl, rfl⟩ := ih PageRing.step_mem he
      exact ⟨g :: pre, x, post, rfl, by rw [pageAfter_cons]⟩

theorem Represents.in_room (h : Represents c σ s) (he : e ∈ σ.files) : e.records.length ≤ capacity c * σ.room c e.place := by
  cases h with
  | blank flash log => exact absurd he List.not_mem_nil
  | @stored b stored info handle _ image mounted kept info_page opened =>
    obtain ⟨pre, g, post, rfl, rfl⟩ := mem_entries image.volume.base he
    have hle := length_flatten_le (image.filled g (by simp)).le
    have hroom := room_split info handle image.volume
    have hmul := Nat.mul_le_mul_right (capacity c) (Nat.le_add_right g.used.length g.spare.length)
    change g.used.flatten.length ≤ capacity c * LogStore.room c _ (pageAfter c b pre)
    rw [hroom, Nat.mul_comm]
    omega

theorem room_lt (c : LogFsCfg) (σ : LogStore) (page : ℕ) : σ.room c page < c.ring.size := Nat.mod_lt _ PageRing.size_pos

theorem noticed_files {e : Option LogFsEntry} : (σ.noticed e).files = σ.files := by
  cases e <;> rfl

theorem moved_files {k : Option ℕ} : (σ.moved k).files = σ.files := by
  unfold LogStore.moved
  split <;> rfl

theorem Represents.records_open (h : Represents c σ s) (he : e ∈ σ.files) (hh : σ.handle = some (e.place, m)) : σ.records = e.records := by
  rw [LogStore.records, hh]
  exact RecordLog.recordsAt_mem h.nodup he

theorem Run.bounded (hl : c.type = .linear) (hcap : 0 < capacity c) (h : Run c hist σ s) :
    ∀ e ∈ σ.files, e.records.length ≤ capacity c * boundPages c e.place := by
  by_cases h0 : c.maxPages = 0
  · intro e he
    have hpages : boundPages c e.place = c.ring.size - 1 := if_pos (.inl h0)
    have hmul := Nat.mul_le_mul_left (capacity c) (Nat.le_sub_one_of_lt (room_lt c σ e.place))
    rw [hpages]
    exact Nat.le_trans ((h.represents hl hcap).in_room he) hmul
  · induction h with
    | init h => exact fun e he => absurd he List.not_mem_nil
    | @call hist σ s t call a hs hp h ih =>
      cases call with
      | create ts =>
        intro e he
        simp only [LogStore.after] at he
        split at he
        · rcases List.mem_append.mp he with he | he
          · exact ih e he
          · rw [List.mem_singleton.mp he]
            exact Nat.zero_le _
        · exact ih e he
      | fileDelete file =>
        intro e he
        simp only [LogStore.after] at he
        split at he
        · exact ih e (List.mem_of_mem_tail he)
        · exact ih e he
      | recordWr data =>
        obtain ⟨err, hr, rfl⟩ := Prog.returns_map.mp h
        obtain ⟨page, k, hh, hi⟩ := hp
        have hrep := hs.represents hl hcap
        rw [after_recordWr hh]
        split
        · rename_i hnone
          obtain rfl : err = .none := hnone
          intro x hx
          obtain ⟨e, he, rfl⟩ := List.mem_map.mp hx
          have hold := ih e he
          by_cases hpage : e.place = page
          · subst hpage
            have hrecords := hrep.records_open he hh
            rcases hrep.recordWr_space hl hcap hh (hi h0) (fun _ => rfl) (hrecords ▸ hold) hr with ⟨-, hlt⟩ | ⟨hfull, -⟩ | ⟨hfail, -⟩
            · have hmul := Nat.mul_le_mul_left (capacity c) (Nat.min_le_right (σ.room c e.place) (boundPages c e.place))
              rw [hrecords, LogStore.pageLimit] at hlt
              rw [if_pos rfl, List.length_append, List.length_singleton]
              simp only
              omega
            · exact absurd hfull (by decide)
            · exact absurd hfail (by decide)
          · rw [if_neg hpage]
            exact hold
        · exact ih
      | init => exact ih
      | «open» file =>
        intro e he
        simp only [LogStore.after] at he
        split at he <;> exact ih e he
      | fileFindFirst | fileFindLast | fileFindNext | fileFindPrevious =>
        intro e he
        rw [LogStore.after, noticed_files] at he
        exact ih e he
      | recordRdFirst n | recordRdLast n | recordRdNext n | recordRdPrevious n =>
        intro e he
        rw [LogStore.after, moved_files] at he
        exact ih e he

theorem Run.in_limit (hl : c.type = .linear) (hcap : 0 < capacity c) (h : Run c hist σ s) (he : e ∈ σ.files) :
    e.records.length ≤ capacity c * σ.pageLimit c e.place := by
  rw [LogStore.pageLimit, ← Nat.mul_min_mul_left]
  exact Nat.le_min.mpr ⟨(h.represents hl hcap).in_room he, h.bounded hl hcap e he⟩

/-- A file never has more records than the pages up to the next file and up to its bound can hold. -/
theorem run_within_limit (hl : c.type = .linear) (hcap : 0 < capacity c) (h : Run c hist σ s) :
    ∀ e ∈ σ.files, e.records.length ≤ capacity c * σ.pageLimit c e.place := by
  intro e he
  exact h.in_limit hl hcap he

theorem Represents.open_file (h : Represents c σ s) (hh : σ.handle = some (page, m)) : ∃ e ∈ σ.files, e.place = page := by
  obtain ⟨b, pre, g, post, info, rfl, rfl, image, -, -, -, -, -, -⟩ := h.handle hh
  refine ⟨g.entry (pageAfter c b pre), ?_, rfl⟩
  rw [entries_split image.volume.base]
  exact List.mem_append_right _ (List.mem_cons_self ..)

theorem Run.fills (hl : c.type = .linear) (hcap : 0 < capacity c) (hc : capacity c = c.recordsPerPage) (hmax : c.maxPages ≠ c.ring.size)
    (ds : List (List UInt8)) (h : Run c hist σ s) (hh : σ.handle = some (page, m)) (hi : σ.info = some q)
    (hq : c.maxPages ≠ 0 → q = page) (hn : σ.records.length + n = capacity c * σ.pageLimit c page) :
    ∃ t, (logFsCalls c (ds.map .recordWr)).Returns s
      (List.replicate (min ds.length n) (.ofErr .none) ++ List.replicate (ds.length - n) (.ofErr .full)) t := by
  induction ds generalizing hist σ s n with
  | nil => exact ⟨s, by rw [List.length_nil, Nat.zero_min, Nat.zero_sub]; exact calls_nil⟩
  | cons d ds ih =>
    have hp : σ.Permitted c (.recordWr d) := ⟨page, m, hh, fun h0 => by rw [hi, hq h0]⟩
    have hrep := h.represents hl hcap
    obtain ⟨a, t, ht⟩ := hrep.terminates _ hl (fun _ => hmax) hp
    obtain ⟨err, hr, rfl⟩ := Prog.returns_map.mp ht
    have hrun := h.call (.recordWr d) hp ht
    have hfits : σ.records.length ≤ capacity c * boundPages c page := by
      have hmul := Nat.mul_le_mul_left (capacity c) (Nat.min_le_right (σ.room c page) (boundPages c page))
      rw [LogStore.pageLimit] at hn
      omega
    rw [after_recordWr hh] at hrun
    rcases hrep.recordWr_space hl hcap hh hi hq hfits hr with ⟨rfl, hlt⟩ | ⟨rfl, heq, -⟩ | ⟨-, hlt⟩
    · obtain ⟨n, rfl⟩ : ∃ k, n = k + 1 := ⟨n - 1, by omega⟩
      let σ' : LogStore := { σ with files := σ.files.append page (recordData c.recDataSize d) }
      have hrun : Run c ((.recordWr d, .ofErr .none) :: hist) σ' t := hrun
      have hrecords : σ'.records = σ.records ++ [recordData c.recDataSize d] := by
        obtain ⟨e, he, rfl⟩ := hrep.open_file hh
        have hrecords : σ.records = σ.files.recordsAt e.place := by rw [LogStore.records, hh]
        have hrecords' : σ'.records = σ'.files.recordsAt e.place := by simp only [LogStore.records, σ', hh]
        rw [hrecords, hrecords']
        exact RecordLog.recordsAt_appended hrep.nodup he
      have hlimit : σ'.pageLimit c page = σ.pageLimit c page := by
        have hlimit : σ'.limit page = σ.limit page := by
          rw [LogStore.limit, RecordLog.behind_appended, RecordLog.places_appended]
          rfl
        rw [LogStore.pageLimit, LogStore.room, hlimit]
        rfl
      obtain ⟨u, hu⟩ := ih (n := n) hrun hh hi (by rw [hlimit, hrecords, List.length_append, List.length_singleton]; omega)
      refine ⟨u, ?_⟩
      have hmin : min (ds.length + 1) (n + 1) = min ds.length n + 1 := Nat.succ_min_succ ..
      rw [List.length_cons, hmin, List.replicate_succ, Nat.add_sub_add_right]
      exact calls_cons ht hu
    · obtain rfl : n = 0 := by omega
      obtain ⟨u, hu⟩ := ih (n := 0) hrun hh hi hn
      refine ⟨u, ?_⟩
      rw [Nat.min_zero, Nat.sub_zero] at hu ⊢
      exact calls_cons ht hu
    · omega

theorem run_within_limit_example : ∃ page hist s, Run reclaimCfg hist (twoRecords page) s ∧
    2 ≤ capacity reclaimCfg * (twoRecords page).pageLimit reclaimCfg page := by
  obtain ⟨page, hist, s, h⟩ := twoRecords_run
  exact ⟨page, hist, s, h, run_within_limit rfl (by decide) h _ (List.mem_singleton_self _)⟩

/-- Records are written until the file is at its limit, and from then on it is full. -/
theorem run_fill (hl : c.type = .linear) (hcap : 0 < capacity c) (hc : capacity c = c.recordsPerPage) (hmax : c.maxPages ≠ c.ring.size)
    (ds : List (List UInt8)) (h : Run c hist σ s) (hh : σ.handle = some (page, m)) (hi : σ.info = some q)
    (hq : c.maxPages ≠ 0 → q = page) (hn : n = capacity c * σ.pageLimit c page - σ.records.length) :
    ∃ t, (logFsCalls c (ds.map .recordWr)).Returns s
      (List.replicate (min ds.length n) (.ofErr .none) ++ List.replicate (ds.length - n) (.ofErr .full)) t := by
  have hrep := h.represents hl hcap
  obtain ⟨e, he, rfl⟩ := hrep.open_file hh
  have hle := h.in_limit hl hcap he
  rw [← hrep.records_open he hh] at hle
  exact h.fills hl hcap hc hmax ds hh hi hq (by omega)

theorem run_fill_example : ∃ page hist s n t, Run reclaimCfg hist (twoRecords page) s ∧
    (logFsCalls reclaimCfg (List.replicate 30 (.recordWr [3]))).Returns s
      (List.replicate (min 30 n) (.ofErr .none) ++ List.replicate (30 - n) (.ofErr .full)) t := by
  obtain ⟨page, hist, s, h⟩ := twoRecords_run
  obtain ⟨t, ht⟩ := run_fill rfl (by decide) (by decide) (by decide) (List.replicate 30 [3]) h rfl rfl (fun h0 => absurd rfl h0) rfl
  rw [List.length_replicate, List.map_replicate] at ht
  exact ⟨page, hist, s, _, t, h, ht⟩

end runs

section create

theorem used_before_spare (hv : Volume c f b (layout (pre ++ [g]))) (hspare : 2 ≤ g.spare.length)
    (hstored : pre ++ [g] = stored ++ x :: post) (hk : k ≤ x.used.length) :
    c.ring.step (pageAfter c b stored) k ≠ c.ring.step (pageAfter c b pre) (g.used.length + 1) ∧
      c.ring.step (pageAfter c b stored) k ≠ c.ring.step (pageAfter c b pre) (g.used.length + 2) := by
  have hlen := hv.length
  rw [layout_append, layout_single, List.length_append, length_pages] at hlen
  have hbefore : (layout stored).length + k < (layout pre).length + (g.used.length + 1) := by
    rcases List.eq_nil_or_concat post with rfl | ⟨ys, y, rfl⟩
    · obtain ⟨rfl, rfl⟩ := snoc_inj hstored
      omega
    · rw [List.concat_eq_append] at hstored
      obtain ⟨rfl, rfl⟩ := snoc_inj (hstored.trans (by simp : stored ++ x :: (ys ++ [y]) = (stored ++ x :: ys) ++ [y]))
      rw [layout_append, layout_cons, List.length_append, List.length_append, length_pages]
      omega
  rw [pageAfter, pageAfter, PageRing.step_step, PageRing.step_step, PageRing.step_step, ne_eq, ne_eq,
    PageRing.step_inj (by omega) (by omega), PageRing.step_inj (by omega) (by omega)]
  omega

theorem Represents.create_space {err : LogFsErr} {files : RecordLog ℕ LogFsTimeStamp Rec} (hcap : 0 < capacity c) (h : Represents c σ s)
    (hfiles : σ.files = files ++ [e]) (hr : (logFsCreate c ts).Returns s err t) :
    (σ.room c e.place < pagesFor c e.records.length + 2 ∧ err = .full ∧ SameFlash s t) ∨
      (pagesFor c e.records.length + 2 ≤ σ.room c e.place ∧ err = .none ∧
        t.filePage = c.ring.step e.place (pagesFor c e.records.length + 1) ∧ Holds c t.flash (c.ring.next t.filePage) .free ∧
        Passed (fun x => ∀ p, p ≠ t.filePage → p ≠ c.ring.next t.filePage → ∀ i, x p i = s.flash p i) s t) := by
  cases h with
  | blank flash log => exact absurd hfiles (by simp [LogStore.empty])
  | @stored b stored info handle _ image mounted kept info_page opened =>
    obtain ⟨pre, g, rfl⟩ := exists_newest image.volume.not_blank
    have hb := image.volume.base
    have hfiles : entries c b (pre ++ [g]) = files ++ [e] := hfiles
    rw [entries_split hb] at hfiles
    obtain ⟨-, rfl⟩ := snoc_inj hfiles
    have hfilled : Filled c g.used := image.filled g (by simp)
    have hpages : pagesFor c (g.entry (pageAfter c b pre)).records.length = g.used.length :=
      hfilled.pages hcap (kept_split.mp kept).2.1.1
    have hroom := room_split info handle image.volume
    have hplace : (g.entry (pageAfter c b pre)).place = pageAfter c b pre := rfl
    rw [hplace, hroom, hpages]
    by_cases hspace : g.spare.length < 2
    · obtain ⟨x, hx⟩ := create_full image.volume mounted hspace ts
      obtain ⟨rfl, rfl⟩ := hx.unique hr
      exact .inl ⟨by omega, rfl, rfl, rfl⟩
    · right
      obtain ⟨e, e', rest, hspare⟩ := exists_two (Nat.le_of_not_lt hspace)
      obtain ⟨u, x, hu, himage, hm, hlog, hpassed⟩ := create_mounted image mounted hspare ts
      obtain ⟨rfl, rfl⟩ := hu.unique hr
      have hfile : u.filePage = c.ring.step (pageAfter c b pre) (g.used.length + 1) := by
        rw [Sys.filePage, hlog, ← pageAfter_closed]
        rfl
      have hnew : c.ring.step b (layout (pre ++ [g.closed])).length = u.filePage := by
        rw [hfile, ← pageAfter_closed]
        rfl
      have hnext : c.ring.step b ((layout (pre ++ [g.closed])).length + 1) = c.ring.next u.filePage := by
        rw [← hnew, PageRing.next_step]
      refine ⟨by omega, rfl, hfile, ?_, hpassed.imp fun x hx p hp hp' => ?_⟩
      · have hv : Volume c u.flash b (layout ((pre ++ [g.closed]) ++
            (StoredFile.new s.logFs.filePageNrNext ts rest).holding [] (true :: rest) :: [])) := himage.volume
        have hfree := hv.spare_page
        rw [List.length_nil, PageRing.step_one pageAfter_mem, pageAfter_closed, ← hfile] at hfree
        exact hfree
      · exact hx.only p (hnew ▸ hp) (hnext ▸ hp')

/-- `log_fs_create` finds the first page behind the records of the newest file, and touches no page that holds a file or
records. -/
theorem run_create {files : RecordLog ℕ LogFsTimeStamp Rec} (hl : c.type = .linear) (hcap : 0 < capacity c) (h : Run c hist σ s)
    (hfiles : σ.files = files ++ [e]) (hr : (logFsCall c (.create ts)).Returns s a t) :
    (σ.room c e.place < pagesFor c e.records.length + 2 ∧ a = .ofErr .full ∧ SameFlash s t) ∨
      (pagesFor c e.records.length + 2 ≤ σ.room c e.place ∧ a = .ofErr .none ∧
        t.filePage = c.ring.step e.place (pagesFor c e.records.length + 1) ∧ Holds c t.flash (c.ring.next t.filePage) .free ∧
        Passed (fun x => ∀ p, p ≠ t.filePage → p ≠ c.ring.next t.filePage → ∀ i, x p i = s.flash p i) s t ∧
        ∀ e' ∈ σ.files, ∀ k ≤ pagesFor c e'.records.length,
          c.ring.step e'.place k ≠ t.filePage ∧ c.ring.step e'.place k ≠ c.ring.next t.filePage) := by
  have hrep := h.represents hl hcap
  obtain ⟨err, hcreate, rfl⟩ := Prog.returns_map.mp hr
  rcases hrep.create_space hcap hfiles hcreate with ⟨hlt, rfl, hsame⟩ | ⟨hle, rfl, hfile, hfree, hpassed⟩
  · exact .inl ⟨hlt, rfl, hsame⟩
  · refine .inr ⟨hle, rfl, hfile, hfree, hpassed, fun e' he' k hk => ?_⟩
    cases hrep with
    | blank flash log => exact absurd hfiles (by simp [LogStore.empty])
    | @stored b stored info handle _ image mounted kept info_page opened =>
      obtain ⟨pre, g, rfl⟩ := exists_newest image.volume.not_blank
      have hb := image.volume.base
      have hroom := room_split info handle image.volume
      have hfiles : entries c b (pre ++ [g]) = files ++ [e] := hfiles
      rw [entries_split hb] at hfiles
      obtain ⟨-, rfl⟩ := snoc_inj hfiles
      have hpages : ∀ {xs x ys}, pre ++ [g] = xs ++ x :: ys → pagesFor c x.used.flatten.length = x.used.length := by
        rintro xs x ys hsplit
        rw [hsplit] at image kept
        exact (image.filled x (by simp)).pages hcap (kept_split.mp kept).2.1.1
      obtain ⟨xs, x, ys, hsplit, rfl⟩ := mem_entries hb he'
      have hk : k ≤ pagesFor c x.used.flatten.length := hk
      have hle : pagesFor c g.used.flatten.length + 2 ≤ LogStore.room c _ (pageAfter c b pre) := hle
      have hfile : t.filePage = c.ring.step (pageAfter c b pre) (pagesFor c g.used.flatten.length + 1) := hfile
      rw [hpages hsplit] at hk
      rw [hroom, hpages rfl] at hle
      rw [hpages rfl] at hfile
      rw [hfile, PageRing.next_step]
      exact used_before_spare image.volume (by omega) hsplit hk

/-- Behind the page with the two records the new file gets a page, and the page after it is erased. -/
theorem run_create_example : ∃ page hist s t, Run reclaimCfg hist (twoRecords page) s ∧
    (logFsCall reclaimCfg (.create reclaimTime)).Returns s (.ofErr .none) t ∧ t.filePage = reclaimCfg.ring.step page 2 := by
  obtain ⟨page, hist, s, h⟩ := twoRecords_run
  have hrep := h.represents rfl (by decide)
  obtain ⟨a, t, ht⟩ := hrep.terminates (.create reclaimTime) rfl False.elim trivial
  obtain ⟨b, pre, -, -, -, -, hpage, -⟩ := hrep.handle rfl
  have hmem : reclaimCfg.ring.Mem page := hpage ▸ pageAfter_mem
  have hroom : ∀ p ≤ 4, (twoRecords p).room reclaimCfg p = 4 := by decide
  have hpages : pagesFor reclaimCfg 2 = 1 := by decide
  have hfiles : (twoRecords page).files = [] ++ (twoRecords page).files := rfl
  rcases run_create rfl (by decide) h hfiles ht with ⟨hlt, -⟩ | ⟨-, rfl, hfile, -⟩
  · have hlt : (twoRecords page).room reclaimCfg page < pagesFor reclaimCfg 2 + 2 := hlt
    rw [hroom page hmem.2, hpages] at hlt
    exact absurd hlt (by decide)
  · have hfile : t.filePage = reclaimCfg.ring.step page (pagesFor reclaimCfg 2 + 1) := hfile
    rw [hpages] at hfile
    exact ⟨page, hist, s, t, h, ht, hfile⟩

end create

end Lpc1788Libraries.DataManager

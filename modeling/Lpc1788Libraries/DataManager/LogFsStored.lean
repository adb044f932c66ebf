import Lpc1788Libraries.DataManager.LogFsWalk

namespace Lpc1788Libraries.DataManager

open Lpc1788Libraries.Support NorFlash BoundedProgram

/-- A file as its pages hold it: the records of its RECORD pages in the order of the pages, and the
pages behind them up to the next FILE page, which are erased (`true`) or BAD. -/
structure StoredFile where
  nr : ℕ
  timeStamp : LogFsTimeStamp
  used : List (List Rec)
  spare : List Bool

def recordPages : ℕ → List (List Rec) → List PageView
  | _, [] => []
  | i, recs :: used => .record i recs :: recordPages (i + 1) used

def spareView (erased : Bool) : PageView := if erased then .free else .bad

namespace StoredFile

def head (g : StoredFile) : PageView := .file g.nr g.timeStamp

def body (g : StoredFile) : List PageView := recordPages 0 g.used ++ g.spare.map spareView

def pages (g : StoredFile) : List PageView := g.head :: g.body

end StoredFile

def layout (files : List StoredFile) : List PageView := files.flatMap StoredFile.pages

/-- The files are numbered one after the other from `nr` on. -/
def NrFrom : ℕ → List StoredFile → Prop
  | _, [] => True
  | nr, g :: files => g.nr = nr ∧ NrFrom ((nr + 1) % 0x10000) files

variable (c : LogFsCfg)

/-- The number of records that are stored in one page. -/
def capacity : ℕ :=
  if c.recOffsetLast + c.recBlockSize < c.pageSize then c.recordsPerPage else c.recordsPerPage - 1

/-- Every RECORD page but the last one is full. -/
structure Filled (used : List (List Rec)) : Prop where
  full : ∀ recs ∈ used.dropLast, recs.length = capacity c
  le : ∀ recs ∈ used, recs.length ≤ capacity c

/-- The page that follows the files when the first of them starts at `b`. -/
def pageAfter (b : ℕ) (files : List StoredFile) : ℕ := c.ring.step b (layout files).length

/-- What `log_fs_file_find_first` and its kind tell of the files. -/
def listed : ℕ → List StoredFile → List LogFsFile
  | _, [] => []
  | b, g :: files => ⟨b, g.timeStamp⟩ :: listed (c.ring.step b g.pages.length) files

variable {c} {s t : Sys} {f : Pages} {b p q start stop i j k nr : ℕ} {v : PageView} {g h : StoredFile}
  {pre post files : List StoredFile} {used used' : List (List Rec)} {recs : List Rec} {spare : List Bool}

section views

@[simp] theorem length_recordPages : (recordPages i used).length = used.length := by
  induction used generalizing i with
  | nil => rfl
  | cons recs used ih => rw [recordPages, List.length_cons, List.length_cons, ih]

theorem recordPages_append : recordPages i (used ++ used') = recordPages i used ++ recordPages (i + used.length) used' := by
  induction used generalizing i with
  | nil => rfl
  | cons recs used ih =>
    rw [List.cons_append, recordPages, ih, recordPages, List.cons_append, List.length_cons]
    congr 3
    omega

theorem getElem?_recordPages (h : used[k]? = some recs) : (recordPages i used)[k]? = some (.record (i + k) recs) := by
  induction used generalizing i k with
  | nil => simp at h
  | cons x used ih =>
    cases k with
    | zero =>
      obtain rfl : x = recs := by simpa using h
      rfl
    | succ k =>
      rw [recordPages, List.getElem?_cons_succ, ih (by simpa using h)]
      congr 2
      omega

theorem take_recordPages : (recordPages i used).take j = recordPages i (used.take j) := by
  induction used generalizing i j with
  | nil => simp [recordPages]
  | cons recs used ih =>
    cases j with
    | zero => rfl
    | succ j => rw [recordPages, List.take_succ_cons, List.take_succ_cons, ih, recordPages]

theorem recordPages_marker (h : v ∈ recordPages i used) : v.marker = logFsMarkerRecord := by
  induction used generalizing i with
  | nil => simp [recordPages] at h
  | cons recs used ih =>
    rcases List.mem_cons.mp h with rfl | h
    · rfl
    · exact ih h

theorem spare_marker (h : v ∈ spare.map spareView) : v.marker = logFsMarkerFree ∨ v.marker = logFsMarkerBad := by
  obtain ⟨erased, -, rfl⟩ := List.mem_map.mp h
  cases erased with
  | false => exact .inr rfl
  | true => exact .inl rfl

theorem spare_not_file (h : v ∈ spare.map spareView) : v.marker ≠ logFsMarkerFile := by
  rcases spare_marker h with hm | hm <;> rw [hm] <;> decide

theorem spare_not_record (h : v ∈ spare.map spareView) : v.marker ≠ logFsMarkerRecord := by
  rcases spare_marker h with hm | hm <;> rw [hm] <;> decide

theorem body_not_file (h : v ∈ g.body) : v.marker ≠ logFsMarkerFile := by
  rcases List.mem_append.mp h with h | h
  · rw [recordPages_marker h]
    decide
  · exact spare_not_file h

@[simp] theorem length_pages : g.pages.length = g.used.length + g.spare.length + 1 := by
  simp [StoredFile.pages, StoredFile.body]

@[simp] theorem layout_nil : layout [] = [] := rfl

@[simp] theorem layout_cons : layout (g :: files) = g.pages ++ layout files := rfl

@[simp] theorem layout_append : layout (pre ++ post) = layout pre ++ layout post := List.flatMap_append ..

@[simp] theorem layout_single : layout [g] = g.pages := by simp

theorem layout_pos (h : files ≠ []) : 0 < (layout files).length := by
  cases files with
  | nil => exact absurd rfl h
  | cons g files =>
    rw [layout_cons, List.length_append, length_pages]
    omega

theorem pageAfter_mem : c.ring.Mem (pageAfter c b files) := PageRing.step_mem

theorem pageAfter_append : pageAfter c b (pre ++ post) = pageAfter c (pageAfter c b pre) post := by
  simp only [pageAfter, PageRing.step_step, layout_append, List.length_append]

theorem pageAfter_cons : pageAfter c b (g :: files) = pageAfter c (c.ring.step b g.pages.length) files := by
  rw [pageAfter, pageAfter, PageRing.step_step, layout_cons, List.length_append]

theorem pageAfter_snoc : pageAfter c b (pre ++ [g]) = c.ring.step (pageAfter c b pre) g.pages.length := by
  rw [pageAfter_append, pageAfter, layout_single]

theorem listed_append (hb : c.ring.Mem b) :
    listed c b (pre ++ post) = listed c b pre ++ listed c (pageAfter c b pre) post := by
  induction pre generalizing b with
  | nil => rw [pageAfter, layout_nil, List.length_nil, PageRing.step_zero hb]; rfl
  | cons g pre ih => rw [List.cons_append, listed, ih PageRing.step_mem, pageAfter_cons]; rfl

theorem nrFrom_append (hnr : nr < 0x10000) :
    NrFrom nr (pre ++ post) ↔ NrFrom nr pre ∧ NrFrom ((nr + pre.length) % 0x10000) post := by
  induction pre generalizing nr with
  | nil => simp [NrFrom, Nat.mod_eq_of_lt hnr]
  | cons g pre ih =>
    have hmod : ((nr + 1) % 0x10000 + pre.length) % 0x10000 = (nr + (pre.length + 1)) % 0x10000 := by
      rw [Nat.mod_add_mod, Nat.add_assoc, Nat.add_comm 1]
    simp only [List.cons_append, NrFrom, ih (Nat.mod_lt _ (by decide)), List.length_cons, hmod]
    rw [and_assoc]

theorem layout_file (h : (layout files)[k]? = some v) (hv : v.marker = logFsMarkerFile) :
    ∃ pre g post, files = pre ++ g :: post ∧ k = (layout pre).length ∧ v = g.head := by
  induction files generalizing k with
  | nil => simp at h
  | cons g files ih =>
    rw [layout_cons] at h
    by_cases hk : k < g.pages.length
    · rw [List.getElem?_append_left hk] at h
      cases k with
      | zero => exact ⟨[], g, files, rfl, rfl, by simpa [StoredFile.pages, eq_comm] using h⟩
      | succ k =>
        have hmem : v ∈ g.body := List.mem_of_getElem? (by simpa [StoredFile.pages] using h)
        exact absurd hv (body_not_file hmem)
    · rw [List.getElem?_append_right (Nat.le_of_not_lt hk)] at h
      obtain ⟨pre, g', post, rfl, hlen, rfl⟩ := ih h
      refine ⟨g :: pre, g', post, rfl, ?_, rfl⟩
      rw [layout_cons, List.length_append]
      omega

end views

section walking

theorem iterate_steps {go : ℕ → ℕ} (hp : c.ring.Mem p) (hgo : ∀ j < k, go (c.ring.step p j) = c.ring.step p (j + 1)) :
    go^[k] p = c.ring.step p k := by
  induction k with
  | zero => exact (PageRing.step_zero hp).symm
  | succ k ih =>
    rw [Function.iterate_succ_apply', ih fun j hj => hgo j (Nat.lt_succ_of_lt hj)]
    exact hgo k (Nat.lt_succ_self k)

theorem nextIn_all : c.ring.nextIn c.pageStart c.pageEnd p = c.ring.next p := by
  have hnext : c.ring.next p = if p = c.pageEnd then c.pageStart else p + 1 := rfl
  unfold PageRing.nextIn
  split_ifs with hend
  · rw [hnext, if_pos hend]
  · rfl

theorem trail_steps {go : ℕ → ℕ} {l : List PageView} (hp : c.ring.Mem p)
    (hgo : ∀ j < l.length, go (c.ring.step p j) = c.ring.step p (j + 1)) (h : Ahead c f (c.ring.next p) l) :
    Trail c f go p l := by
  apply (trail_next.mpr h).congr
  intro k hk
  rw [PageRing.next_iterate hp, hgo k hk, PageRing.next_step]

theorem findNext_file {rest : List PageView} (hv : Volume c s.flash p (g.pages ++ h.head :: rest))
    (hstart : c.ring.Mem start) (hstop : c.ring.Mem stop)
    (hgo : ∀ j < g.pages.length, c.ring.nextIn start stop (c.ring.step p j) = c.ring.step p (j + 1)) :
    (logFsPageHeaderFindNext c logFsMarkerFile start stop p).Returns s (c.ring.step p g.pages.length)
      (s.setHeader (sealedHeader logFsMarkerFile h.nr)) := by
  have hsize : g.pages.length + (rest.length + 1) = c.ring.size := by
    rw [← List.length_cons, ← List.length_append]
    exact hv.length
  have hbody : g.pages.length = g.body.length + 1 := List.length_cons
  apply findNext_checked hstart (fun _ => hstop) hv.base
  have hahead : Ahead c s.flash (c.ring.next p) (g.body ++ [h.head]) := by
    have hall : g.pages ++ h.head :: rest = (g.pages ++ [h.head]) ++ rest := by simp
    have h1 := hv.ahead
    rw [hall] at h1
    exact ((ahead_append hv.base).mp h1).1.2
  have htrail : Trail c s.flash (c.ring.nextIn start stop) p (g.body ++ [h.head]) := by
    apply trail_steps hv.base _ hahead
    rw [List.length_append, List.length_singleton, ← hbody]
    exact hgo
  rw [hbody, ← iterate_steps hv.base fun j hj => hgo j (by omega)]
  apply findNext_trail_found (.inl rfl) hstart hv.base htrail (fun x hx => body_not_file hx) rfl
  intro k hk
  rw [iterate_steps hv.base fun j hj => hgo j (by omega)]
  intro hback
  rw [← PageRing.step_zero hv.base, PageRing.step_step, PageRing.step_inj (by omega) (by omega)] at hback
  omega

theorem findNext_alone (hv : Volume c s.flash p g.pages) :
    ∃ x, (logFsPageHeaderFindNext c logFsMarkerFile c.pageStart c.pageEnd p).Returns s logFsPageInvalid (s.setHeader x) := by
  have hgo : ∀ j < c.ring.size, c.ring.nextIn c.pageStart c.pageEnd (c.ring.step p j) = c.ring.step p (j + 1) := by
    intro j _
    rw [nextIn_all, PageRing.next_step]
  have hsize : g.body.length + 1 = c.ring.size := by
    rw [← hv.length]
    exact List.length_cons.symm
  have htrail : Trail c s.flash (c.ring.nextIn c.pageStart c.pageEnd) p g.body := by
    apply trail_steps hv.base _ hv.ahead.2
    exact fun j hj => hgo j (by omega)
  have hlo : c.ring.Mem c.pageStart := PageRing.lo_mem
  have hback : (c.ring.nextIn c.pageStart c.pageEnd)^[g.body.length + 1] p = p := by
    rw [iterate_steps hv.base fun j hj => hgo j (by omega), hsize, PageRing.step_size hv.base]
  have hbefore : ∀ k < g.body.length, (c.ring.nextIn c.pageStart c.pageEnd)^[k + 1] p ≠ p := by
    intro k hk
    rw [iterate_steps hv.base fun j hj => hgo j (by omega)]
    intro hagain
    rw [← PageRing.step_zero hv.base, PageRing.step_step, PageRing.step_inj (by omega) (by omega)] at hagain
    omega
  obtain ⟨x, hx⟩ := findNext_trail_none (s := s) hlo hv.base htrail (fun x hx => body_not_file hx) hback hbefore
  exact ⟨x, findNext_checked hlo (fun _ => PageRing.hi_mem) hv.base hx⟩

end walking

end Lpc1788Libraries.DataManager

import Lpc1788Libraries.DataManager.LogFsStored

namespace Lpc1788Libraries.DataManager

open Lpc1788Libraries.Support NorFlash BoundedProgram

variable (c : LogFsCfg)

/-- The flash holds the files, oldest first, from the page `b` on. -/
structure Image (f : Pages) (b : ℕ) (files : List StoredFile) : Prop where
  volume : Volume c f b (layout files)
  numbered : ∃ nr < 0x10000, NrFrom nr files
  filled : ∀ g ∈ files, Filled c g.used

/-- The flash holds no file. -/
def Blank (f : Pages) : Prop := ∃ spare : List Bool, Volume c f c.pageStart (spare.map spareView)

/-- The descriptor tells where the oldest and the newest file start, and the next file number. -/
structure Mounted (l : LogFs) (b : ℕ) (files : List StoredFile) : Prop where
  first : l.filePageFirst = b
  last : ∀ pre g, files = pre ++ [g] → l.filePageLast = pageAfter c b pre ∧ l.filePageNrNext = (g.nr + 1) % 0x10000

structure Unmounted (l : LogFs) : Prop where
  first : l.filePageFirst = logFsPageInvalid
  last : l.filePageLast = logFsPageInvalid
  nr : l.filePageNrNext < 0x10000

variable {c} {s t : Sys} {f : Pages} {b p i j n nr : ℕ} {v : PageView} {g h : StoredFile}
  {pre post files : List StoredFile}

section layout

theorem length_le_layout : files.length ≤ (layout files).length := by
  induction files with
  | nil => exact Nat.le_refl 0
  | cons g files ih =>
    rw [layout_cons, List.length_append, length_pages, List.length_cons]
    omega

theorem layout_take_lt (hij : i < j) (hj : j ≤ files.length) :
    (layout (files.take i)).length < (layout (files.take j)).length := by
  have hsplit := List.take_append_drop i (files.take j)
  rw [List.take_take, Nat.min_eq_left (Nat.le_of_lt hij)] at hsplit
  have hne : (files.take j).drop i ≠ [] := by
    intro hnil
    have := congrArg List.length hnil
    rw [List.length_drop, List.length_take, List.length_nil] at this
    omega
  rw [← hsplit, layout_append, List.length_append]
  exact Nat.lt_add_of_pos_right (layout_pos hne)

theorem pageAfter_take_inj (hv : Volume c f b (layout files)) (hi : i < files.length) (hj : j < files.length)
    (h : pageAfter c b (files.take i) = pageAfter c b (files.take j)) : i = j := by
  have hlt : ∀ k < files.length, (layout (files.take k)).length < c.ring.size := by
    intro k hk
    rw [← hv.length, ← List.take_of_length_le (Nat.le_refl files.length)]
    have := layout_take_lt hk (Nat.le_refl files.length)
    rwa [List.take_of_length_le (Nat.le_refl files.length)] at this ⊢
  have heq := (PageRing.step_inj (hlt i hi) (hlt j hj)).mp h
  rcases Nat.lt_trichotomy i j with hij | hij | hij
  · have := layout_take_lt hij (Nat.le_of_lt hj)
    omega
  · exact hij
  · have := layout_take_lt hij (Nat.le_of_lt hi)
    omega

theorem Volume.at_file (hv : Volume c f b (layout (pre ++ g :: post))) :
    Volume c f (pageAfter c b pre) (g.pages ++ layout (post ++ pre)) := by
  rw [layout_append] at hv
  have hr := hv.rotate
  rw [layout_cons, List.append_assoc, ← layout_append] at hr
  exact hr

theorem Volume.not_blank (hv : Volume c f b (layout files)) : files ≠ [] := by
  rintro rfl
  have h := hv.length
  have hpos := PageRing.size_pos (r := c.ring)
  rw [layout_nil, List.length_nil] at h
  omega

theorem Volume.exists_file (hv : Volume c f b (layout files)) (hp : c.ring.Mem p) (hh : Holds c f p v)
    (hm : v.marker = logFsMarkerFile) :
    ∃ pre g post, files = pre ++ g :: post ∧ p = pageAfter c b pre ∧ v.nr = g.nr := by
  obtain ⟨k, w, hk, rfl, hget, hw⟩ := hv.exists_view hp
  have hwm : w.marker = logFsMarkerFile := by rw [← hw.marker_eq, hh.marker_eq, hm]
  obtain ⟨pre, g, post, rfl, rfl, rfl⟩ := layout_file hget hwm
  refine ⟨pre, g, post, rfl, rfl, ?_⟩
  have hheader : ∃ nr, HeaderAt f (c.ring.step b (layout pre).length) logFsMarkerFile nr ∧ v.nr = nr := by
    cases v with
    | free => exact absurd hm (by decide)
    | bad => exact absurd hm (by decide)
    | header nr => exact ⟨nr, hh.1, rfl⟩
    | file nr ts => exact ⟨nr, hh.1, rfl⟩
    | record nr recs => exact absurd (show logFsMarkerRecord = logFsMarkerFile from hm) (by decide)
  obtain ⟨nr, hat, hnr⟩ := hheader
  rw [hnr]
  exact (hat.unique hw.1).2

theorem exists_split (hj : j < files.length) :
    ∃ g, files.drop j = g :: files.drop (j + 1) ∧ files.take (j + 1) = files.take j ++ [g] :=
  ⟨files[j], List.drop_eq_getElem_cons hj, (List.take_append_getElem hj).symm⟩

theorem exists_newest (h : files ≠ []) : ∃ pre g, files = pre ++ [g] :=
  ⟨files.dropLast, files.getLast h, (List.dropLast_concat_getLast h).symm⟩

theorem nr_of_split (hnr : nr < 0x10000) (h : NrFrom nr (pre ++ g :: post)) : g.nr = (nr + pre.length) % 0x10000 :=
  ((nrFrom_append hnr).mp h).2.1

theorem exists_first_file {l : List PageView} (h : ∃ x ∈ l, x.marker = logFsMarkerFile) :
    ∃ xs v ys, l = xs ++ v :: ys ∧ (∀ x ∈ xs, x.marker ≠ logFsMarkerFile) ∧ v.marker = logFsMarkerFile := by
  induction l with
  | nil =>
    obtain ⟨x, hx, -⟩ := h
    exact absurd hx (by simp)
  | cons y l ih =>
    by_cases hy : y.marker = logFsMarkerFile
    · exact ⟨[], y, l, rfl, by simp, hy⟩
    · obtain ⟨x, hx, hxm⟩ := h
      rcases List.mem_cons.mp hx with rfl | hx
      · exact absurd hxm hy
      · obtain ⟨xs, v, ys, rfl, hxs, hv⟩ := ih ⟨x, hx, hxm⟩
        refine ⟨y :: xs, v, ys, rfl, ?_, hv⟩
        intro z hz
        rcases List.mem_cons.mp hz with rfl | hz
        · exact hy
        · exact hxs z hz

end layout

section init

theorem step_pageStart_end : c.ring.step c.pageStart (c.ring.size - 1) = c.pageEnd := by
  have hlo : c.ring.Mem c.pageStart := PageRing.lo_mem
  rw [PageRing.step_size_pred hlo]
  change (if c.pageStart = c.pageStart then c.pageEnd else _) = _
  rw [if_pos rfl]

theorem step_ne_pageEnd (hj : j < c.ring.size - 1) : c.ring.step c.pageStart j ≠ c.pageEnd := by
  rw [← step_pageStart_end, Ne, PageRing.step_inj (by omega) (by omega)]
  omega

theorem findFirst_file (hv : Volume c s.flash b (layout files)) :
    ∃ pre g post, files = pre ++ g :: post ∧
      (logFsPageHeaderFindFirst c logFsMarkerFile c.pageStart c.pageEnd).Returns s (pageAfter c b pre)
        (s.setHeader (sealedHeader logFsMarkerFile g.nr)) := by
  have hlo : c.ring.Mem c.pageStart := PageRing.lo_mem
  obtain ⟨k, hk, hstep⟩ := PageRing.exists_step hv.base hlo
  have hlen := hv.length
  have hvol : Volume c s.flash c.pageStart ((layout files).drop k ++ (layout files).take k) := by
    rw [← List.take_append_drop k (layout files)] at hv
    have hr := hv.rotate
    rwa [List.length_take, Nat.min_eq_left (by omega), hstep] at hr
  have hexists : ∃ x ∈ (layout files).drop k ++ (layout files).take k, x.marker = logFsMarkerFile := by
    obtain ⟨g, rest, hfiles⟩ := List.exists_cons_of_ne_nil hv.not_blank
    refine ⟨g.head, ?_, rfl⟩
    have hmem : g.head ∈ layout files := by
      rw [hfiles, layout_cons]
      exact List.mem_append_left _ (List.mem_cons_self ..)
    rw [← List.take_append_drop k (layout files)] at hmem
    exact List.mem_append.mpr (List.mem_append.mp hmem).symm
  obtain ⟨xs, v, ys, hsplit, hxs, hvm⟩ := exists_first_file hexists
  rw [hsplit] at hvol
  have hxlen : xs.length < c.ring.size := by
    rw [← hvol.length, List.length_append, List.length_cons]
    omega
  have hview : Holds c s.flash (c.ring.step c.pageStart xs.length) v := hvol.get (by simp)
  obtain ⟨pre, g, post, rfl, hpage, hnr⟩ := hv.exists_file PageRing.step_mem hview hvm
  refine ⟨pre, g, post, rfl, ?_⟩
  apply (assert_returns hlo).bind
  apply (assert_returns PageRing.hi_mem).bind
  rw [← hpage, ← hnr]
  apply findFirst_loop_found hlo hvol.ahead hxs hvm (.inl rfl)
  intro j hj
  exact step_ne_pageEnd (by omega)

theorem nrDiff_succ (nr : ℕ) : nrDiff ((nr + 1) % 0x10000) (nr % 0x10000) = 1 := by
  unfold nrDiff
  omega

theorem nrDiff_back (nr : ℕ) (hn : n < 0x10000) (h0 : 0 < n) : nrDiff (nr % 0x10000) ((nr + n) % 0x10000) = 0x10000 - n := by
  unfold nrDiff
  omega

theorem files_cycle (hv : Volume c f b (layout files)) (hnr : nr < 0x10000) (hnum : NrFrom nr files)
    (h2 : 2 ≤ files.length) :
    Cycle c f logFsMarkerFile c.pageStart c.pageEnd files.length
      (fun i => pageAfter c b (files.take ((p + i) % files.length))) fun i => (nr + (p + i) % files.length) % 0x10000 := by
  have hpos : 0 < files.length := by omega
  constructor
  · intro i _ t ht
    have hj := Nat.mod_lt (p + i) hpos
    have hnext : (p + (i + 1)) % files.length = ((p + i) % files.length + 1) % files.length := by
      rw [Nat.mod_add_mod, Nat.add_assoc]
    rw [hnext]
    generalize (p + i) % files.length = j at hj ⊢
    obtain ⟨g, hdrop, htake⟩ := exists_split hj
    have hsplit : files = files.take j ++ g :: files.drop (j + 1) := by rw [← hdrop, List.take_append_drop]
    have hvol := hv
    rw [hsplit] at hvol
    have hat := hvol.at_file
    rw [← ht] at hat
    have hpage : c.ring.step (pageAfter c b (files.take j)) g.pages.length = pageAfter c b (files.take (j + 1)) := by
      rw [pageAfter, PageRing.step_step, pageAfter, htake, layout_append, layout_single, List.length_append]
    have hgo : ∀ k < g.pages.length, c.ring.nextIn c.pageStart c.pageEnd (c.ring.step (pageAfter c b (files.take j)) k) =
        c.ring.step (pageAfter c b (files.take j)) (k + 1) := by
      intro k _
      rw [nextIn_all, PageRing.next_step]
    by_cases hlast : j + 1 < files.length
    · obtain ⟨h, hdrop', -⟩ := exists_split hlast
      rw [Nat.mod_eq_of_lt hlast, ← hpage]
      have hh : h.nr = (nr + (j + 1)) % 0x10000 := by
        have hsplit' : files = files.take (j + 1) ++ h :: files.drop (j + 1 + 1) := by
          rw [← hdrop', List.take_append_drop]
        rw [hsplit'] at hnum
        have hnr' := nr_of_split hnr hnum
        rwa [List.length_take, Nat.min_eq_left (Nat.le_of_lt hlast)] at hnr'
      rw [← hh]
      rw [hdrop', List.cons_append, layout_cons] at hat
      exact findNext_file hat PageRing.lo_mem PageRing.hi_mem hgo
    · have hend : j + 1 = files.length := by omega
      obtain ⟨h, hdrop', -⟩ := exists_split hpos
      have hfirst : files.take j = h :: (files.drop 1).take (j - 1) := by
        rw [List.drop_zero, Nat.zero_add] at hdrop'
        obtain ⟨k, rfl⟩ : ∃ k, j = k + 1 := ⟨j - 1, by omega⟩
        rw [Nat.add_sub_cancel]
        conv_lhs => rw [hdrop']
        rfl
      have hh : h.nr = (nr + 0) % 0x10000 := by
        rw [List.drop_zero, Nat.zero_add] at hdrop'
        rw [hdrop'] at hnum
        have hnum' : NrFrom nr ([] ++ h :: files.drop 1) := hnum
        exact nr_of_split hnr hnum'
      have hback : pageAfter c b (files.take (j + 1)) = pageAfter c b (files.take 0) := by
        rw [hend, List.take_of_length_le (Nat.le_refl _), pageAfter, hv.length, PageRing.step_size hv.base, List.take_zero,
          pageAfter, layout_nil, List.length_nil, PageRing.step_zero hv.base]
      rw [hend, Nat.mod_self, ← hback, ← hpage, ← hh]
      rw [hend, List.drop_of_length_le (Nat.le_refl _), List.nil_append, hfirst, layout_cons] at hat
      rw [hfirst]
      exact findNext_file hat PageRing.lo_mem PageRing.hi_mem (by rw [← hfirst]; exact hgo)
  · intro i
    exact mem_ne_invalid PageRing.step_mem
  · simp
  · intro i h0 hi heq
    have hmod : Nat.ModEq files.length (p + i) (p + 0) :=
      pageAfter_take_inj hv (Nat.mod_lt _ hpos) (Nat.mod_lt _ hpos) heq
    have hzero := Nat.ModEq.eq_of_lt_of_lt (Nat.ModEq.add_left_cancel' p hmod) hi hpos
    omega

theorem init_mounted (h : Image c s.flash b files) :
    ∃ t, (logFsInit c).Returns s .none t ∧ t.flash = s.flash ∧ t.images = s.images ∧ Mounted c t.logFs b files := by
  obtain ⟨nr, hnr, hnum⟩ := h.numbered
  let s₀ : Sys := { s with logFs := LogFs.zero c }
  have hv : Volume c s₀.flash b (layout files) := h.volume
  obtain ⟨pre, g, post, hfiles, hfound⟩ := findFirst_file hv
  have hcount : files.length ≤ c.ring.size := by
    rw [← hv.length]
    exact length_le_layout
  have hsize : c.ring.size ≤ 0x8000 := by
    have h1 := c.pageEnd_lt
    have h2 : c.ring.size = c.pageEnd + 1 - c.pageStart := rfl
    omega
  have hp : pre.length < files.length := by
    rw [hfiles, List.length_append, List.length_cons]
    omega
  have hne : pageAfter c b pre ≠ logFsPageInvalid := mem_ne_invalid PageRing.step_mem
  have hgnr : g.nr = (nr + pre.length) % 0x10000 := by
    rw [hfiles] at hnum
    exact nr_of_split hnr hnum
  let s₁ : Sys := s₀.setHeader (sealedHeader logFsMarkerFile g.nr)
  have hrun : ∀ t, (largestDiff c logFsMarkerFile c.pageStart c.pageEnd saveFilePages (pageAfter c b pre)).Returns s₁ () t →
      (logFsInit c).Returns s .none t := by
    intro t ht
    unfold logFsInit
    rw [setLogFs_bind]
    apply hfound.bind
    rw [if_neg hne]
    apply ht.bind
    exact Prog.returns_pure.mpr ⟨rfl, rfl⟩
  by_cases h2 : 2 ≤ files.length
  · have hcycle := files_cycle (p := pre.length) hv hnr hnum h2
    have hpg0 : pageAfter c b (files.take ((pre.length + 0) % files.length)) = pageAfter c b pre := by
      rw [Nat.add_zero, Nat.mod_eq_of_lt hp, hfiles, List.take_left]
    have hdiff : ∀ j < files.length, j ≠ files.length - 1 - pre.length →
        nrDiff ((nr + (pre.length + (j + 1)) % files.length) % 0x10000) ((nr + (pre.length + j) % files.length) % 0x10000) = 1 := by
      intro j hj hne
      have hstep : (pre.length + (j + 1)) % files.length = (pre.length + j) % files.length + 1 := by
        rcases Nat.lt_or_ge (pre.length + j) files.length with hlt | hge
        · rw [Nat.mod_eq_of_lt hlt, Nat.mod_eq_of_lt (by omega)]
          omega
        · have h1 : (pre.length + j) % files.length = pre.length + j - files.length := by
            rw [Nat.mod_eq_sub_mod hge]
            exact Nat.mod_eq_of_lt (by omega)
          have h2 : (pre.length + (j + 1)) % files.length = pre.length + (j + 1) - files.length := by
            rw [Nat.mod_eq_sub_mod (by omega)]
            exact Nat.mod_eq_of_lt (by omega)
          omega
      rw [hstep, ← Nat.add_assoc]
      exact nrDiff_succ _
    have hk : files.length - 1 - pre.length < files.length := by omega
    have hat : (pre.length + (files.length - 1 - pre.length)) % files.length = files.length - 1 := by
      rw [show pre.length + (files.length - 1 - pre.length) = files.length - 1 by omega, Nat.mod_eq_of_lt (by omega)]
    have hbehind : (pre.length + (files.length - 1 - pre.length + 1)) % files.length = 0 := by
      rw [show pre.length + (files.length - 1 - pre.length + 1) = files.length by omega, Nat.mod_self]
    have hlargest : nrDiff ((nr + (pre.length + (files.length - 1 - pre.length + 1)) % files.length) % 0x10000)
        ((nr + (pre.length + (files.length - 1 - pre.length)) % files.length) % 0x10000) = 0x10000 - (files.length - 1) := by
      rw [hat, hbehind, Nat.add_zero]
      exact nrDiff_back nr (by omega) (by omega)
    obtain ⟨x, hx⟩ := largestDiff_cycle (s := s₁) (k := files.length - 1 - pre.length) saveFilePages_saves hcycle hk (by
      intro j hj hne
      rw [hdiff j hj hne, hlargest]
      omega) (by
      rw [hlargest]
      omega) (by
      rw [Nat.add_zero, Nat.mod_eq_of_lt hp, ← hgnr]
      rfl)
    rw [hpg0] at hx
    refine ⟨_, hrun _ hx, rfl, rfl, ?_, ?_⟩
    · change pageAfter c b (files.take _) = b
      rw [hbehind, List.take_zero, pageAfter, layout_nil, List.length_nil, PageRing.step_zero hv.base]
    · intro pre' g' hfiles'
      have hlen : files.length - 1 = pre'.length := by
        rw [hfiles', List.length_append, List.length_singleton, Nat.add_sub_cancel]
      constructor
      · change pageAfter c b (files.take _) = pageAfter c b pre'
        rw [hat, hlen, hfiles', List.take_left]
      · change ((nr + _) % 0x10000 + 1) % 0x10000 = _
        rw [hat, hlen]
        rw [hfiles'] at hnum
        rw [nr_of_split hnr hnum]
  · have hpre : pre = [] := by
      apply List.eq_nil_of_length_eq_zero
      omega
    have hpost : post = [] := by
      apply List.eq_nil_of_length_eq_zero
      rw [hfiles, List.length_append, List.length_cons] at h2
      omega
    subst hpre hpost
    rw [List.nil_append] at hfiles
    have hb : pageAfter c b [] = b := PageRing.step_zero hv.base
    rw [hfiles, layout_single] at hv
    obtain ⟨x, hx⟩ := findNext_alone (s := s₁) hv
    have hround : (largestDiffRound c logFsMarkerFile c.pageStart c.pageEnd saveFilePages b (b, 0)).Returns s₁ (.inr ()) _ :=
      largestDiffRound_last rfl hx
    rw [hb] at hrun
    refine ⟨_, hrun _ (Prog.loop_inr hround), rfl, rfl, rfl, ?_⟩
    intro pre' g' hfiles'
    rw [hfiles] at hfiles'
    obtain ⟨rfl, rfl⟩ : pre' = [] ∧ g' = g := by
      cases pre' with
      | nil => simpa [eq_comm] using hfiles'
      | cons x pre' =>
        have := congrArg List.length hfiles'
        simp at this
    exact ⟨hb.symm, rfl⟩

theorem Blank.not_file (h : Blank c f) (hp : c.ring.Mem p) (hh : Holds c f p v) : v.marker ≠ logFsMarkerFile := by
  obtain ⟨spare, hv⟩ := h
  obtain ⟨k, w, -, -, hget, hw⟩ := hv.exists_view hp
  rw [← hh.marker_eq, hw.marker_eq]
  exact spare_not_file (List.mem_of_getElem? hget)

theorem init_unmounted (h : Blank c s.flash) :
    ∃ t, (logFsInit c).Returns s .none t ∧ t.flash = s.flash ∧ t.images = s.images ∧ Unmounted t.logFs := by
  obtain ⟨spare, hv⟩ := h
  have hlo : c.ring.Mem c.pageStart := PageRing.lo_mem
  have hsize := PageRing.size_pos (r := c.ring)
  have hlen := hv.length
  let s₀ : Sys := { s with logFs := LogFs.zero c }
  obtain ⟨x, hx⟩ : ∃ x, (Prog.loop (findFirstRound c logFsMarkerFile c.pageEnd) c.pageStart).Returns s₀ logFsPageInvalid
      (s₀.setHeader x) := by
    have hahead : Ahead c s₀.flash c.pageStart (spare.map spareView) := hv.ahead
    apply findFirst_loop_none hlo hahead (fun y hy => spare_not_file hy)
    · rw [hlen]
      exact step_pageStart_end
    · intro hnil
      rw [hnil, List.length_nil] at hlen
      omega
    · intro j hj
      rw [hlen] at hj
      exact step_ne_pageEnd hj
  have hrun : (logFsInit c).Returns s .none { s with logFs := { LogFs.zero c with
      pageHeader := x, filePageFirst := logFsPageInvalid, filePageLast := logFsPageInvalid } } := by
    unfold logFsInit
    rw [setLogFs_bind]
    have hfind : (logFsPageHeaderFindFirst c logFsMarkerFile c.pageStart c.pageEnd).Returns s₀ logFsPageInvalid
        (s₀.setHeader x) := by
      apply (assert_returns hlo).bind
      apply (assert_returns PageRing.hi_mem).bind
      exact hx
    apply hfind.bind
    rw [if_pos rfl, setLogFs_bind]
    exact Prog.returns_pure.mpr ⟨rfl, rfl⟩
  exact ⟨_, hrun, rfl, rfl, rfl, rfl, Nat.zero_lt_succ _⟩

end init

end Lpc1788Libraries.DataManager

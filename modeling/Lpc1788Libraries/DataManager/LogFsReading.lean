import Lpc1788Libraries.DataManager.LogFsReopen

namespace Lpc1788Libraries.DataManager

open Lpc1788Libraries.Support NorFlash BoundedProgram

/-- Only what a read fills in has changed: the page header, the record block and the read cursor. -/
structure ReadOnly (s t : Sys) : Prop where
  flash : t.flash = s.flash
  images : t.images = s.images
  logFs : ∃ header block rd, t.logFs = { s.logFs with pageHeader := header, recordBlock := block, recAdrRd := rd }

/-- The file at the page `p` is open and its records can be read. -/
structure Readable (c : LogFsCfg) (s : Sys) (p : ℕ) (g : StoredFile) (behind : PageView) : Prop where
  page : c.ring.Mem p
  ahead : Ahead c s.flash (c.ring.next p) (g.body ++ [behind])
  behind : behind.marker = logFsMarkerFile
  length : g.pages.length ≤ c.ring.size
  writing : Writing c s.logFs p g.used
  filled : Filled c g.used
  nonempty : [] ∉ g.used

/-- The read cursor is at the record with the index `k`. -/
def ReadAt (c : LogFsCfg) (s : Sys) (p : ℕ) (used : List (List Rec)) (k : ℕ) : Prop :=
  ∃ us recs us' j, used = us ++ recs :: us' ∧ j < recs.length ∧ k = us.flatten.length + j ∧
    s.logFs.recAdrRd = ⟨c.ring.step p (us.length + 1), recOffset c j⟩

variable {c : LogFsCfg} {s t u : Sys} {b p q n i j k nr : ℕ} {v : PageView} {g : StoredFile} {used us us' : List (List Rec)}
  {recs recs' : List Rec} {d : Rec} {spare : List Bool} {adr : LogFsAdr} {a : RecordRd}

section readOnly

theorem ReadOnly.same (s : Sys) : ReadOnly s s := ⟨rfl, rfl, _, _, _, rfl⟩

theorem ReadOnly.trans (h : ReadOnly s t) (h' : ReadOnly t u) : ReadOnly s u := by
  obtain ⟨hf, hi, x, y, z, hl⟩ := h
  obtain ⟨hf', hi', x', y', z', hl'⟩ := h'
  exact ⟨hf'.trans hf, hi'.trans hi, x', y', z', by rw [hl', hl]⟩

theorem ReadOnly.seen (s : Sys) (v : PageView) : ReadOnly s (s.seen v) := ⟨rfl, rfl, _, _, _, rfl⟩

theorem ReadOnly.setRecAdrRd (s : Sys) (adr : LogFsAdr) :
    ReadOnly s { s with logFs := { s.logFs with recAdrRd := adr } } := ⟨rfl, rfl, _, _, _, rfl⟩

theorem ReadOnly.sameFiles (h : ReadOnly s t) : SameFiles s t := by
  obtain ⟨-, -, x, y, z, hl⟩ := h
  constructor <;> rw [hl]

theorem ReadOnly.writing (h : ReadOnly s t) (hw : Writing c s.logFs p used) : Writing c t.logFs p used := by
  obtain ⟨-, -, x, y, z, hl⟩ := h
  rw [hl]
  exact ⟨hw.first, hw.last, hw.nr, hw.cursor⟩

theorem ReadOnly.readable (h : ReadOnly s t) (hs : Readable c s p g v) : Readable c t p g v := by
  refine ⟨hs.page, ?_, hs.behind, hs.length, h.writing hs.writing, hs.filled, hs.nonempty⟩
  rw [h.flash]
  exact hs.ahead

end readOnly

section readable

theorem Readable.record (h : Readable c s p g v) (hus : g.used = us ++ recs :: us') :
    Holds c s.flash (c.ring.step p (us.length + 1)) (.record us.length recs) := by
  have hget : (recordPages 0 g.used)[us.length]? = some (.record us.length recs) := by
    have hk : g.used[us.length]? = some recs := by
      rw [hus, List.getElem?_append_right (Nat.le_refl _), Nat.sub_self]
      rfl
    rw [getElem?_recordPages hk, Nat.zero_add]
  have hahead := h.ahead
  rw [StoredFile.body, List.append_assoc, ahead_append (PageRing.next_mem h.page)] at hahead
  have := hahead.1.get (PageRing.next_mem h.page) hget
  rwa [PageRing.step_next h.page] at this

theorem Readable.rest (h : Readable c s p g v) :
    Ahead c s.flash (c.ring.step p (g.used.length + 1)) (g.spare.map spareView ++ [v]) := by
  have hahead := h.ahead
  have hlen : (recordPages 0 g.used).length = g.used.length := length_recordPages
  rw [StoredFile.body, List.append_assoc, ahead_append (PageRing.next_mem h.page), PageRing.step_next h.page, hlen] at hahead
  exact hahead.2

theorem Readable.size (h : Readable c s p g v) : g.used.length + g.spare.length + 1 ≤ c.ring.size := by
  have hlen := h.length
  rwa [length_pages] at hlen

theorem Readable.step_ne (h : Readable c s p g v) (hi : i ≤ g.used.length) (hj : j ≤ g.used.length + 1) (hne : i ≠ j)
    (h0 : 0 < i) : c.ring.step p i ≠ c.ring.step p j := by
  have hlt := h.size
  rcases Nat.lt_or_ge j c.ring.size with hjs | hjs
  · rw [Ne, PageRing.step_inj (by omega) hjs]
    exact hne
  · obtain rfl : j = 0 + c.ring.size := by omega
    rw [PageRing.step_add_size, Ne, PageRing.step_inj (by omega) (by omega)]
    omega

theorem Readable.record_length (h : Readable c s p g v) (hus : g.used = us ++ recs :: us') (hd : d ∈ recs) :
    d.length = c.recDataSize := by
  obtain ⟨k, hk⟩ := List.mem_iff_getElem?.mp hd
  exact ((h.record hus).2.2.2 k d hk).1

theorem Readable.full (h : Readable c s p g v) (hus : g.used = us ++ recs :: us') (hne : us' ≠ []) : recs.length = capacity c := by
  apply h.filled.full
  rw [hus, List.dropLast_append_of_ne_nil (by simp), List.dropLast_cons_of_ne_nil hne]
  simp

theorem Readable.pos (h : Readable c s p g v) (hus : g.used = us ++ recs :: us') : 0 < recs.length := by
  apply List.length_pos_iff.mpr
  rintro rfl
  apply h.nonempty
  rw [hus]
  simp

theorem Readable.length_le (h : Readable c s p g v) (hus : g.used = us ++ recs :: us') : recs.length ≤ capacity c :=
  h.filled.le recs (by rw [hus]; simp)

theorem Readable.cursor_ne (h : Readable c s p g v) (hus : g.used = us ++ recs :: us') (hj : us' = [] → j < recs.length) :
    s.logFs.recAdrWr ≠ ⟨c.ring.step p (us.length + 1), recOffset c j⟩ := by
  have hcount : g.used.length = us.length + (us'.length + 1) := by rw [hus, List.length_append, List.length_cons]
  intro heq
  rcases h.writing.cursor with ⟨hadr, -⟩ | ⟨last, hlast, hadr, -, -⟩
  · rw [hadr] at heq
    injection heq with hpage
    exact h.step_ne (by omega) (Nat.le_refl _) (by omega) (by omega) hpage.symm
  · rw [hadr] at heq
    injection heq with hpage hoffset
    cases us' with
    | nil =>
      rw [hus, List.getLast?_concat, Option.some.injEq] at hlast
      rw [← hlast, recOffset_inj] at hoffset
      have := hj rfl
      omega
    | cons x us' =>
      rw [List.length_cons] at hcount
      exact h.step_ne (by omega) (by omega) (by omega) (by omega) hpage

end readable

section pages

theorem nextRecordPage_found (hl : c.type = .linear) (hq : c.ring.Mem q) (hh : Holds c s.flash (c.ring.next q) (.record nr recs))
    (hrd : c.ring.next q ≠ s.logFs.recAdrRd.page) :
    (nextRecordPage c q).Returns s (some (c.ring.next q)) (s.seen (.record nr recs)) := by
  apply Prog.loop_inr
  unfold nextRecordPageRound
  simp only [hl]
  apply (pageNext_returns hq).bind
  rw [getLogFs_bind, if_neg hrd]
  apply hh.pageHeaderRd.bind
  rw [if_neg (by simp only [PageView.marker]; decide), if_neg (by simp [PageView.marker])]
  exact Prog.returns_pure.mpr ⟨rfl, rfl⟩

theorem nextRecordPage_none (hl : c.type = .linear) (hq : c.ring.Mem q)
    (hA : Ahead c s.flash (c.ring.next q) (spare.map spareView ++ [v])) (hv : v.marker = logFsMarkerFile)
    (hrd : ∀ i < spare.length + 1, c.ring.step q (i + 1) ≠ s.logFs.recAdrRd.page) :
    ∃ x, (nextRecordPage c q).Returns s none (s.setHeader x) := by
  induction spare generalizing q s with
  | nil =>
    have hnext := hrd 0 Nat.zero_lt_one
    rw [Nat.zero_add, PageRing.step_one hq] at hnext
    have hround : (nextRecordPageRound c q).Returns s (.inr none) (s.seen v) := by
      unfold nextRecordPageRound
      simp only [hl]
      apply (pageNext_returns hq).bind
      rw [getLogFs_bind, if_neg hnext]
      apply hA.1.pageHeaderRd.bind
      rw [if_pos hv]
      exact Prog.returns_pure.mpr ⟨rfl, rfl⟩
    exact ⟨_, Prog.loop_inr hround⟩
  | cons e spare ih =>
    have hnext := hrd 0 (Nat.succ_pos _)
    rw [Nat.zero_add, PageRing.step_one hq] at hnext
    have hround : (nextRecordPageRound c q).Returns s (.inl (c.ring.next q)) (s.seen (spareView e)) := by
      unfold nextRecordPageRound
      simp only [hl]
      apply (pageNext_returns hq).bind
      rw [getLogFs_bind, if_neg hnext]
      apply hA.1.pageHeaderRd.bind
      have hmem : spareView e ∈ [e].map spareView := List.mem_singleton_self _
      rw [if_neg (spareView_not_file e), if_pos (spare_not_record hmem)]
      exact Prog.returns_pure.mpr ⟨rfl, rfl⟩
    obtain ⟨x, hx⟩ := ih (s := s.seen (spareView e)) (PageRing.next_mem hq) hA.2 (by
      intro i hi
      rw [PageRing.step_next hq]
      exact hrd (i + 1) (Nat.succ_lt_succ hi))
    exact ⟨x, Prog.loop_inl hround hx⟩

theorem previousRecordPage_found (hl : c.type = .linear) (hq : c.ring.Mem q)
    (hh : Holds c s.flash (c.ring.prev q) (.record nr recs)) (hfile : c.ring.prev q ≠ s.filePage) :
    (previousRecordPage c q).Returns s (some (c.ring.prev q)) (s.seen (.record nr recs)) := by
  apply Prog.loop_inr
  unfold previousRecordPageRound
  simp only [hl]
  apply (pagePrevious_returns hq).bind
  have hfile' : c.ring.prev q ≠ s.logFs.fileInfo.file.startPage := hfile
  rw [getLogFs_bind, if_neg hfile']
  apply hh.pageHeaderRd.bind
  rw [if_neg (by simp [PageView.marker])]
  exact Prog.returns_pure.mpr ⟨rfl, rfl⟩

theorem previousRecordPage_none (hl : c.type = .linear) (hq : c.ring.Mem q) (hfile : c.ring.prev q = s.filePage) :
    (previousRecordPage c q).Returns s none s := by
  apply Prog.loop_inr
  unfold previousRecordPageRound
  simp only [hl]
  apply (pagePrevious_returns hq).bind
  have hfile' : c.ring.prev q = s.logFs.fileInfo.file.startPage := hfile
  rw [getLogFs_bind, if_pos hfile']
  exact Prog.returns_pure.mpr ⟨rfl, rfl⟩

end pages

section addresses

theorem nextRecordAdr_inside (hk : k + 1 < c.recordsPerPage) :
    (nextRecordAdr c p (recOffset c k)).Returns s (some ⟨p, recOffset c (k + 1)⟩) s := by
  have hlast : recOffset c k < c.recOffsetLast := by
    rw [← recOffset_last]
    exact recOffset_strict (by omega)
  unfold nextRecordAdr
  rw [if_neg (Nat.not_le.mpr hlast), ← recOffset_succ, Nat.mod_eq_of_lt (recOffset_lt (Nat.le_of_lt hk))]
  exact Prog.returns_pure.mpr ⟨rfl, rfl⟩

theorem nextRecordAdr_page {r : Option ℕ} (h : (nextRecordPage c p).Returns s r t) :
    (nextRecordAdr c p c.recOffsetLast).Returns s (r.map fun q => ⟨q, recOffset c 0⟩) t := by
  unfold nextRecordAdr
  rw [if_pos (Nat.le_refl _), recOffset_zero]
  exact h.bind (Prog.returns_pure.mpr ⟨rfl, rfl⟩)

theorem previousRecordAdr_inside (hk : k < c.recordsPerPage) :
    (previousRecordAdr c p (recOffset c (k + 1))).Returns s (some ⟨p, recOffset c k⟩) s := by
  have hfirst : recOffsetFirst < recOffset c (k + 1) := by
    rw [← recOffset_zero (c := c)]
    exact recOffset_strict (Nat.succ_pos k)
  have hlt := recOffset_lt (c := c) (Nat.le_of_lt hk)
  unfold previousRecordAdr
  rw [if_neg (Nat.not_le.mpr hfirst), recOffset_succ,
    show recOffset c k + c.recBlockSize + 0x10000 - c.recBlockSize = recOffset c k + 0x10000 by omega, Nat.add_mod_right,
    Nat.mod_eq_of_lt hlt]
  exact Prog.returns_pure.mpr ⟨rfl, rfl⟩

theorem previousRecordAdr_page {r : Option ℕ} (h : (previousRecordPage c p).Returns s r t) :
    (previousRecordAdr c p (recOffset c 0)).Returns s (r.map fun q => ⟨q, c.recOffsetLast⟩) t := by
  unfold previousRecordAdr
  rw [if_pos (by rw [recOffset_zero])]
  exact h.bind (Prog.returns_pure.mpr ⟨rfl, rfl⟩)

end addresses

section forward

/-- The record is read, and the cursor is left there. -/
def Sys.readRecord (s : Sys) (d : Rec) (adr : LogFsAdr) : Sys :=
  { s with logFs := { s.logFs with recordBlock := .seal d, recAdrRd := adr } }

theorem ReadOnly.readRecord (s : Sys) (d : Rec) (adr : LogFsAdr) : ReadOnly s (s.readRecord d adr) := ⟨rfl, rfl, _, _, _, rfl⟩

theorem readFound_returns : (readFound adr n).Returns (s.setRecordBlock (.seal d)) (.none, d.take n) (s.readRecord d adr) := by
  unfold readFound
  rw [setLogFs_bind, getLogFs_bind]
  exact Prog.returns_pure.mpr ⟨rfl, rfl⟩

theorem next_found (h : Readable c u p g v) (hus : g.used = us ++ recs :: us') (hj : recs[j]? = some d)
    (hadr : (nextRecordAdr c adr.page adr.offset).Returns s (some ⟨c.ring.step p (us.length + 1), recOffset c j⟩) u) :
    (recordRdNextRound c n adr).Returns s (.inr (.none, d.take n))
      (u.readRecord d ⟨c.ring.step p (us.length + 1), recOffset c j⟩) := by
  have hlt : j < recs.length := (List.getElem?_eq_some_iff.mp hj).1
  unfold recordRdNextRound
  apply hadr.bind
  simp only
  rw [getLogFs_bind, if_neg (h.cursor_ne hus fun _ => hlt).symm]
  apply ((h.record hus).recordBlockRd_valid hj).bind
  rw [if_pos rfl]
  exact readFound_returns.bind (Prog.returns_pure.mpr ⟨rfl, rfl⟩)

theorem next_free (h : Readable c u p g v) (hus : g.used = us ++ recs :: us') (hj : recs.length ≤ j)
    (hwr : u.logFs.recAdrWr ≠ ⟨c.ring.step p (us.length + 1), recOffset c j⟩)
    (hadr : (nextRecordAdr c adr.page adr.offset).Returns s (some ⟨c.ring.step p (us.length + 1), recOffset c j⟩) u) :
    (recordRdNextRound c n adr).Returns s (.inl ⟨c.ring.step p (us.length + 1), recOffset c j⟩) u := by
  unfold recordRdNextRound
  apply hadr.bind
  simp only
  rw [getLogFs_bind, if_neg hwr.symm]
  apply ((h.record hus).recordBlockRd_free hj).bind
  rw [if_neg (by decide)]
  exact Prog.returns_pure.mpr ⟨rfl, rfl⟩

theorem next_written (hadr : (nextRecordAdr c adr.page adr.offset).Returns s (some u.logFs.recAdrWr) u) :
    (recordRdNextRound c n adr).Returns s (.inr (.noRecord, [])) u := by
  unfold recordRdNextRound
  apply hadr.bind
  simp only
  rw [getLogFs_bind, if_pos rfl]
  exact Prog.returns_pure.mpr ⟨rfl, rfl⟩

theorem next_end (hadr : (nextRecordAdr c adr.page adr.offset).Returns s none u) :
    (recordRdNextRound c n adr).Returns s (.inr (.noRecord, [])) u := by
  unfold recordRdNextRound
  exact hadr.bind (Prog.returns_pure.mpr ⟨rfl, rfl⟩)

theorem nextLoop_page (hl : c.type = .linear) (h : Readable c s p g v) (hus : g.used = us ++ recs :: us') (hj : recs[0]? = some d)
    (hrd : c.ring.step p (us.length + 1) ≠ s.logFs.recAdrRd.page) :
    ∃ t, (Prog.loop (recordRdNextRound c n) ⟨c.ring.step p us.length, c.recOffsetLast⟩).Returns s (.none, d.take n) t ∧
      ReadOnly s t ∧ t.logFs.recAdrRd = ⟨c.ring.step p (us.length + 1), recOffset c 0⟩ := by
  have hh := h.record hus
  rw [← PageRing.next_step] at hh hrd
  have hpage := nextRecordPage_found hl PageRing.step_mem hh hrd
  have hseen := ReadOnly.seen s (.record us.length recs)
  have hadr := nextRecordAdr_page hpage
  rw [PageRing.next_step] at hadr
  exact ⟨_, Prog.loop_inr (next_found (hseen.readable h) hus hj hadr), hseen.trans (ReadOnly.readRecord _ _ _), rfl⟩

theorem nextLoop_none (hl : c.type = .linear) (h : Readable c s p g v) (hpos : 0 < g.used.length)
    (hrd : s.logFs.recAdrRd.page = c.ring.step p g.used.length) :
    ∃ t, (Prog.loop (recordRdNextRound c n) ⟨c.ring.step p g.used.length, c.recOffsetLast⟩).Returns s (.noRecord, []) t ∧
      ReadOnly s t ∧ t.logFs.recAdrRd = s.logFs.recAdrRd := by
  have hA := h.rest
  have hsize := h.size
  rw [← PageRing.next_step] at hA
  obtain ⟨x, hx⟩ := nextRecordPage_none hl PageRing.step_mem hA h.behind (by
    intro i hi
    rw [hrd, PageRing.step_step, Ne]
    rcases Nat.lt_or_ge (g.used.length + (i + 1)) c.ring.size with hlt | hge
    · rw [PageRing.step_inj hlt (by omega)]
      omega
    · obtain ⟨m, hm⟩ : ∃ m, g.used.length + (i + 1) = m + c.ring.size := ⟨_, (Nat.sub_add_cancel hge).symm⟩
      rw [hm, PageRing.step_add_size, PageRing.step_inj (by omega) (by omega)]
      omega)
  exact ⟨_, Prog.loop_inr (next_end (nextRecordAdr_page hx)), ⟨rfl, rfl, _, _, _, rfl⟩, rfl⟩

theorem nextLoop_last (h : Readable c s p g v) (hus : g.used = us ++ recs :: us') (hj : j + 1 = recs.length)
    (hfull : recs.length = capacity c)
    (hwr : recs.length < c.recordsPerPage → s.logFs.recAdrWr ≠ ⟨c.ring.step p (us.length + 1), recOffset c recs.length⟩)
    (hr : (Prog.loop (recordRdNextRound c n) ⟨c.ring.step p (us.length + 1), c.recOffsetLast⟩).Returns s a t) :
    (Prog.loop (recordRdNextRound c n) ⟨c.ring.step p (us.length + 1), recOffset c j⟩).Returns s a t := by
  have h1 := capacity_le (c := c)
  have h2 := recordsPerPage_le (c := c)
  by_cases hlast : j + 1 = c.recordsPerPage
  · have hoffset : recOffset c j = c.recOffsetLast := by rw [← recOffset_last, ← hlast, Nat.add_sub_cancel]
    rw [hoffset]
    exact hr
  · have hoffset : recOffset c (j + 1) = c.recOffsetLast := by
      rw [← recOffset_last]
      congr 1
      omega
    rw [← hj] at hwr
    have hfree : (recordRdNextRound c n ⟨c.ring.step p (us.length + 1), recOffset c j⟩).Returns s
        (.inl ⟨c.ring.step p (us.length + 1), recOffset c (j + 1)⟩) s :=
      next_free h hus (Nat.le_of_eq hj.symm) (hwr (by omega)) (nextRecordAdr_inside (by omega))
    rw [hoffset] at hfree
    exact Prog.loop_inl hfree hr

theorem flatten_split (hus : used = us ++ recs :: us') : used.flatten[us.flatten.length + j]? = (recs ++ us'.flatten)[j]? := by
  rw [hus, List.flatten_append, List.flatten_cons, List.getElem?_append_right (Nat.le_add_right _ _), Nat.add_sub_cancel_left]

theorem Readable.take_eq (h : Readable c s p g v) (hd : d ∈ g.used.flatten) : d.take (min n c.recDataSize) = d.take n := by
  obtain ⟨recs, hrecs, hd⟩ := List.mem_flatten.mp hd
  obtain ⟨us, us', hus⟩ := List.append_of_mem hrecs
  rw [← h.record_length hus hd, List.take_eq_take_iff]
  omega

theorem rdNext_loop (hadr : s.logFs.recAdrRd = adr)
    (hr : (Prog.loop (recordRdNextRound c (min n c.recDataSize)) adr).Returns s a t) : (logFsRecordRdNext c n).Returns s a t := by
  unfold logFsRecordRdNext
  rw [getLogFs_bind, hadr]
  exact hr

theorem rdNext_found (hl : c.type = .linear) (h : Readable c s p g v) (hat : ReadAt c s p g.used k)
    (hd : g.used.flatten[k + 1]? = some d) :
    ∃ t, (logFsRecordRdNext c n).Returns s (.none, d.take n) t ∧ ReadOnly s t ∧ ReadAt c t p g.used (k + 1) := by
  obtain ⟨us, recs, us', j, hus, hj, rfl, hadr⟩ := hat
  rw [← h.take_eq (List.mem_of_getElem? hd)]
  rw [Nat.add_assoc, flatten_split hus] at hd
  have hle := h.length_le hus
  have hcap := capacity_le (c := c)
  rcases Nat.lt_or_ge (j + 1) recs.length with hlt | hge
  · rw [List.getElem?_append_left hlt] at hd
    have hround : (recordRdNextRound c (min n c.recDataSize) ⟨c.ring.step p (us.length + 1), recOffset c j⟩).Returns s _ _ :=
      next_found h hus hd (nextRecordAdr_inside (by omega))
    exact ⟨_, rdNext_loop hadr (Prog.loop_inr hround), ReadOnly.readRecord _ _ _, us, recs, us', j + 1, hus, hlt, rfl, rfl⟩
  · have hj' : j + 1 = recs.length := by omega
    rw [List.getElem?_append_right hge, hj', Nat.sub_self] at hd
    cases us' with
    | nil => exact absurd hd (by simp)
    | cons recs' us' =>
      have hus' : g.used = (us ++ [recs]) ++ recs' :: us' := by rw [hus]; simp
      have hpos := h.pos hus'
      rw [List.flatten_cons, List.getElem?_append_left hpos] at hd
      have hlen : (us ++ [recs]).length = us.length + 1 := by simp
      have hcount : g.used.length = us.length + (us'.length + 1 + 1) := by rw [hus]; simp
      obtain ⟨t, ht, hread, hcursor⟩ := nextLoop_page (n := min n c.recDataSize) hl h hus' hd (by
        rw [hadr, hlen]
        exact (h.step_ne (by omega) (by omega) (by omega) (by omega)).symm)
      rw [hlen] at ht hcursor
      refine ⟨t, rdNext_loop hadr ?_, hread, us ++ [recs], recs', us', 0, hus', hpos, ?_, ?_⟩
      · exact nextLoop_last h hus hj' (h.full hus (by simp)) (fun _ => h.cursor_ne hus (by simp)) ht
      · rw [List.flatten_append, List.length_append, List.flatten_singleton]
        omega
      · rw [hcursor, hlen]

theorem rdNext_none (hl : c.type = .linear) (h : Readable c s p g v) (hat : ReadAt c s p g.used k)
    (hk : g.used.flatten.length ≤ k + 1) :
    ∃ t, (logFsRecordRdNext c n).Returns s (.noRecord, []) t ∧ ReadOnly s t ∧ ReadAt c t p g.used k := by
  obtain ⟨us, recs, us', j, hus, hj, rfl, hadr⟩ := hat
  have hnil : us' = [] := by
    by_contra hne
    obtain ⟨recs', us', rfl⟩ := List.exists_cons_of_ne_nil hne
    have hsplit : g.used = (us ++ [recs]) ++ recs' :: us' := by rw [hus, List.append_assoc, List.singleton_append]
    have hpos := h.pos hsplit
    rw [hus, List.flatten_append, List.flatten_cons, List.flatten_cons, List.length_append, List.length_append,
      List.length_append] at hk
    omega
  subst hnil
  have hj' : j + 1 = recs.length := by
    rw [hus, List.flatten_append, List.flatten_singleton, List.length_append] at hk
    omega
  have hcount : g.used.length = us.length + 1 := by rw [hus, List.length_append, List.length_singleton]
  have hkeep : ∀ t, ReadOnly s t → t.logFs.recAdrRd = s.logFs.recAdrRd → ReadAt c t p g.used (us.flatten.length + j) :=
    fun t _ hcursor => ⟨us, recs, [], j, hus, hj, rfl, hcursor.trans hadr⟩
  rcases h.writing.cursor with ⟨hwr, hfull⟩ | ⟨last, hlast, hwr, -, hroom⟩
  · have hrd : s.logFs.recAdrRd.page = c.ring.step p g.used.length := by rw [hadr, hcount]
    obtain ⟨t, ht, hread, hcursor⟩ := nextLoop_none (n := min n c.recDataSize) hl h (by omega) hrd
    rw [hcount] at ht
    refine ⟨t, rdNext_loop hadr ?_, hread, hkeep t hread hcursor⟩
    apply nextLoop_last h hus hj' (hfull recs (by rw [hus, List.getLast?_concat]; rfl)) _ ht
    intro _ heq
    rw [hwr] at heq
    injection heq with hpage
    rw [hcount] at hpage
    exact h.step_ne (i := us.length + 1) (j := us.length + 1 + 1) (by omega) (by omega) (by omega) (by omega) hpage.symm
  · rw [hus, List.getLast?_concat, Option.some.injEq] at hlast
    rw [← hlast] at hwr hroom
    have hround : (recordRdNextRound c (min n c.recDataSize) ⟨c.ring.step p (us.length + 1), recOffset c j⟩).Returns s
        (.inr (.noRecord, [])) s := by
      apply next_written
      rw [hwr, hcount, ← hj']
      exact nextRecordAdr_inside (by omega)
    exact ⟨s, rdNext_loop hadr (Prog.loop_inr hround), ReadOnly.same s, hkeep s (ReadOnly.same s) rfl⟩

theorem Readable.flatten_ne_nil (h : Readable c s p g v) (hused : g.used ≠ []) : g.used.flatten ≠ [] := by
  obtain ⟨recs, us, hus⟩ := List.exists_cons_of_ne_nil hused
  have hsplit : g.used = [] ++ recs :: us := hus
  have hpos := h.pos hsplit
  intro hnil
  rw [hus, List.flatten_cons] at hnil
  rw [(List.append_eq_nil_iff.mp hnil).1] at hpos
  exact absurd hpos (Nat.lt_irrefl 0)

theorem rdFirst_found (hl : c.type = .linear) (h : Readable c s p g v) (hd : g.used.flatten[0]? = some d) :
    ∃ t, (logFsRecordRdFirst c n).Returns s (.none, d.take n) t ∧ ReadOnly s t ∧ ReadAt c t p g.used 0 := by
  have hused : g.used ≠ [] := by
    intro hnil
    rw [hnil] at hd
    exact absurd hd (by simp)
  obtain ⟨recs, us', hus⟩ := List.exists_cons_of_ne_nil hused
  have hus : g.used = [] ++ recs :: us' := hus
  have hpos := h.pos hus
  have hsize := h.size
  rw [← h.take_eq (List.mem_of_getElem? hd)]
  rw [hus, List.nil_append, List.flatten_cons, List.getElem?_append_left hpos] at hd
  let r : Sys := { s with logFs := { s.logFs with recAdrRd := ⟨p, c.recOffsetLast⟩ } }
  have hr : ReadOnly s r := ReadOnly.setRecAdrRd s ⟨p, c.recOffsetLast⟩
  have hcount : 0 < g.used.length := List.length_pos_iff.mpr hused
  obtain ⟨t, ht, hread, hcursor⟩ := nextLoop_page (n := min n c.recDataSize) hl (hr.readable h) hus hd (by
    change c.ring.step p (0 + 1) ≠ p
    conv_rhs => rw [← PageRing.step_zero h.page]
    exact h.step_ne (by omega) (Nat.zero_le _) (by omega) (by omega))
  rw [List.length_nil, PageRing.step_zero h.page] at ht
  refine ⟨t, ?_, hr.trans hread, [], recs, us', 0, hus, hpos, rfl, hcursor⟩
  unfold logFsRecordRdFirst
  have hnext := PageRing.next_mem h.page
  rw [getLogFs_bind, h.writing.first, if_neg hused, if_neg (mem_ne_invalid hnext)]
  apply (pagePrevious_returns hnext).bind
  rw [PageRing.prev_next h.page, setLogFs_bind]
  exact rdNext_loop rfl ht

theorem rdFirst_none (hw : Writing c s.logFs p []) : (logFsRecordRdFirst c n).Returns s (.noRecord, []) s := by
  unfold logFsRecordRdFirst
  rw [getLogFs_bind, hw.first, if_pos rfl, if_pos rfl]
  exact Prog.returns_pure.mpr ⟨rfl, rfl⟩

end forward

section backward

theorem previous_found (h : Readable c u p g v) (hus : g.used = us ++ recs :: us') (hj : recs[j]? = some d)
    (hadr : (previousRecordAdr c adr.page adr.offset).Returns s (some ⟨c.ring.step p (us.length + 1), recOffset c j⟩) u) :
    (recordRdPreviousRound c n adr).Returns s (.inr (.none, d.take n))
      (u.readRecord d ⟨c.ring.step p (us.length + 1), recOffset c j⟩) := by
  unfold recordRdPreviousRound
  apply hadr.bind
  apply ((h.record hus).recordBlockRd_valid hj).bind
  rw [if_pos rfl]
  exact readFound_returns.bind (Prog.returns_pure.mpr ⟨rfl, rfl⟩)

theorem previous_free (h : Readable c u p g v) (hus : g.used = us ++ recs :: us') (hj : recs.length ≤ j)
    (hadr : (previousRecordAdr c adr.page adr.offset).Returns s (some ⟨c.ring.step p (us.length + 1), recOffset c j⟩) u) :
    (recordRdPreviousRound c n adr).Returns s (.inl ⟨c.ring.step p (us.length + 1), recOffset c j⟩) u := by
  unfold recordRdPreviousRound
  apply hadr.bind
  apply ((h.record hus).recordBlockRd_free hj).bind
  rw [if_neg (by decide)]
  exact Prog.returns_pure.mpr ⟨rfl, rfl⟩

theorem previous_end (hadr : (previousRecordAdr c adr.page adr.offset).Returns s none u) :
    (recordRdPreviousRound c n adr).Returns s (.inr (.noRecord, [])) u := by
  unfold recordRdPreviousRound
  exact hadr.bind (Prog.returns_pure.mpr ⟨rfl, rfl⟩)

theorem previousLoop_page (hl : c.type = .linear) (h : Readable c s p g v) (hfile : s.filePage = p)
    (hus : g.used = us ++ recs :: us') (hfull : recs.length = capacity c) (hj : recs[j]? = some d) (hlast : j + 1 = recs.length) :
    ∃ t, (Prog.loop (recordRdPreviousRound c n) ⟨c.ring.step p (us.length + 1 + 1), recOffset c 0⟩).Returns s (.none, d.take n) t ∧
      ReadOnly s t ∧ t.logFs.recAdrRd = ⟨c.ring.step p (us.length + 1), recOffset c j⟩ := by
  have hh := h.record hus
  have hcount : g.used.length = us.length + (us'.length + 1) := by rw [hus, List.length_append, List.length_cons]
  have hne := h.step_ne (i := us.length + 1) (j := 0) (by omega) (by omega) (by omega) (by omega)
  have hne : c.ring.prev (c.ring.step p (us.length + 1 + 1)) ≠ s.filePage := by
    rw [hfile, PageRing.prev_step]
    rwa [PageRing.step_zero h.page] at hne
  rw [← PageRing.prev_step] at hh
  have hadr := previousRecordAdr_page (previousRecordPage_found hl PageRing.step_mem hh hne)
  rw [PageRing.prev_step] at hadr
  have hseen := ReadOnly.seen s (.record us.length recs)
  have h' := hseen.readable h
  have h1 := capacity_le (c := c)
  have h2 := recordsPerPage_le (c := c)
  by_cases hroom : recs.length = c.recordsPerPage
  · have hoffset : c.recOffsetLast = recOffset c j := by rw [← recOffset_last, ← hroom, ← hlast, Nat.add_sub_cancel]
    rw [hoffset] at hadr
    exact ⟨_, Prog.loop_inr (previous_found h' hus hj hadr), hseen.trans (ReadOnly.readRecord _ _ _), rfl⟩
  · -- the last place of the page has no record
    have hoffset : c.recOffsetLast = recOffset c (j + 1) := by
      rw [← recOffset_last]
      congr 1
      omega
    rw [hoffset] at hadr
    have hround : (recordRdPreviousRound c n ⟨c.ring.step p (us.length + 1), recOffset c (j + 1)⟩).Returns
        (s.seen (.record us.length recs)) _ _ := previous_found h' hus hj (previousRecordAdr_inside (by omega))
    exact ⟨_, Prog.loop_inl (previous_free h' hus (by omega) hadr) (Prog.loop_inr hround),
      hseen.trans (ReadOnly.readRecord _ _ _), rfl⟩

theorem rdPrevious_loop (hadr : s.logFs.recAdrRd = adr)
    (hr : (Prog.loop (recordRdPreviousRound c (min n c.recDataSize)) adr).Returns s a t) :
    (logFsRecordRdPrevious c n).Returns s a t := by
  unfold logFsRecordRdPrevious
  rw [getLogFs_bind, hadr]
  exact hr

theorem previousLoop_found (hl : c.type = .linear) (h : Readable c s p g v) (hfile : s.filePage = p) (hus : g.used = us ++ us')
    (hfull : ∀ recs ∈ us.getLast?, recs.length = capacity c) (hk : k + 1 = us.flatten.length) (hd : g.used.flatten[k]? = some d) :
    ∃ t, (Prog.loop (recordRdPreviousRound c n) ⟨c.ring.step p (us.length + 1), recOffset c 0⟩).Returns s (.none, d.take n) t ∧
      ReadOnly s t ∧ ReadAt c t p g.used k := by
  rcases List.eq_nil_or_concat us with rfl | ⟨us, recs, rfl⟩
  · exact absurd hk (by simp)
  · rw [List.concat_eq_append] at hus hk hfull ⊢
    have hus : g.used = us ++ recs :: us' := by rw [hus]; simp
    have hpos := h.pos hus
    rw [List.flatten_append, List.flatten_singleton, List.length_append] at hk
    obtain ⟨j, hj⟩ : ∃ j, j + 1 = recs.length := ⟨recs.length - 1, by omega⟩
    obtain rfl : k = us.flatten.length + j := by omega
    rw [flatten_split hus, List.getElem?_append_left (by omega)] at hd
    obtain ⟨t, ht, hread, hcursor⟩ := previousLoop_page (n := n) hl h hfile hus
      (hfull recs (by rw [List.getLast?_concat]; rfl)) hd hj
    rw [List.length_append, List.length_singleton]
    exact ⟨t, ht, hread, us, recs, us', j, hus, by omega, rfl, hcursor⟩

theorem rdPrevious_found (hl : c.type = .linear) (h : Readable c s p g v) (hfile : s.filePage = p)
    (hat : ReadAt c s p g.used (k + 1)) (hd : g.used.flatten[k]? = some d) :
    ∃ t, (logFsRecordRdPrevious c n).Returns s (.none, d.take n) t ∧ ReadOnly s t ∧ ReadAt c t p g.used k := by
  obtain ⟨us, recs, us', j, hus, hj, hk, hadr⟩ := hat
  rw [← h.take_eq (List.mem_of_getElem? hd)]
  cases j with
  | zero =>
    have hlast : ∀ x ∈ us.getLast?, x.length = capacity c := by
      intro x hx
      rcases List.eq_nil_or_concat us with rfl | ⟨us, y, rfl⟩
      · exact absurd hx (by simp)
      · rw [List.concat_eq_append] at hus hx
        rw [List.getLast?_concat, Option.mem_some_iff] at hx
        rw [← hx]
        have hsplit : g.used = us ++ y :: recs :: us' := by rw [hus, List.append_assoc, List.singleton_append]
        exact h.full hsplit (List.cons_ne_nil _ _)
    obtain ⟨t, ht, hread, hread'⟩ := previousLoop_found (n := min n c.recDataSize) hl h hfile hus hlast hk hd
    exact ⟨t, rdPrevious_loop hadr ht, hread, hread'⟩
  | succ j =>
    obtain rfl : k = us.flatten.length + j := by omega
    rw [flatten_split hus, List.getElem?_append_left (by omega)] at hd
    have hle := h.length_le hus
    have hcap := capacity_le (c := c)
    have hround : (recordRdPreviousRound c (min n c.recDataSize) ⟨c.ring.step p (us.length + 1), recOffset c (j + 1)⟩).Returns s _ _ :=
      previous_found h hus hd (previousRecordAdr_inside (by omega))
    exact ⟨_, rdPrevious_loop hadr (Prog.loop_inr hround), ReadOnly.readRecord _ _ _, us, recs, us', j, hus, by omega, rfl, rfl⟩

theorem rdPrevious_none (hl : c.type = .linear) (h : Readable c s p g v) (hfile : s.filePage = p)
    (hat : ReadAt c s p g.used 0) : (logFsRecordRdPrevious c n).Returns s (.noRecord, []) s := by
  obtain ⟨us, recs, us', j, hus, hj, hk, hadr⟩ := hat
  have hnil : us = [] := by
    by_contra hne
    obtain ⟨x, us, rfl⟩ := List.exists_cons_of_ne_nil hne
    have hsplit : g.used = [] ++ x :: (us ++ recs :: us') := hus
    have hpos := h.pos hsplit
    rw [List.flatten_cons, List.length_append] at hk
    omega
  subst hnil
  obtain rfl : j = 0 := by
    rw [List.flatten_nil, List.length_nil] at hk
    omega
  have hprev : c.ring.prev (c.ring.step p (0 + 1)) = s.filePage := by rw [PageRing.prev_step, PageRing.step_zero h.page, hfile]
  have hround : (recordRdPreviousRound c (min n c.recDataSize) ⟨c.ring.step p (0 + 1), recOffset c 0⟩).Returns s
      (.inr (.noRecord, [])) s := previous_end (previousRecordAdr_page (previousRecordPage_none hl PageRing.step_mem hprev))
  exact rdPrevious_loop hadr (Prog.loop_inr hround)

theorem rdLast_found (hl : c.type = .linear) (h : Readable c s p g v) (hfile : s.filePage = p)
    (hk : k + 1 = g.used.flatten.length) (hd : g.used.flatten[k]? = some d) :
    ∃ t, (logFsRecordRdLast c n).Returns s (.none, d.take n) t ∧ ReadOnly s t ∧ ReadAt c t p g.used k := by
  have hused : g.used ≠ [] := by
    intro hnil
    rw [hnil] at hd
    exact absurd hd (by simp)
  rw [← h.take_eq (List.mem_of_getElem? hd)]
  let r : Sys := { s with logFs := { s.logFs with recAdrRd := s.logFs.recAdrWr } }
  have hr : ReadOnly s r := ReadOnly.setRecAdrRd s s.logFs.recAdrWr
  have h' := hr.readable h
  have hloop : ∃ t, (Prog.loop (recordRdPreviousRound c (min n c.recDataSize)) s.logFs.recAdrWr).Returns r
      (.none, d.take (min n c.recDataSize)) t ∧ ReadOnly r t ∧ ReadAt c t p g.used k := by
    rcases h.writing.cursor with ⟨hwr, hfull⟩ | ⟨recs, hlast, hwr, hpos, -⟩
    · rw [hwr]
      exact previousLoop_found hl h' hfile (List.append_nil _).symm hfull hk hd
    · obtain ⟨us, hus⟩ : ∃ us, g.used = us ++ [recs] := by
        rw [List.getLast?_eq_some_getLast hused, Option.some.injEq] at hlast
        exact ⟨g.used.dropLast, by rw [← hlast, List.dropLast_concat_getLast hused]⟩
      have hcount : g.used.length = us.length + 1 := by rw [hus, List.length_append, List.length_singleton]
      obtain ⟨j, hj⟩ : ∃ j, j + 1 = recs.length := ⟨recs.length - 1, by omega⟩
      obtain rfl : k = us.flatten.length + j := by
        rw [hus, List.flatten_append, List.flatten_singleton, List.length_append] at hk
        omega
      have hle := h.length_le hus
      have hcap := capacity_le (c := c)
      rw [flatten_split hus, List.getElem?_append_left (by omega)] at hd
      rw [hwr, hcount, ← hj]
      have hround : (recordRdPreviousRound c (min n c.recDataSize) ⟨c.ring.step p (us.length + 1), recOffset c (j + 1)⟩).Returns r _ _ :=
        previous_found h' hus hd (previousRecordAdr_inside (by omega))
      exact ⟨_, Prog.loop_inr hround, ReadOnly.readRecord _ _ _, us, recs, [], j, hus, by omega, rfl, rfl⟩
  obtain ⟨t, ht, hread, hat⟩ := hloop
  refine ⟨t, ?_, hr.trans hread, hat⟩
  unfold logFsRecordRdLast
  rw [getLogFs_bind, h.writing.last, if_neg hused, if_neg (mem_ne_invalid PageRing.step_mem), setLogFs_bind]
  exact rdPrevious_loop rfl ht

theorem rdLast_none (hw : Writing c s.logFs p []) : (logFsRecordRdLast c n).Returns s (.noRecord, []) s := by
  unfold logFsRecordRdLast
  rw [getLogFs_bind, hw.last, if_pos rfl, if_pos rfl]
  exact Prog.returns_pure.mpr ⟨rfl, rfl⟩

end backward

section places

theorem Filled.flatten_length (h : Filled c used) (hus : used = us ++ recs :: us') : us.flatten.length = us.length * capacity c := by
  have hfull : ∀ x ∈ us, x.length = capacity c := by
    intro x hx
    apply h.full
    rw [hus, List.dropLast_append_of_ne_nil (by simp)]
    exact List.mem_append_left _ hx
  rw [List.length_flatten, List.map_congr_left hfull, List.map_const', List.sum_replicate_nat]

theorem exists_record (hk : k < used.flatten.length) :
    ∃ us recs us' j, used = us ++ recs :: us' ∧ j < recs.length ∧ k = us.flatten.length + j := by
  induction used generalizing k with
  | nil => exact absurd hk (Nat.not_lt_zero k)
  | cons recs used ih =>
    rw [List.flatten_cons, List.length_append] at hk
    rcases Nat.lt_or_ge k recs.length with hlt | hge
    · exact ⟨[], recs, used, k, rfl, hlt, (Nat.zero_add k).symm⟩
    · obtain ⟨us, x, us', j, rfl, hj, hk⟩ := ih (k := k - recs.length) (by omega)
      refine ⟨recs :: us, x, us', j, rfl, hj, ?_⟩
      rw [List.flatten_cons, List.length_append]
      omega

theorem ReadAt.append (hat : ReadAt c s p used k) (h : Filled c used) (h' : Filled c us) (hrd : t.logFs.recAdrRd = s.logFs.recAdrRd)
    (hle : used.flatten.length ≤ us.flatten.length) : ReadAt c t p us k := by
  obtain ⟨xs, x, xs', i, hxs, hi, rfl, hadr⟩ := hat
  have hlen := h.flatten_length hxs
  have hlt : xs.flatten.length + i < us.flatten.length := by
    apply Nat.lt_of_lt_of_le _ hle
    rw [hxs, List.flatten_append, List.flatten_cons, List.length_append, List.length_append]
    omega
  obtain ⟨ys, y, ys', j, hys, hj, hk⟩ := exists_record hlt
  have hlen' := h'.flatten_length hys
  have hi' : i < capacity c := Nat.lt_of_lt_of_le hi (h.le x (by rw [hxs]; simp))
  have hj' : j < capacity c := Nat.lt_of_lt_of_le hj (h'.le y (by rw [hys]; simp))
  rw [hlen, hlen', Nat.mul_comm, Nat.mul_comm ys.length] at hk
  have hdiv : (capacity c * xs.length + i) / capacity c = (capacity c * ys.length + j) / capacity c := by rw [hk]
  rw [Nat.mul_add_div (by omega), Nat.mul_add_div (by omega), Nat.div_eq_of_lt hi', Nat.div_eq_of_lt hj'] at hdiv
  have hcount : xs.length = ys.length := hdiv
  rw [hcount] at hk
  obtain rfl : i = j := Nat.add_left_cancel hk
  refine ⟨ys, y, ys', i, hys, hj, ?_, ?_⟩
  · rw [hlen, hlen', hcount]
  · rw [hrd, hadr, hcount]

end places

end Lpc1788Libraries.DataManager

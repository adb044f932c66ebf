import Lpc1788Libraries.DataManager.LogFsStore

namespace Lpc1788Libraries.DataManager

open Lpc1788Libraries.Support NorFlash BoundedProgram

variable {c : LogFsCfg} {σ : LogStore} {s t u : Sys} {f : Pages} {b p page k n nr : ℕ} {v : PageView} {g h : StoredFile}
  {pre mid post stored : List StoredFile} {used : List (List Rec)} {recs : List Rec} {spare : List Bool} {e : LogFsEntry}
  {file : LogFsFile} {a : LogFsAnswer} {err : LogFsErr} {ts : LogFsTimeStamp} {m : Option ℕ} {r : RecordRd}

section steps

theorem Represents.header (h : Represents c σ s) (x : LogFsPageHeader) : Represents c σ (s.setHeader x) := by
  cases h with
  | blank flash log => exact .blank flash ⟨log.first, log.last, log.nr⟩
  | stored image mounted kept info_page opened =>
    refine .stored image ⟨mounted.first, mounted.last⟩ kept info_page fun page k hk => ?_
    have ho := opened page k hk
    have hsame : SameRecords s (s.setHeader x) := ⟨rfl, rfl, rfl, rfl, rfl⟩
    exact hsame.openAt ho.filePage ho

theorem Represents.init (h : Represents c σ s) (hr : (logFsInit c).Returns s err t) :
    err = .none ∧ Represents c { σ with info := none, handle := none } t ∧ SameFlash s t := by
  cases h with
  | blank flash log =>
    obtain ⟨u, hu, hf, hi, hm⟩ := init_unmounted flash
    obtain ⟨rfl, rfl⟩ := hu.unique hr
    exact ⟨rfl, .blank (by rwa [hf]) hm, hf, hi⟩
  | stored image mounted kept info opened =>
    obtain ⟨u, hu, hf, hi, hm⟩ := init_mounted image
    obtain ⟨rfl, rfl⟩ := hu.unique hr
    exact ⟨rfl, .stored (by rwa [hf]) hm kept (by simp) (by simp), hf, hi⟩

theorem createdLog_writing {l : LogFs} (hp : c.ring.Mem p) : Writing c (createdLog c ts p l) p [] := by
  refine ⟨rfl, rfl, rfl, .inl ⟨?_, by simp⟩⟩
  rw [recOffset_zero, List.length_nil, Nat.zero_add, PageRing.step_one hp]
  rfl

theorem exists_two {spare : List Bool} (h : 2 ≤ spare.length) : ∃ e e' rest, spare = e :: e' :: rest := by
  obtain ⟨e, spare, rfl⟩ := List.exists_cons_of_length_pos (Nat.lt_of_lt_of_le Nat.zero_lt_two h)
  obtain ⟨e', rest, rfl⟩ := List.exists_cons_of_length_pos (Nat.le_of_succ_le_succ h)
  exact ⟨e, e', rest, rfl⟩

theorem Represents.create (h : Represents c σ s) (hr : (logFsCreate c ts).Returns s err t) :
    (err = .none ∨ err = .full ∧ σ.files ≠ []) ∧
      Represents c (if err = .none then ⟨σ.files ++ [⟨t.filePage, ts, []⟩], some t.filePage, some (t.filePage, none)⟩ else σ) t := by
  cases h with
  | blank flash log =>
    obtain ⟨u, q, e, rest, hu, himage, hm, hl, -⟩ := create_unmounted flash log ts
    obtain ⟨rfl, rfl⟩ := hu.unique hr
    have hq := himage.volume.base
    have hfile : u.filePage = q := by
      rw [Sys.filePage, hl]
      rfl
    have h0 : pageAfter c q [] = q := PageRing.step_zero hq
    rw [if_pos rfl, hfile]
    have hkept : Kept c q [.new s.logFs.filePageNrNext ts rest] := (kept_single hq).mpr ⟨List.not_mem_nil, fits_nil hq⟩
    refine ⟨.inl rfl, @Represents.stored c q _ (some q) _ _ himage hm hkept ?_ ?_⟩
    · rintro page hpage
      obtain rfl := Option.mem_some_iff.mp hpage
      exact ⟨hfile, (mem_places hq).mpr ⟨[], _, [], rfl, h0.symm⟩⟩
    · intro page k hpage
      obtain ⟨rfl, rfl⟩ := Prod.mk.inj (Option.some.inj hpage)
      refine ⟨⟨[], _, [], rfl, h0.symm, ?_, by simp⟩, hfile ▸ hq⟩
      rw [hl]
      exact createdLog_writing hq
  | @stored b stored info handle _ image mounted kept info_page opened =>
    obtain ⟨pre, g, rfl⟩ := exists_newest image.volume.not_blank
    have hb := image.volume.base
    by_cases hroom : g.spare.length < 2
    · obtain ⟨x, hx⟩ := create_full image.volume mounted hroom ts
      obtain ⟨rfl, rfl⟩ := hx.unique hr
      refine ⟨.inr ⟨rfl, ?_⟩, ?_⟩
      · rw [entries_append hb]
        simp [entries]
      · rw [if_neg (by decide)]
        exact (Represents.stored image mounted kept info_page opened).header x
    · obtain ⟨e, e', rest, hspare⟩ := exists_two (Nat.le_of_not_lt hroom)
      obtain ⟨u, x, hu, himage, hm, hl, -⟩ := create_mounted image mounted hspare ts
      obtain ⟨rfl, rfl⟩ := hu.unique hr
      have hfile : u.filePage = pageAfter c b (pre ++ [g.closed]) := by
        rw [Sys.filePage, hl]
        rfl
      have hkept : Kept c b ((pre ++ [g.closed]) ++ [.new s.logFs.filePageNrNext ts rest]) := by
        rw [kept_append, kept_single pageAfter_mem] at kept
        rw [kept_append, kept_append, kept_single pageAfter_mem, kept_single pageAfter_mem]
        exact ⟨kept, List.not_mem_nil, fits_nil pageAfter_mem⟩
      have hentries : entries c b (pre ++ [g]) ++ [⟨u.filePage, ts, []⟩] =
          entries c b ((pre ++ [g.closed]) ++ [.new s.logFs.filePageNrNext ts rest]) := by
        rw [entries_append hb, entries_append hb, entries_append hb, hfile]
        rfl
      rw [if_pos rfl]
      refine ⟨.inl rfl, ?_⟩
      simp only
      rw [hentries]
      refine .stored himage hm hkept ?_ ?_
      · rintro page hpage
        obtain rfl := Option.mem_some_iff.mp hpage
        refine ⟨rfl, (mem_places hb).mpr ⟨_, _, [], rfl, hfile⟩⟩
      · intro page k hpage
        obtain ⟨rfl, rfl⟩ := Prod.mk.inj (Option.some.inj hpage)
        refine ⟨⟨_, _, [], rfl, hfile, ?_, by simp⟩, hfile ▸ pageAfter_mem⟩
        rw [hl, hfile]
        exact createdLog_writing pageAfter_mem

theorem Represents.described (h : Represents c σ s) (hd : Described s t e.place e.stamp) (hb : c.ring.Mem e.place)
    (hpage : e.place ∈ σ.files.places) : Represents c { σ with info := some e.place } t := by
  cases h with
  | blank flash log => exact absurd hpage List.not_mem_nil
  | stored image mounted kept info_page opened =>
    refine .stored (by rwa [hd.flash]) (hd.mounted mounted) kept ?_ ?_
    · rintro page hp
      obtain rfl := Option.mem_some_iff.mp hp
      exact ⟨hd.filePage, hpage⟩
    · intro page k hk
      exact hd.sameRecords.openAt (hd.filePage ▸ hb) (opened page k hk)

theorem Represents.fileFindFirst {a : LogFsErr × Option LogFsFile} (h : Represents c σ s) (hr : logFsFileFindFirst.Returns s a t) :
    .ofFile a = fileAnswer σ.files.head? ∧ Represents c (σ.noticed σ.files.head?) t ∧ SameFlash s t := by
  have hrep := h
  cases h with
  | blank flash log =>
    unfold logFsFileFindFirst at hr
    rw [getLogFs_bind, log.first, if_pos rfl] at hr
    obtain ⟨rfl, rfl⟩ := Prog.returns_pure.mp hr
    exact ⟨rfl, hrep, rfl, rfl⟩
  | stored image mounted kept info_page opened =>
    obtain ⟨g, files, rfl⟩ := List.exists_cons_of_ne_nil image.volume.not_blank
    obtain ⟨u, hu, hd⟩ := fileFindFirst_returns image.volume mounted
    obtain ⟨rfl, rfl⟩ := hu.unique hr
    exact ⟨rfl, hrep.described (e := g.entry _) hd image.volume.base (List.mem_cons_self ..), hd.sameFlash⟩

theorem Represents.fileFindLast {a : LogFsErr × Option LogFsFile} (h : Represents c σ s) (hr : logFsFileFindLast.Returns s a t) :
    .ofFile a = fileAnswer σ.files.getLast? ∧ Represents c (σ.noticed σ.files.getLast?) t ∧ SameFlash s t := by
  have hrep := h
  cases h with
  | blank flash log =>
    unfold logFsFileFindLast at hr
    rw [getLogFs_bind, log.last, if_pos rfl] at hr
    obtain ⟨rfl, rfl⟩ := Prog.returns_pure.mp hr
    exact ⟨rfl, hrep, rfl, rfl⟩
  | @stored b stored info handle _ image mounted kept info_page opened =>
    obtain ⟨pre, g, rfl⟩ := exists_newest image.volume.not_blank
    obtain ⟨u, hu, hd⟩ := fileFindLast_returns image.volume mounted
    obtain ⟨rfl, rfl⟩ := hu.unique hr
    have hlast : (entries c b (pre ++ [g])).getLast? = some (g.entry (pageAfter c b pre)) := by
      rw [entries_split image.volume.base]
      exact List.getLast?_concat
    simp only
    rw [hlast]
    refine ⟨rfl, hrep.described hd pageAfter_mem ?_, hd.sameFlash⟩
    exact (mem_places image.volume.base).mpr ⟨pre, g, [], rfl, rfl⟩

theorem entry_behind (hv : Volume c f b (layout (pre ++ g :: post))) :
    (entries c b (pre ++ g :: post)).behind (pageAfter c b pre) = (entries c (pageAfter c b (pre ++ [g])) post).head? := by
  have hnodup := nodup_places hv
  rw [entries_split hv.base] at hnodup ⊢
  exact RecordLog.behind_split (e := g.entry (pageAfter c b pre)) (RecordLog.nodup_split hnodup).1

theorem entry_before (hv : Volume c f b (layout (pre ++ g :: post))) :
    (entries c b (pre ++ g :: post)).before (pageAfter c b pre) = (entries c b pre).getLast? := by
  have hnodup := nodup_places hv
  rw [entries_split hv.base] at hnodup ⊢
  exact RecordLog.before_split (e := g.entry (pageAfter c b pre)) (RecordLog.nodup_split hnodup).2

theorem Represents.fileFindNext {a : LogFsErr × Option LogFsFile} (h : Represents c σ s) (hp : σ.info ≠ none)
    (hr : (logFsFileFindNext c).Returns s a t) :
    .ofFile a = fileAnswer (σ.finds .fileFindNext) ∧ Represents c (σ.noticed (σ.finds .fileFindNext)) t ∧ SameFlash s t := by
  have hrep := h
  cases h with
  | blank flash log => exact absurd rfl hp
  | @stored b stored info handle _ image mounted kept info_page opened =>
    obtain ⟨page, rfl⟩ := Option.ne_none_iff_exists'.mp hp
    obtain ⟨hpage, hmem⟩ := info_page page rfl
    have hb := image.volume.base
    obtain ⟨pre, g, post, rfl, rfl⟩ := (mem_places hb).mp hmem
    have hfinds : LogStore.finds ⟨entries c b (pre ++ g :: post), some (pageAfter c b pre), handle⟩ .fileFindNext =
        (entries c (pageAfter c b (pre ++ [g])) post).head? := entry_behind image.volume
    rw [hfinds]
    cases post with
    | nil =>
      have hend := fileFindNext_end mounted hpage
      obtain ⟨rfl, rfl⟩ := hend.unique hr
      exact ⟨rfl, hrep, rfl, rfl⟩
    | cons h post =>
      obtain ⟨u, hu, hd⟩ := fileFindNext_returns image.volume mounted hpage
      obtain ⟨rfl, rfl⟩ := hu.unique hr
      refine ⟨rfl, hrep.described (e := h.entry _) hd pageAfter_mem ?_, hd.sameFlash⟩
      exact (mem_places hb).mpr ⟨pre ++ [g], h, post, by simp, rfl⟩

theorem Represents.fileFindPrevious {a : LogFsErr × Option LogFsFile} (h : Represents c σ s) (hp : σ.info ≠ none)
    (hr : (logFsFileFindPrevious c).Returns s a t) :
    .ofFile a = fileAnswer (σ.finds .fileFindPrevious) ∧ Represents c (σ.noticed (σ.finds .fileFindPrevious)) t ∧ SameFlash s t := by
  have hrep := h
  cases h with
  | blank flash log => exact absurd rfl hp
  | @stored b stored info handle _ image mounted kept info_page opened =>
    obtain ⟨page, rfl⟩ := Option.ne_none_iff_exists'.mp hp
    obtain ⟨hpage, hmem⟩ := info_page page rfl
    have hb := image.volume.base
    obtain ⟨pre, g, post, rfl, rfl⟩ := (mem_places hb).mp hmem
    have hfinds : LogStore.finds ⟨entries c b (pre ++ g :: post), some (pageAfter c b pre), handle⟩ .fileFindPrevious =
        (entries c b pre).getLast? := entry_before image.volume
    rw [hfinds]
    rcases List.eq_nil_or_concat pre with rfl | ⟨pre, h, rfl⟩
    · have hend := fileFindPrevious_end image.volume mounted (hpage.trans (PageRing.step_zero hb))
      obtain ⟨rfl, rfl⟩ := hend.unique hr
      exact ⟨rfl, hrep, rfl, rfl⟩
    · rw [List.concat_eq_append] at *
      have hassoc : (pre ++ [h]) ++ g :: post = pre ++ h :: g :: post := by simp
      have hlast : (entries c b (pre ++ [h])).getLast? = some (h.entry (pageAfter c b pre)) := by
        rw [entries_split hb]
        exact List.getLast?_concat
      rw [hassoc] at image mounted
      obtain ⟨u, hu, hd⟩ := fileFindPrevious_returns image.volume mounted hpage
      obtain ⟨rfl, rfl⟩ := hu.unique hr
      rw [hlast]
      refine ⟨rfl, hrep.described hd pageAfter_mem ?_, hd.sameFlash⟩
      exact (mem_places hb).mpr ⟨pre, h, g :: post, hassoc, rfl⟩

theorem open_other (hh : Holds c s.flash file.startPage v) (hv : v.marker ≠ logFsMarkerFile) :
    (logFsOpen c file).Returns s .fileInvalid (s.seen v) := by
  rw [open_eq]
  apply (hh.fileBlockRd_other hv).bind
  rw [if_pos (by decide)]
  exact Prog.returns_pure.mpr ⟨rfl, rfl⟩

theorem Represents.not_file (h : Represents c σ s) (page : ℕ) (hp : page ∉ σ.files.places) :
    ∃ v, Holds c s.flash page v ∧ v.marker ≠ logFsMarkerFile := by
  by_cases hmem : c.ring.Mem page
  · cases h with
    | blank flash log =>
      obtain ⟨spare, hv⟩ := flash
      obtain ⟨k, v, -, -, hk, hh⟩ := hv.exists_view hmem
      exact ⟨v, hh, spare_not_file (List.mem_of_getElem? hk)⟩
    | stored image mounted kept info_page opened =>
      obtain ⟨k, v, -, -, -, hh⟩ := image.volume.exists_view hmem
      refine ⟨v, hh, fun hv => hp ?_⟩
      obtain ⟨pre, g, post, hfiles, hpage, -⟩ := image.volume.exists_file hmem hh hv
      exact (mem_places image.volume.base).mpr ⟨pre, g, post, hfiles, hpage⟩
  · refine ⟨.free, ?_, by decide⟩
    cases h with
    | blank flash log =>
      obtain ⟨spare, hv⟩ := flash
      exact hv.outside page hmem
    | stored image mounted kept info_page opened => exact image.volume.outside page hmem

theorem Represents.open (hl : c.type = .linear) (hcap : 0 < capacity c) (h : Represents c σ s)
    (hr : (logFsOpen c file).Returns s err t) :
    err = (if file.startPage ∈ σ.files.places then .none else .fileInvalid) ∧
      Represents c (if err = .none then { σ with info := some file.startPage, handle := some (file.startPage, none) } else σ) t := by
  by_cases hmem : file.startPage ∈ σ.files.places
  · cases h with
    | blank flash log => exact absurd hmem List.not_mem_nil
    | @stored b stored info handle _ image mounted kept info_page opened =>
      have hb := image.volume.base
      obtain ⟨pre, g, post, rfl, hpage⟩ := (mem_places hb).mp hmem
      obtain ⟨hnonempty, hfits⟩ := (kept_split.mp kept).2.1
      obtain ⟨rfl, u, spare, hd, ho⟩ := open_cases hl image mounted hfits (fun _ => hnonempty) hpage hr
      have hlen := length_holding image.volume ho.volume
      have hfilled : Filled c g.used := image.filled g (by simp)
      have hentries : entries c b (pre ++ g :: post) = entries c b (pre ++ g.holding g.used spare :: post) := by
        rw [entries_edit hb hlen, entries_split hb]
        rfl
      have hfile : t.filePage = pageAfter c b pre := by
        rw [Sys.filePage, ho.files.fileInfo]
        exact hd.filePage
      rw [if_pos hmem, if_pos rfl, hpage]
      refine ⟨rfl, ?_⟩
      simp only
      rw [hentries]
      have hm := hd.mounted mounted
      refine .stored (image.edit ho.volume hfilled) (hm.edit hlen ho.files.first ho.files.last ho.files.nr) ?_ ?_ ?_
      · rw [kept_split] at kept ⊢
        rw [pageAfter_edit hlen]
        exact kept
      · rintro page hp
        obtain rfl := Option.mem_some_iff.mp hp
        exact ⟨hfile, (mem_places hb).mpr ⟨pre, _, post, rfl, rfl⟩⟩
      · intro page k hk
        obtain ⟨rfl, rfl⟩ := Prod.mk.inj (Option.some.inj hk)
        exact ⟨⟨pre, _, post, rfl, rfl, ho.writing hcap, by simp⟩, hfile ▸ pageAfter_mem⟩
  · obtain ⟨v, hh, hv⟩ := h.not_file _ hmem
    obtain ⟨rfl, rfl⟩ := (open_other hh hv).unique hr
    rw [if_neg hmem, if_neg (by decide)]
    exact ⟨rfl, h.header _⟩

theorem delete_unread (hh : Holds c s.flash file.startPage v) (hv : v.marker ≠ logFsMarkerFile)
    (hfirst : file.startPage = s.logFs.filePageFirst) : (logFsFileDelete c file).Returns s .fileInvalid (s.seen v) := by
  unfold logFsFileDelete
  rw [getLogFs_bind, if_neg (not_not.mpr hfirst)]
  apply (hh.fileBlockRd_other hv).bind
  rw [if_pos (by decide)]
  exact Prog.returns_pure.mpr ⟨rfl, rfl⟩

theorem entries_extended {freed : List Bool} (hb : c.ring.Mem b) :
    entries c b (mid ++ [h.extended freed]) = entries c b (mid ++ [h]) := by
  rw [entries_append hb, entries_append hb]
  rfl

theorem kept_extended {freed : List Bool} (hk : Kept c b (mid ++ [h])) : Kept c b (mid ++ [h.extended freed]) := by
  rw [kept_append, kept_single pageAfter_mem] at hk ⊢
  exact hk

theorem OpenAt.extended {freed : List Bool} {k : Option ℕ} (ho : OpenAt c b (mid ++ [h]) s page k) :
    OpenAt c b (mid ++ [h.extended freed]) s page k := by
  obtain ⟨pre, g, post, hstored, hpage, hw, hk⟩ := ho.file
  refine ⟨?_, ho.filePage⟩
  rcases List.eq_nil_or_concat post with rfl | ⟨post, x, rfl⟩
  · obtain ⟨rfl, rfl⟩ := snoc_inj hstored
    exact ⟨mid, h.extended freed, [], rfl, hpage, hw, hk⟩
  · have hassoc : pre ++ g :: (post ++ [x]) = (pre ++ g :: post) ++ [x] := by simp
    rw [List.concat_eq_append, hassoc] at hstored
    obtain ⟨rfl, rfl⟩ := snoc_inj hstored
    exact ⟨pre, g, post ++ [h.extended freed], by simp, hpage, hw, hk⟩

theorem OpenAt.tail {k : Option ℕ} (hb : c.ring.Mem b) (ho : OpenAt c b (g :: stored) s page k) (hne : page ≠ b) :
    OpenAt c (c.ring.step b g.pages.length) stored s page k := by
  obtain ⟨pre, x, post, hstored, rfl, hw, hk⟩ := ho.file
  refine ⟨?_, ho.filePage⟩
  cases pre with
  | nil => exact absurd (PageRing.step_zero hb) hne
  | cons y pre =>
    obtain ⟨rfl, rfl⟩ := List.cons.inj hstored
    exact ⟨pre, x, post, rfl, pageAfter_cons, hw, hk⟩

theorem Represents.fileDelete (h : Represents c σ s) (hr : (logFsFileDelete c file).Returns s err t) :
    err = (if σ.files.places.head? = some file.startPage then .none else .fileInvalid) ∧
      Represents c (if err = .none then ⟨σ.files.tail, none, σ.handle.filter fun h => h.1 ≠ file.startPage⟩ else σ) t := by
  have hrep := h
  cases h with
  | blank flash log =>
    by_cases hfirst : file.startPage = s.logFs.filePageFirst
    · obtain ⟨v, hh, hv⟩ := hrep.not_file file.startPage List.not_mem_nil
      obtain ⟨rfl, rfl⟩ := (delete_unread hh hv hfirst).unique hr
      exact ⟨rfl, hrep.header _⟩
    · obtain ⟨rfl, rfl⟩ := (delete_invalid hfirst).unique hr
      exact ⟨rfl, hrep⟩
  | @stored b stored info handle _ image mounted kept info_page opened =>
    have hb := image.volume.base
    obtain ⟨g, files, rfl⟩ := List.exists_cons_of_ne_nil image.volume.not_blank
    have hhead : (entries c b (g :: files)).places.head? = some b := rfl
    by_cases hfile : file.startPage = b
    · have hclosed : ∀ page k, handle.filter (fun h => h.1 ≠ file.startPage) = some (page, k) →
          page ≠ b ∧ OpenAt c b (g :: files) s page k := by
        intro page k hk
        obtain ⟨hk, hne⟩ := Option.filter_eq_some_iff.mp hk
        rw [← hfile]
        exact ⟨of_decide_eq_true hne, hfile ▸ opened page k hk⟩
      rw [hhead, hfile, if_pos rfl]
      rcases List.eq_nil_or_concat files with rfl | ⟨mid, h, rfl⟩
      · obtain ⟨u, x, hu, hblank, hm, -, -⟩ := delete_only image mounted hfile
        obtain ⟨rfl, rfl⟩ := hu.unique hr
        have hnone : handle.filter (fun h => h.1 ≠ file.startPage) = none := by
          rw [Option.eq_none_iff_forall_ne_some]
          rintro ⟨page, k⟩ hk
          obtain ⟨hne, ho⟩ := hclosed page k hk
          obtain ⟨pre, x, post, hstored, -⟩ := (ho.tail hb hne).file
          exact absurd hstored (by simp)
        rw [hfile] at hnone
        rw [if_pos rfl]
        refine ⟨rfl, ?_⟩
        simp only
        rw [hnone]
        exact .blank hblank hm
      · rw [List.concat_eq_append] at *
        obtain ⟨u, x, hu, himage, hm, hl, -⟩ := delete_older image mounted hfile
        obtain ⟨rfl, rfl⟩ := hu.unique hr
        have htail : (entries c b (g :: (mid ++ [h]))).tail =
            entries c (c.ring.step b g.pages.length) (mid ++ [h.extended g.freed]) := by
          rw [entries_extended PageRing.step_mem]
          rfl
        have hkept : Kept c (c.ring.step b g.pages.length) (mid ++ [h]) := by
          have : Kept c (pageAfter c b ([] ++ [g])) (mid ++ [h]) := (kept_split.mp kept).2.2
          rwa [List.nil_append, pageAfter, layout_single] at this
        rw [if_pos rfl]
        refine ⟨rfl, ?_⟩
        simp only
        rw [htail]
        refine .stored himage hm (kept_extended hkept) (by simp) ?_
        intro page k hk
        rw [← hfile] at hk
        obtain ⟨hne, ho⟩ := hclosed page k hk
        have hsame : SameRecords s u := by
          constructor <;> rw [hl] <;> rfl
        apply hsame.openAt _ (ho.tail hb hne).extended
        rw [Sys.filePage, hl]
        exact hb
    · have hfirst : file.startPage ≠ s.logFs.filePageFirst := by rwa [mounted.first]
      obtain ⟨rfl, rfl⟩ := (delete_invalid hfirst).unique hr
      rw [hhead, if_neg (fun h => hfile (Option.some.inj h).symm), if_neg (by decide)]
      exact ⟨rfl, hrep⟩

theorem records_eq (info k : Option ℕ) (hv : Volume c f b (layout (pre ++ g :: post))) :
    LogStore.records ⟨entries c b (pre ++ g :: post), info, some (pageAfter c b pre, k)⟩ = g.used.flatten := by
  have hnodup := nodup_places hv
  change (entries c b (pre ++ g :: post)).recordsAt (pageAfter c b pre) = _
  rw [entries_split hv.base] at hnodup ⊢
  exact RecordLog.recordsAt_split (e := g.entry (pageAfter c b pre)) (RecordLog.nodup_split hnodup).1

theorem Fits.length_le {used' : List (List Rec)} (h : Fits c p used) (hle : used'.length ≤ used.length) : Fits c p used' := by
  obtain ⟨n, hn, hused⟩ := h
  exact ⟨n, hn, Nat.le_trans hle hused⟩

theorem Writing.nonempty {l : LogFs} (hcap : 0 < capacity c) (hw : Writing c l p used) (hf : Filled c used) : [] ∉ used := by
  intro hmem
  obtain ⟨us, recs, rfl⟩ : ∃ us recs, used = us ++ [recs] := by
    rcases List.eq_nil_or_concat used with rfl | ⟨us, recs, hus⟩
    · exact absurd hmem List.not_mem_nil
    · exact ⟨us, recs, hus.trans (List.concat_eq_append ..)⟩
  have hlast : 0 < recs.length := by
    rcases hw.cursor with ⟨-, hfull⟩ | ⟨x, hx, -, hpos, -⟩
    · rw [hfull recs (by rw [List.getLast?_concat]; rfl)]
      exact hcap
    · rw [List.getLast?_concat, Option.some.injEq] at hx
      rwa [hx]
  rcases List.mem_append.mp hmem with hmem | hmem
  · have := (filled_snoc.mp hf).1 [] hmem
    rw [List.length_nil] at this
    omega
  · rw [← List.mem_singleton.mp hmem] at hlast
    exact absurd hlast (Nat.lt_irrefl 0)

theorem Writing.full_pages {l : LogFs} (hw : Writing c l p used) (hf : Filled c used)
    (hadr : l.recAdrWr = ⟨c.ring.step p (used.length + 1), recOffset c 0⟩) : used.flatten.length = used.length * capacity c := by
  have hfull : ∀ recs ∈ used.getLast?, recs.length = capacity c := by
    rcases hw.cursor with ⟨-, hfull⟩ | ⟨x, hx, hcursor, hpos, -⟩
    · exact hfull
    · rw [hadr] at hcursor
      injection hcursor with hpage hoffset
      rw [recOffset_inj] at hoffset
      omega
  rcases List.eq_nil_or_concat used with rfl | ⟨us, recs, rfl⟩
  · simp
  · rw [List.concat_eq_append] at *
    have hlast := hfull recs (by rw [List.getLast?_concat]; rfl)
    rw [List.flatten_append, List.length_append, hf.flatten_length rfl, List.flatten_singleton, hlast, List.length_append,
      List.length_singleton, Nat.add_mul, Nat.one_mul]

theorem Represents.recordWr {data : List UInt8} {k : Option ℕ} (hl : c.type = .linear) (hcap : 0 < capacity c) (h : Represents c σ s)
    (hhandle : σ.handle = some (page, k)) (hinfo : c.maxPages ≠ 0 → σ.info = some page) (hr : (logFsRecordWr c data).Returns s err t) :
    (err = .none ∨ (err = .full ∧ capacity c ∣ σ.records.length) ∨ err = .writeFail ∧ capacity c < c.recordsPerPage) ∧
      Represents c (if err = .none then { σ with files := σ.files.append page (recordData c.recDataSize data) } else σ) t := by
  have hrep := h
  cases h with
  | blank flash log => exact absurd hhandle (by simp [LogStore.empty])
  | @stored b stored info handle _ image mounted kept info_page opened =>
    obtain rfl : handle = some (page, k) := hhandle
    have hb := image.volume.base
    have ho := opened page k rfl
    obtain ⟨pre, g, post, rfl, rfl, hw, hat⟩ := ho.file
    have hfilled : Filled c g.used := image.filled g (by simp)
    rcases recordWr_cases hl image hw hr with ⟨rfl, rfl, hfull⟩ | ⟨used, spare, happ⟩
    · rw [if_neg (by decide), records_eq _ _ image.volume]
      refine ⟨.inr (.inl ⟨rfl, ?_⟩), hrep⟩
      rw [hw.full_pages hfilled hfull.cursor]
      exact Nat.dvd_mul_left _ _
    · have hlen := length_holding image.volume happ.image.volume
      have hfilled' : Filled c used := happ.image.filled (g.holding used spare) (by simp)
      have hsize : used.length < c.ring.size := by
        have hv := happ.image.volume.length
        rw [layout_append, layout_cons, List.length_append, List.length_append, length_pages] at hv
        change _ + (used.length + _ + 1 + _) = _ at hv
        omega
      have hfits : Fits c (pageAfter c b pre) used := by
        have hfits := (kept_split.mp kept).2.1.2
        rcases happ.pages with hsame | ⟨hmore, hbound⟩
        · exact hfits.length_le (Nat.le_of_eq hsame)
        · by_cases h0 : c.maxPages = 0
          · exact fits_unbounded h0 pageAfter_mem hsize
          · have hpage := (info_page _ (hinfo h0)).1
            have hnext := hfits.next [] pageAfter_mem hpage hbound (by omega)
            apply hnext.length_le
            rw [List.length_append, List.length_singleton, hmore]
      obtain ⟨x, y, first, last, nr, adr, honly⟩ := happ.only
      have hrd : t.logFs.recAdrRd = s.logFs.recAdrRd := by rw [honly]
      have hfile : t.filePage = s.filePage := by
        rw [Sys.filePage, honly]
        rfl
      have hle : g.used.flatten.length ≤ used.flatten.length := by
        rcases happ.records with ⟨-, hrecs⟩ | ⟨-, -, hrecs⟩
        · rw [hrecs, List.length_append]
          omega
        · rw [hrecs]
      have hentries : entries c b (pre ++ g.holding used spare :: post) =
          if err = .none then (entries c b (pre ++ g :: post)).append (pageAfter c b pre) (recordData c.recDataSize data)
          else entries c b (pre ++ g :: post) := by
        have hnodup := nodup_places image.volume
        rw [entries_split hb] at hnodup
        rw [entries_edit hb hlen, entries_split hb]
        rcases happ.records with ⟨rfl, hrecs⟩ | ⟨rfl, -, hrecs⟩
        · have hentry : (g.holding used spare).entry (pageAfter c b pre) =
              ⟨pageAfter c b pre, g.timeStamp, g.used.flatten ++ [recordData c.recDataSize data]⟩ := by
            rw [← hrecs]
            rfl
          rw [if_pos rfl, hentry]
          exact (RecordLog.append_split (e := g.entry (pageAfter c b pre)) hnodup).symm
        · have hentry : (g.holding used spare).entry (pageAfter c b pre) = g.entry (pageAfter c b pre) := by
            rw [StoredFile.entry, StoredFile.entry, ← hrecs]
            rfl
          rw [if_neg (by decide), hentry]
      refine ⟨?_, ?_⟩
      · rcases happ.records with ⟨rfl, -⟩ | ⟨rfl, hlt, -⟩
        · exact .inl rfl
        · exact .inr (.inr ⟨rfl, hlt⟩)
      · have hstore : (if err = .none then LogStore.mk ((entries c b (pre ++ g :: post)).append (pageAfter c b pre) (recordData c.recDataSize data))
            info (some (pageAfter c b pre, k)) else ⟨entries c b (pre ++ g :: post), info, some (pageAfter c b pre, k)⟩) =
            ⟨entries c b (pre ++ g.holding used spare :: post), info, some (pageAfter c b pre, k)⟩ := by
          rw [hentries]
          split <;> rfl
        rw [hstore]
        refine .stored happ.image (mounted.edit hlen ?_ ?_ ?_) ?_ ?_ ?_
        · rw [honly]
        · rw [honly]
        · rw [honly]
        · rw [kept_split] at kept ⊢
          rw [pageAfter_edit hlen]
          exact ⟨kept.1, ⟨happ.writing.nonempty hcap hfilled', hfits⟩, kept.2.2⟩
        · intro page hp
          obtain ⟨hpage, hmem⟩ := info_page page hp
          refine ⟨hfile.trans hpage, ?_⟩
          rw [hentries]
          split
          · rw [RecordLog.places_appended]
            exact hmem
          · exact hmem
        · intro page k' hk
          obtain ⟨rfl, rfl⟩ := Prod.mk.inj (Option.some.inj hk)
          refine ⟨⟨pre, _, post, rfl, rfl, happ.writing, fun i hi => ?_⟩, hfile ▸ ho.filePage⟩
          exact (hat i hi).append hfilled hfilled' hrd hle

end steps

section reads

theorem readable (image : Image c s.flash b (pre ++ g :: post)) (kept : Kept c b (pre ++ g :: post))
    (hw : Writing c s.logFs (pageAfter c b pre) g.used) : ∃ v, Readable c s (pageAfter c b pre) g v := by
  obtain ⟨v, hv, hA⟩ := image.volume.behind
  refine ⟨v, pageAfter_mem, hA, hv, ?_, hw, image.filled g (by simp), (kept_split.mp kept).2.1.1⟩
  have hlen := image.volume.at_file.length
  rw [List.length_append] at hlen
  omega

theorem ReadOnly.represents {info k : Option ℕ} (hread : ReadOnly s t) (image : Image c s.flash b (pre ++ g :: post))
    (mounted : Mounted c s.logFs b (pre ++ g :: post)) (kept : Kept c b (pre ++ g :: post))
    (info_page : ∀ page ∈ info, s.filePage = page ∧ page ∈ (entries c b (pre ++ g :: post)).places)
    (hw : Writing c s.logFs (pageAfter c b pre) g.used) (hmem : c.ring.Mem s.filePage)
    (hat : ∀ j ∈ k, ReadAt c t (pageAfter c b pre) g.used j) :
    Represents c ⟨entries c b (pre ++ g :: post), info, some (pageAfter c b pre, k)⟩ t := by
  have hsame := hread.sameFiles
  have hfile : t.filePage = s.filePage := by rw [Sys.filePage, hsame.fileInfo, Sys.filePage]
  refine .stored (by rwa [hread.flash]) ?_ kept ?_ ?_
  · refine ⟨hsame.first.trans mounted.first, fun xs x hx => ?_⟩
    rw [hsame.last, hsame.nr]
    exact mounted.last xs x hx
  · intro page hp
    rw [hfile]
    exact info_page page hp
  · intro page k' hk
    obtain ⟨rfl, rfl⟩ := Prod.mk.inj (Option.some.inj hk)
    exact ⟨⟨pre, g, post, rfl, rfl, hread.writing hw, hat⟩, hfile ▸ hmem⟩

theorem read_step {info k i : Option ℕ} {m : SysM RecordRd} (image : Image c s.flash b (pre ++ g :: post))
    (mounted : Mounted c s.logFs b (pre ++ g :: post)) (kept : Kept c b (pre ++ g :: post))
    (info_page : ∀ page ∈ info, s.filePage = page ∧ page ∈ (entries c b (pre ++ g :: post)).places)
    (hw : Writing c s.logFs (pageAfter c b pre) g.used) (hmem : c.ring.Mem s.filePage)
    (hfound : ∀ j ∈ i, ∀ d, g.used.flatten[j]? = some d →
      ∃ u, m.Returns s (.none, d.take n) u ∧ ReadOnly s u ∧ ReadAt c u (pageAfter c b pre) g.used j)
    (hnone : i.bind (fun j => g.used.flatten[j]?) = none →
      ∃ u, m.Returns s (.noRecord, []) u ∧ ReadOnly s u ∧ ∀ j ∈ k, ReadAt c u (pageAfter c b pre) g.used j)
    (hr : m.Returns s r t) :
    LogFsAnswer.ofRecord r = recordAnswer n (i.bind fun j => g.used.flatten[j]?) ∧
      Represents c (LogStore.moved ⟨entries c b (pre ++ g :: post), info, some (pageAfter c b pre, k)⟩ i) t ∧
        SameFlash s t := by
  have hrecords := records_eq info k image.volume
  cases hd : i.bind fun j => g.used.flatten[j]? with
  | none =>
    obtain ⟨u, hu, hread, hat⟩ := hnone hd
    obtain ⟨rfl, rfl⟩ := hu.unique hr
    have hmoved : (i.bind fun j => (g.used.flatten[j]?).map fun _ => j) = none := by
      cases i with
      | none => rfl
      | some j =>
        have hj : g.used.flatten[j]? = none := hd
        rw [Option.bind_some, hj]
        rfl
    refine ⟨rfl, ?_, hread.flash, hread.images⟩
    unfold LogStore.moved
    rw [hrecords, hmoved]
    exact hread.represents image mounted kept info_page hw hmem hat
  | some d =>
    obtain ⟨j, rfl, hj⟩ := Option.bind_eq_some_iff.mp hd
    obtain ⟨u, hu, hread, hat⟩ := hfound j rfl d hj
    obtain ⟨rfl, rfl⟩ := hu.unique hr
    refine ⟨rfl, ?_, hread.flash, hread.images⟩
    unfold LogStore.moved
    rw [hrecords, Option.bind_some, hj]
    apply hread.represents image mounted kept info_page hw hmem
    rintro x hx
    obtain rfl := Option.mem_some_iff.mp hx
    exact hat

theorem ReadAt.lt (h : ReadAt c s p used k) : k < used.flatten.length := by
  obtain ⟨us, recs, us', j, rfl, hj, rfl, -⟩ := h
  rw [List.flatten_append, List.flatten_cons, List.length_append, List.length_append]
  omega

theorem Represents.handle (h : Represents c σ s) (hh : σ.handle = some (page, m)) : ∃ b pre g post info,
    σ = ⟨entries c b (pre ++ g :: post), info, some (pageAfter c b pre, m)⟩ ∧ page = pageAfter c b pre ∧
      Image c s.flash b (pre ++ g :: post) ∧ Mounted c s.logFs b (pre ++ g :: post) ∧ Kept c b (pre ++ g :: post) ∧
      (∀ page ∈ info, s.filePage = page ∧ page ∈ (entries c b (pre ++ g :: post)).places) ∧
      Writing c s.logFs (pageAfter c b pre) g.used ∧ c.ring.Mem s.filePage ∧
      ∀ j ∈ m, ReadAt c s (pageAfter c b pre) g.used j := by
  cases h with
  | blank flash log => exact absurd hh (by simp [LogStore.empty])
  | @stored b stored info handle _ image mounted kept info_page opened =>
    obtain rfl : handle = some (page, m) := hh
    have ho := opened page m rfl
    obtain ⟨pre, g, post, rfl, rfl, hw, hat⟩ := ho.file
    exact ⟨b, pre, g, post, info, rfl, rfl, image, mounted, kept, info_page, hw, ho.filePage, hat⟩

theorem Represents.recordRdFirst (hl : c.type = .linear) (h : Represents c σ s) (hh : σ.handle = some (page, m))
    (hr : (logFsRecordRdFirst c n).Returns s r t) :
    .ofRecord r = recordAnswer n (σ.reads (.recordRdFirst n)) ∧ Represents c (σ.moved (σ.seeks (.recordRdFirst n))) t ∧
      SameFlash s t := by
  obtain ⟨b, pre, g, post, info, rfl, rfl, image, mounted, kept, info_page, hw, hmem, hat⟩ := h.handle hh
  obtain ⟨v, hv⟩ := readable image kept hw
  rw [LogStore.reads, records_eq _ _ image.volume]
  apply read_step image mounted kept info_page hw hmem _ _ hr
  · rintro j hj d hd
    obtain rfl := Option.mem_some_iff.mp hj
    exact rdFirst_found hl hv hd
  · intro hnone
    have hused : g.used = [] := by
      by_contra hne
      obtain ⟨d, ds, hds⟩ := List.exists_cons_of_ne_nil (hv.flatten_ne_nil hne)
      rw [hds] at hnone
      exact absurd hnone (by simp [LogStore.seeks])
    rw [hused] at hw
    exact ⟨s, rdFirst_none hw, ReadOnly.same s, hat⟩

theorem Represents.recordRdNext (hl : c.type = .linear) (h : Represents c σ s) (hh : σ.handle = some (page, some k))
    (hr : (logFsRecordRdNext c n).Returns s r t) :
    .ofRecord r = recordAnswer n (σ.reads (.recordRdNext n)) ∧ Represents c (σ.moved (σ.seeks (.recordRdNext n))) t ∧
      SameFlash s t := by
  obtain ⟨b, pre, g, post, info, rfl, rfl, image, mounted, kept, info_page, hw, hmem, hat⟩ := h.handle hh
  obtain ⟨v, hv⟩ := readable image kept hw
  have hat := hat k rfl
  rw [LogStore.reads, records_eq _ _ image.volume]
  apply read_step image mounted kept info_page hw hmem _ _ hr
  · rintro j hj d hd
    obtain rfl := Option.mem_some_iff.mp hj
    exact rdNext_found hl hv hat hd
  · intro hnone
    have hnone : g.used.flatten[k + 1]? = none := hnone
    obtain ⟨u, hu, hread, hat⟩ := rdNext_none (n := n) hl hv hat (List.getElem?_eq_none_iff.mp hnone)
    refine ⟨u, hu, hread, ?_⟩
    rintro j hj
    obtain rfl := Option.mem_some_iff.mp hj
    exact hat

theorem Represents.recordRdLast (hl : c.type = .linear) (h : Represents c σ s) (hh : σ.handle = some (page, m))
    (hi : σ.info = some page) (hr : (logFsRecordRdLast c n).Returns s r t) :
    .ofRecord r = recordAnswer n (σ.reads (.recordRdLast n)) ∧ Represents c (σ.moved (σ.seeks (.recordRdLast n))) t ∧
      SameFlash s t := by
  obtain ⟨b, pre, g, post, info, rfl, rfl, image, mounted, kept, info_page, hw, hmem, hat⟩ := h.handle hh
  obtain ⟨v, hv⟩ := readable image kept hw
  have hfile := (info_page _ hi).1
  have hseeks : LogStore.seeks ⟨entries c b (pre ++ g :: post), info, some (pageAfter c b pre, m)⟩ (.recordRdLast n) =
      if g.used.flatten = [] then none else some (g.used.flatten.length - 1) := by
    rw [LogStore.seeks, records_eq _ _ image.volume]
  rw [LogStore.reads, records_eq _ _ image.volume]
  apply read_step image mounted kept info_page hw hmem _ _ hr
  · rintro j hj d hd
    rw [hseeks] at hj
    have hlt := (List.getElem?_eq_some_iff.mp hd).1
    apply rdLast_found hl hv hfile _ hd
    split at hj
    · exact absurd hj (by simp)
    · have := Option.mem_some_iff.mp hj
      omega
  · intro hnone
    have hused : g.used = [] := by
      by_contra hne
      have hflatten := hv.flatten_ne_nil hne
      have hpos := List.length_pos_iff.mpr hflatten
      rw [hseeks, if_neg hflatten, Option.bind_some, List.getElem?_eq_none_iff] at hnone
      omega
    rw [hused] at hw
    exact ⟨s, rdLast_none hw, ReadOnly.same s, hat⟩

theorem Represents.recordRdPrevious (hl : c.type = .linear) (h : Represents c σ s) (hh : σ.handle = some (page, some k))
    (hi : σ.info = some page) (hr : (logFsRecordRdPrevious c n).Returns s r t) :
    .ofRecord r = recordAnswer n (σ.reads (.recordRdPrevious n)) ∧ Represents c (σ.moved (σ.seeks (.recordRdPrevious n))) t ∧
      SameFlash s t := by
  obtain ⟨b, pre, g, post, info, rfl, rfl, image, mounted, kept, info_page, hw, hmem, hat⟩ := h.handle hh
  obtain ⟨v, hv⟩ := readable image kept hw
  have hfile := (info_page _ hi).1
  have hat := hat k rfl
  have hlt := hat.lt
  rw [LogStore.reads, records_eq _ _ image.volume]
  have hseeks : LogStore.seeks ⟨entries c b (pre ++ g :: post), info, some (pageAfter c b pre, some k)⟩ (.recordRdPrevious n) =
      if k = 0 then none else some (k - 1) := rfl
  apply read_step image mounted kept info_page hw hmem _ _ hr
  · rintro j hj d hd
    rw [hseeks] at hj
    split at hj
    · exact absurd hj (by simp)
    · obtain rfl : k = j + 1 := by
        have := Option.mem_some_iff.mp hj
        omega
      exact rdPrevious_found hl hv hfile hat hd
  · intro hnone
    rw [hseeks] at hnone
    obtain rfl : k = 0 := by
      by_contra hne
      rw [if_neg hne, Option.bind_some, List.getElem?_eq_none_iff] at hnone
      omega
    refine ⟨s, rdPrevious_none hl hv hfile hat, ReadOnly.same s, ?_⟩
    rintro j hj
    obtain rfl := Option.mem_some_iff.mp hj
    exact hat

end reads

end Lpc1788Libraries.DataManager

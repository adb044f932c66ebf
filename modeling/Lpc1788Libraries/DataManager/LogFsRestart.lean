import Lpc1788Libraries.DataManager.LogFsStoreRuns

namespace Lpc1788Libraries.DataManager

open Lpc1788Libraries.Support NorFlash BoundedProgram

variable {c : LogFsCfg} {σ : LogStore} {s t u : Sys} {f x : Pages} {b page k n i : ℕ} {m : Option ℕ} {g : StoredFile}
  {pre post stored : List StoredFile} {used used' : List (List Rec)} {file : LogFsFile} {hist : List (LogFsCall × LogFsAnswer)}
  {call : LogFsCall} {a : LogFsAnswer} {as : List LogFsAnswer} {l l' : LogFs} {p : ℕ}

section agree

/-- The descriptor tells the same of the files and of where the next record goes. -/
structure Agree (l l' : LogFs) : Prop where
  fileFirst : l'.filePageFirst = l.filePageFirst
  fileLast : l'.filePageLast = l.filePageLast
  fileNr : l'.filePageNrNext = l.filePageNrNext
  recFirst : l'.recPageFirst = l.recPageFirst
  recLast : l'.recPageLast = l.recPageLast
  recNr : l'.recPageNrNext = l.recPageNrNext
  write : l'.recAdrWr = l.recAdrWr

theorem Writing.unique (hc : capacity c = c.recordsPerPage) (h : Writing c l p used) (h' : Writing c l' p used) :
    l'.recAdrWr = l.recAdrWr := by
  rcases h.cursor with ⟨hadr, hfull⟩ | ⟨recs, hlast, hadr, -, hlt⟩
  · rcases h'.cursor with ⟨hadr', -⟩ | ⟨recs', hlast', -, -, hlt'⟩
    · rw [hadr, hadr']
    · have := hfull recs' hlast'
      omega
  · rcases h'.cursor with ⟨-, hfull'⟩ | ⟨recs', hlast', hadr', -, -⟩
    · have := hfull' recs hlast
      omega
    · rw [hlast, Option.some.injEq] at hlast'
      rw [hadr, hadr', hlast']

theorem Mounted.same (h : Mounted c l b stored) (h' : Mounted c l' b stored) (hne : stored ≠ []) :
    l'.filePageFirst = l.filePageFirst ∧ l'.filePageLast = l.filePageLast ∧ l'.filePageNrNext = l.filePageNrNext := by
  obtain ⟨pre, g, hlast⟩ := exists_newest hne
  obtain ⟨h1, h2⟩ := h.last pre g hlast
  obtain ⟨h1', h2'⟩ := h'.last pre g hlast
  exact ⟨h'.first.trans h.first.symm, h1'.trans h1.symm, h2'.trans h2.symm⟩

/-- After a restart `log_fs_init` and `log_fs_open` find from the flash what the descriptor told before. -/
theorem run_restart (hl : c.type = .linear) (hcap : 0 < capacity c) (hc : capacity c = c.recordsPerPage)
    (hbound : c.maxPages ≠ c.ring.size) (h : Run c hist σ s) (hh : σ.handle = some (file.startPage, m)) :
    ∃ t, (logFsCalls c [.init, .open file]).Returns s [.ofErr .none, .ofErr .none] t ∧ Agree s.logFs t.logFs ∧
      (t.flash = s.flash ∨ ∃ q, s.flash q 0 = logFsMarkerBad ∧ t.flash = s.flash.erase q) := by
  have hrep := h.represents hl hcap
  obtain ⟨b, pre, g, post, info, rfl, hpage, image, mounted, kept, -, hw, -, -⟩ := hrep.handle hh
  obtain ⟨hnonempty, hfits⟩ := (kept_split.mp kept).2.1
  obtain ⟨u, hu, hf, -, hm⟩ := init_mounted image
  have hinit : (logFsCall c .init).Returns s (.ofErr .none) u := Prog.returns_map.mpr ⟨_, hu, rfl⟩
  have hrep' := (hrep.call .init hl hcap trivial hinit).2
  obtain ⟨a, t, hcall⟩ := hrep'.terminates (.open file) hl (fun _ => hbound) trivial
  obtain ⟨err, ho, rfl⟩ := Prog.returns_map.mp hcall
  rw [← hf] at image
  obtain ⟨rfl, r, spare, hd, hopen⟩ := open_cases hl image hm hfits (fun _ => hnonempty) hpage ho
  have hw' := hopen.writing hcap
  have hmr := hd.mounted hm
  obtain ⟨h1, h2, h3⟩ := mounted.same hmr image.volume.not_blank
  refine ⟨t, calls_cons hinit (calls_cons hcall calls_nil), ⟨hopen.files.first.trans h1, hopen.files.last.trans h2,
    hopen.files.nr.trans h3, hw'.first.trans hw.first.symm, hw'.last.trans hw.last.symm, hw'.nr.trans hw.nr.symm,
    hw.unique hc hw'⟩, ?_⟩
  rw [← hf, ← hd.flash]
  rcases hopen.flash with hsame | ⟨rest, hspare, herase⟩
  · exact .inl hsame
  · have hv : Volume c r.flash b (layout (pre ++ g.holding g.used (false :: rest) :: post)) := by
      rw [← hspare, hd.flash]
      exact image.volume
    exact .inr ⟨_, hv.spare_page.marker_eq, herase⟩

theorem run_restart_example : ∃ page hist s t, Run reclaimCfg hist (twoRecords page) s ∧
    (logFsCalls reclaimCfg [.init, .open ⟨page, reclaimTime⟩]).Returns s [.ofErr .none, .ofErr .none] t ∧
      Agree s.logFs t.logFs := by
  obtain ⟨page, hist, s, h⟩ := twoRecords_run
  have hh : (twoRecords page).handle = some ((⟨page, reclaimTime⟩ : LogFsFile).startPage, none) := rfl
  obtain ⟨t, hr, hagree, -⟩ := run_restart rfl (by decide) (by decide) (by decide) h hh
  exact ⟨page, hist, s, t, h, hr, hagree⟩

end agree

section cut

/-- The files that are there again after a restart on the flash. -/
def Recovers (c : LogFsCfg) (x : Pages) (files : RecordLog ℕ LogFsTimeStamp Rec) : Prop :=
  ∃ u, (logFsInit c).Returns ⟨LogFs.zero c, x, []⟩ .none u ∧ u.flash = x ∧ Represents c ⟨files, none, none⟩ u

/-- What a call that has been cut off may leave of the files. -/
inductive LogStore.Survives (c : LogFsCfg) (σ : LogStore) : LogFsCall → RecordLog ℕ LogFsTimeStamp Rec → Prop
  | kept (call : LogFsCall) : Survives c σ call σ.files
  | written (data : List UInt8) {page : ℕ} {k : Option ℕ} (hh : σ.handle = some (page, k)) :
      Survives c σ (.recordWr data) (σ.files.append page (recordData c.recDataSize data))
  | shortened (file : LogFsFile) {e : LogFsEntry} {rest : RecordLog ℕ LogFsTimeStamp Rec} (k : ℕ) (h : σ.files = e :: rest) :
      Survives c σ (.fileDelete file) ({ e with records := e.records.take k } :: rest)
  | deleted (file : LogFsFile) : Survives c σ (.fileDelete file) σ.files.tail

/-- The calls that a power cut may hit. A new file and a new RECORD page are written in several steps. -/
def LogStore.CutOff (c : LogFsCfg) (σ : LogStore) : LogFsCall → Prop
  | .create _ => False
  | .recordWr _ => ¬ capacity c ∣ σ.records.length
  | _ => True

theorem Image.recovers (h : Image c x b stored) (hk : Kept c b stored) : Recovers c x (entries c b stored) := by
  obtain ⟨u, hu, hf, -, hm⟩ := init_mounted (s := ⟨LogFs.zero c, x, []⟩) h
  exact ⟨u, hu, hf, .stored (by rwa [hf]) hm hk (by simp) (by simp)⟩

theorem Blank.recovers (h : Blank c x) : Recovers c x [] := by
  obtain ⟨u, hu, hf, -, hm⟩ := init_unmounted (s := ⟨LogFs.zero c, x, []⟩) h
  exact ⟨u, hu, hf, .blank (by rwa [hf]) hm⟩

theorem Represents.recovers (h : Represents c σ s) : Recovers c s.flash σ.files := by
  cases h with
  | blank flash log => exact flash.recovers
  | stored image mounted kept info_page opened => exact image.recovers kept

theorem Passed.mem {P : Pages → Prop} {new : List Pages} (h : Passed P s t) (hnew : t.flash :: t.images = new ++ s.flash :: s.images)
    (hx : x ∈ new) : P x := by
  obtain ⟨new', hnew', hP⟩ := h
  rw [hnew', List.append_cancel_right_eq] at hnew
  exact hP x (hnew ▸ hx)

theorem recordWr_inside {data : List UInt8} {err : LogFsErr} (hl : c.type = .linear) (h : Image c s.flash b (pre ++ g :: post))
    (hw : Writing c s.logFs (pageAfter c b pre) g.used) (hroom : ¬ capacity c ∣ g.used.flatten.length)
    (hr : (logFsRecordWr c data).Returns s err t) : ∃ us recs, g.used = us ++ [recs] ∧ (∀ x ∈ us, x.length = capacity c) ∧
      0 < recs.length ∧ recs.length < capacity c ∧
      Passed (fun x => ∃ u sp, (u = us ++ [recs] ∨ u = us ++ [recs ++ [recordData c.recDataSize data]]) ∧
        Volume c x b (layout (pre ++ g.holding u sp :: post))) s t := by
  have hfilled : Filled c g.used := h.filled g (by simp)
  rcases hw.cursor with ⟨hadr, -⟩ | ⟨recs, hlast, hadr, hpos, hlt⟩
  · rw [hw.full_pages hfilled hadr] at hroom
    exact absurd (Nat.dvd_mul_left _ _) hroom
  · have hused : g.used ≠ [] := by
      intro hnil
      rw [hnil] at hlast
      exact absurd hlast (by simp)
    obtain ⟨us, hus⟩ : ∃ us, g.used = us ++ [recs] := by
      rw [List.getLast?_eq_some_getLast hused, Option.some.injEq] at hlast
      exact ⟨g.used.dropLast, by rw [← hlast, List.dropLast_concat_getLast hused]⟩
    have hlen : g.used.length = us.length + 1 := by rw [hus, List.length_append, List.length_singleton]
    have hfilled' := hfilled
    rw [hus] at hfilled'
    obtain ⟨hall, hle⟩ := filled_snoc.mp hfilled'
    have hcount : recs.length < capacity c := by
      apply Nat.lt_of_le_of_ne hle
      intro hfull
      rw [hus, List.flatten_append, List.flatten_singleton, List.length_append, hfilled'.flatten_length rfl, hfull] at hroom
      exact hroom (Nat.dvd_add (Nat.dvd_mul_left _ _) (Nat.dvd_refl _))
    have hb : Behind c s b pre g post us recs g.spare := by
      refine ⟨?_, ?_, ?_, ?_, ?_⟩
      · rw [← hus]
        exact h.volume
      · rw [hadr, hlen]
      · rw [hw.first, if_neg hused]
      · rw [hw.last, if_neg hused, hlen]
      · rw [hw.nr, hlen]
    have hne : recOffset c recs.length ≠ recOffsetFirst := by
      have := recOffset_strict (c := c) hpos
      rw [recOffset_zero] at this
      omega
    rw [recordWr_eq, getLogFs_bind, hadr, hlen] at hr
    simp only at hr
    rw [if_neg hne, pure_bind] at hr
    obtain ⟨recs', spare', hcase, hs⟩ := writeRecord_cases hl hb hlt hr
    refine ⟨us, recs, hus, hall, hpos, hcount, hs.passed.imp ?_⟩
    rintro x ⟨r, sp, hrecs, hx⟩
    refine ⟨us ++ [r], sp, ?_, hx⟩
    rcases hcase with ⟨-, -, rfl⟩ | ⟨hge, -, -⟩
    · rcases hrecs with rfl | rfl
      · exact .inl rfl
      · exact .inr rfl
    · omega

theorem SameFlash.no_new {new : List Pages} (h : SameFlash s t) (hnew : t.flash :: t.images = new ++ s.flash :: s.images) : new = [] := by
  rw [h.1, h.2] at hnew
  exact (List.append_left_eq_self.mp hnew.symm)

theorem length_cut : (g.cut i).pages.length = g.pages.length := by
  rw [length_pages, length_pages, StoredFile.cut, List.length_take, List.length_append, List.length_replicate]
  omega

theorem take_flatten (used : List (List Rec)) (i : ℕ) : ∃ k, (used.take i).flatten = used.flatten.take k := by
  have hsplit : used.flatten = (used.take i).flatten ++ (used.drop i).flatten := by
    rw [← List.flatten_append, List.take_append_drop]
  exact ⟨(used.take i).flatten.length, by rw [hsplit, List.take_left]⟩

theorem Kept.cut (hk : Kept c b (g :: stored)) (hb : c.ring.Mem b) : Kept c b (g.cut i :: stored) := by
  have hsplit : ∀ x : StoredFile, x :: stored = [] ++ x :: stored := fun _ => rfl
  have h0 : pageAfter c b [] = b := PageRing.step_zero hb
  rw [hsplit, kept_split, h0, List.nil_append, pageAfter, layout_single] at hk ⊢
  obtain ⟨hpre, ⟨hnonempty, hfits⟩, hpost⟩ := hk
  rw [length_cut]
  refine ⟨hpre, ⟨fun hmem => hnonempty (List.mem_of_mem_take hmem), hfits.length_le ?_⟩, hpost⟩
  rw [StoredFile.cut, List.length_take]
  exact Nat.min_le_right _ _

theorem survives_cut {info : Option ℕ} {handle : Option (ℕ × Option ℕ)} :
    LogStore.Survives c ⟨entries c b (g :: stored), info, handle⟩ (.fileDelete file) (entries c b (g.cut i :: stored)) := by
  obtain ⟨k, hk⟩ := take_flatten g.used i
  have hentries : entries c b (g.cut i :: stored) =
      { g.entry b with records := (g.entry b).records.take k } :: entries c (c.ring.step b g.pages.length) stored := by
    rw [entries, length_cut, StoredFile.entry, ← hk]
    rfl
  rw [hentries]
  exact .shortened file k rfl

theorem Represents.grown {data : List UInt8} (hl : c.type = .linear) (h : Represents c σ s) (hp : σ.Permitted c (.recordWr data))
    (hr : (logFsCall c (.recordWr data)).Returns s a t) : ∃ new, t.flash :: t.images = new ++ s.flash :: s.images := by
  obtain ⟨err, hr, -⟩ := Prog.returns_map.mp hr
  obtain ⟨page, k, hh, -⟩ := hp
  obtain ⟨b, pre, g, post, info, -, -, image, -, -, -, hw, -, -⟩ := h.handle hh
  rcases recordWr_cases hl image hw hr with ⟨-, rfl, -⟩ | ⟨used, spare, happ⟩
  · exact ⟨[], rfl⟩
  · obtain ⟨new, hnew, -⟩ := happ.passed
    exact ⟨new, hnew⟩

/-- After a power cut the files are as before the call or as after it; of a file that was being deleted records may be gone. -/
theorem run_power_cut {new : List Pages} (hl : c.type = .linear) (hcap : 0 < capacity c) (h : Run c hist σ s)
    (hp : σ.Permitted c call) (hcut : σ.CutOff c call) (hr : (logFsCall c call).Returns s a t)
    (hnew : t.flash :: t.images = new ++ s.flash :: s.images) (hx : x ∈ new ++ [s.flash]) :
    ∃ files, σ.Survives c call files ∧ Recovers c x files := by
  have hrep := h.represents hl hcap
  rcases List.mem_append.mp hx with hx | hx
  swap
  · rw [List.mem_singleton.mp hx]
    exact ⟨_, .kept _, hrep.recovers⟩
  have hsame : SameFlash s t → ∃ files, σ.Survives c call files ∧ Recovers c x files := by
    intro hsame
    rw [hsame.no_new hnew] at hx
    exact absurd hx List.not_mem_nil
  by_cases hlooks : call.Looks
  · exact hsame (hrep.looks hl hp hlooks hr)
  · cases call with
    | create ts => exact hcut.elim
    | «open» file =>
      obtain ⟨err, hr, -⟩ := Prog.returns_map.mp hr
      by_cases hmem : file.startPage ∈ σ.files.places
      · cases hrep with
        | blank flash log => exact absurd hmem List.not_mem_nil
        | @stored b stored info handle _ image mounted kept info_page opened =>
          obtain ⟨pre, g, post, rfl, hpage⟩ := (mem_places image.volume.base).mp hmem
          obtain ⟨hnonempty, hfits⟩ := (kept_split.mp kept).2.1
          obtain ⟨-, u, spare, hd, ho⟩ := open_cases hl image mounted hfits (fun _ => hnonempty) hpage hr
          have hflash := hd.sameFlash
          rw [← hflash.1, ← hflash.2] at hnew
          obtain ⟨sp, hv⟩ := ho.passed.mem hnew hx
          have hlen := length_holding image.volume hv
          have himage := image.edit hv (image.filled g (by simp))
          have hkept : Kept c b (pre ++ g.holding g.used sp :: post) := by
            rw [kept_split] at kept ⊢
            rw [pageAfter_edit hlen]
            exact kept
          have hentries : entries c b (pre ++ g.holding g.used sp :: post) = entries c b (pre ++ g :: post) := by
            rw [entries_edit image.volume.base hlen, entries_split image.volume.base]
            rfl
          refine ⟨_, .kept _, ?_⟩
          simp only
          rw [← hentries]
          exact himage.recovers hkept
      · obtain ⟨v, hh, hv⟩ := hrep.not_file _ hmem
        obtain ⟨-, rfl⟩ := (open_other hh hv).unique hr
        exact hsame ⟨rfl, rfl⟩
    | fileDelete file =>
      obtain ⟨err, hr, -⟩ := Prog.returns_map.mp hr
      by_cases hfirst : file.startPage = s.logFs.filePageFirst
      · cases hrep with
        | blank flash log =>
          obtain ⟨v, hh, hv⟩ := (Represents.blank flash log).not_file file.startPage List.not_mem_nil
          obtain ⟨-, rfl⟩ := (delete_unread hh hv hfirst).unique hr
          exact hsame ⟨rfl, rfl⟩
        | @stored b stored info handle _ image mounted kept info_page opened =>
          have hb := image.volume.base
          obtain ⟨g, files, rfl⟩ := List.exists_cons_of_ne_nil image.volume.not_blank
          rw [mounted.first] at hfirst
          rcases List.eq_nil_or_concat files with rfl | ⟨mid, last, rfl⟩
          · obtain ⟨u, y, hu, -, -, -, hpassed⟩ := delete_only image mounted hfirst
            obtain ⟨-, rfl⟩ := hu.unique hr
            rcases hpassed.mem hnew hx with ⟨i, himage⟩ | hblank
            · exact ⟨_, survives_cut, himage.recovers (kept.cut hb)⟩
            · exact ⟨_, .deleted file, hblank.recovers⟩
          · rw [List.concat_eq_append] at *
            obtain ⟨u, y, hu, -, -, -, hpassed⟩ := delete_older image mounted hfirst
            obtain ⟨-, rfl⟩ := hu.unique hr
            rcases hpassed.mem hnew hx with ⟨i, himage⟩ | himage
            · exact ⟨_, survives_cut, himage.recovers (kept.cut hb)⟩
            · have hkept : Kept c (c.ring.step b g.pages.length) (mid ++ [last]) := by
                have : Kept c (pageAfter c b ([] ++ [g])) (mid ++ [last]) := (kept_split.mp kept).2.2
                rwa [List.nil_append, pageAfter, layout_single] at this
              have htail : entries c (c.ring.step b g.pages.length) (mid ++ [last.extended g.freed]) =
                  (entries c b (g :: (mid ++ [last]))).tail := by
                rw [entries_extended PageRing.step_mem]
                rfl
              refine ⟨_, .deleted file, ?_⟩
              simp only
              rw [← htail]
              exact himage.recovers (kept_extended hkept)
      · obtain ⟨-, rfl⟩ := (delete_invalid hfirst).unique hr
        exact hsame ⟨rfl, rfl⟩
    | recordWr data =>
      obtain ⟨err, hr, -⟩ := Prog.returns_map.mp hr
      obtain ⟨page, k, hh, -⟩ := hp
      obtain ⟨b, pre, g, post, info, rfl, rfl, image, mounted, kept, -, hw, -, -⟩ := hrep.handle hh
      have hb := image.volume.base
      have hcut : ¬ capacity c ∣ g.used.flatten.length := by
        rw [← records_eq info k image.volume]
        exact hcut
      obtain ⟨us, recs, hus, hall, hpos, hlt, hpassed⟩ := recordWr_inside hl image hw hcut hr
      obtain ⟨u, sp, hu, hv⟩ := hpassed.mem hnew hx
      have hlen := length_holding image.volume hv
      have hlast : ∃ r, u = us ++ [r] ∧ 0 < r.length ∧ r.length ≤ capacity c := by
        rcases hu with rfl | rfl
        · exact ⟨recs, rfl, hpos, Nat.le_of_lt hlt⟩
        · refine ⟨_, rfl, ?_, ?_⟩
          · rw [List.length_append]
            omega
          · rw [List.length_append, List.length_singleton]
            omega
      obtain ⟨r, hur, hrpos, hrle⟩ := hlast
      have himage := image.edit hv (hur ▸ filled_snoc.mpr ⟨hall, hrle⟩)
      have hkept : Kept c b (pre ++ g.holding u sp :: post) := by
        rw [kept_split] at kept ⊢
        rw [pageAfter_edit hlen]
        refine ⟨kept.1, ⟨?_, kept.2.1.2.length_le ?_⟩, kept.2.2⟩
        · intro hmem
          have hmem : [] ∈ u := hmem
          rw [hur] at hmem
          rcases List.mem_append.mp hmem with hmem | hmem
          · have := hall [] hmem
            rw [List.length_nil] at this
            omega
          · rw [← List.mem_singleton.mp hmem] at hrpos
            exact absurd hrpos (Nat.lt_irrefl 0)
        · change u.length ≤ _
          rw [hur, hus, List.length_append, List.length_append]
          exact Nat.le_refl _
      have hnodup := nodup_places image.volume
      rw [entries_split hb] at hnodup
      have hentries : ∀ records, u.flatten = records → entries c b (pre ++ g.holding u sp :: post) =
          entries c b pre ++ ⟨pageAfter c b pre, g.timeStamp, records⟩ :: entries c (pageAfter c b (pre ++ [g])) post := by
        rintro records rfl
        rw [entries_edit hb hlen]
        rfl
      rcases hu with rfl | rfl
      · refine ⟨_, .kept _, ?_⟩
        simp only
        have hsame : entries c b (pre ++ g.holding (us ++ [recs]) sp :: post) = entries c b (pre ++ g :: post) := by
          rw [hentries g.used.flatten (by rw [hus]), entries_split hb]
          rfl
        rw [← hsame]
        exact himage.recovers hkept
      · refine ⟨_, .written data hh, ?_⟩
        simp only
        have hmore : entries c b (pre ++ g.holding (us ++ [recs ++ [recordData c.recDataSize data]]) sp :: post) =
            (entries c b (pre ++ g :: post)).append (pageAfter c b pre) (recordData c.recDataSize data) := by
          rw [hentries (g.used.flatten ++ [recordData c.recDataSize data]) (by rw [hus]; simp), entries_split hb]
          exact (RecordLog.append_split (e := g.entry (pageAfter c b pre)) hnodup).symm
        rw [← hmore]
        exact himage.recovers hkept
    | _ => exact absurd trivial hlooks

theorem run_power_cut_example : ∃ page hist s a t files, Run reclaimCfg hist (twoRecords page) s ∧
    (logFsCall reclaimCfg (.recordWr [3])).Returns s a t ∧ (twoRecords page).Survives reclaimCfg (.recordWr [3]) files ∧
      Recovers reclaimCfg t.flash files := by
  obtain ⟨page, hist, s, h⟩ := twoRecords_run
  have hp : (twoRecords page).Permitted reclaimCfg (.recordWr [3]) := ⟨page, none, rfl, fun _ => rfl⟩
  have hrep := h.represents rfl (by decide)
  obtain ⟨a, t, ht⟩ := hrep.terminates _ rfl (fun _ => by decide) hp
  obtain ⟨new, hnew⟩ := hrep.grown rfl hp ht
  have hx : t.flash ∈ new ++ [s.flash] := by
    cases new with
    | nil => exact List.mem_singleton.mpr (List.cons.inj hnew).1
    | cons x new => exact List.mem_cons.mpr (.inl (List.cons.inj hnew).1)
  have hcut : (twoRecords page).CutOff reclaimCfg (.recordWr [3]) := by
    rw [LogStore.CutOff, twoRecords_records]
    decide
  obtain ⟨files, hsurvives, hrecovers⟩ := run_power_cut rfl (by decide) h hp hcut ht hnew hx
  exact ⟨page, hist, s, a, t, files, h, ht, hsurvives, hrecovers⟩

end cut

end Lpc1788Libraries.DataManager

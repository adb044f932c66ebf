import Lpc1788Libraries.DataManager.LogFsMount

namespace Lpc1788Libraries.DataManager

open Lpc1788Libraries.Support NorFlash BoundedProgram

/-- Every flash content between the two states satisfies the condition. -/
def Passed (P : Pages → Prop) (s t : Sys) : Prop :=
  ∃ new, t.flash :: t.images = new ++ s.flash :: s.images ∧ ∀ x ∈ new, P x

/-- What the descriptor tells of the open file with the FILE page `p`. -/
structure Writing (c : LogFsCfg) (l : LogFs) (p : ℕ) (used : List (List Rec)) : Prop where
  first : l.recPageFirst = if used = [] then logFsPageInvalid else c.ring.next p
  last : l.recPageLast = if used = [] then logFsPageInvalid else c.ring.step p used.length
  nr : l.recPageNrNext = used.length
  cursor : (l.recAdrWr = ⟨c.ring.step p (used.length + 1), recOffset c 0⟩ ∧
      ∀ recs ∈ used.getLast?, recs.length = capacity c) ∨
    ∃ recs, used.getLast? = some recs ∧ l.recAdrWr = ⟨c.ring.step p used.length, recOffset c recs.length⟩ ∧
      0 < recs.length ∧ recs.length < c.recordsPerPage

variable {c : LogFsCfg} {s t u : Sys} {f x y : Pages} {P Q : Pages → Prop} {b p i j n nr : ℕ} {v w : PageView} {g h : StoredFile}
  {pre post files : List StoredFile} {used : List (List Rec)} {spare : List Bool} {l l' : List PageView} {ts : LogFsTimeStamp}

section passed

theorem Passed.of_same (hf : t.flash = s.flash) (hi : t.images = s.images) : Passed P s t := by
  refine ⟨[], ?_, by simp⟩
  rw [hf, hi]
  rfl

theorem Passed.trans (h : Passed P s t) (h' : Passed P t u) : Passed P s u := by
  obtain ⟨new, hnew, hP⟩ := h
  obtain ⟨new', hnew', hP'⟩ := h'
  refine ⟨new' ++ new, ?_, ?_⟩
  · rw [hnew', hnew, List.append_assoc]
  · intro x hx
    rcases List.mem_append.mp hx with hx | hx
    · exact hP' x hx
    · exact hP x hx

theorem Passed.put (hf : t.flash = x) (hi : t.images = s.flash :: s.images) (hx : P x) : Passed P s t := by
  refine ⟨[x], ?_, ?_⟩
  · rw [hf, hi]
    rfl
  · intro y hy
    rw [List.mem_singleton.mp hy]
    exact hx

theorem Passed.imp (h : Passed P s t) (hPQ : ∀ x, P x → Q x) : Passed Q s t := by
  obtain ⟨new, hnew, hP⟩ := h
  exact ⟨new, hnew, fun x hx => hPQ x (hP x hx)⟩

end passed

section erase

theorem eraseIfNotFree_spare {e : Bool} (hv : Volume c s.flash b (l ++ spareView e :: l')) :
    ∃ t, (eraseIfNotFree (c.ring.step b l.length)).Returns s () t ∧ t.logFs = s.logFs ∧
      Volume c t.flash b (l ++ .free :: l') ∧ OnlyPage (c.ring.step b l.length) s.flash t.flash ∧
      (t = s ∨ t = s.putFlash t.flash) := by
  have hview : Holds c s.flash (c.ring.step b l.length) (spareView e) := hv.get (by simp)
  cases e with
  | true =>
    refine ⟨s, ?_, rfl, hv, fun _ _ _ => rfl, .inl rfl⟩
    apply hview.markerRd.bind
    rw [if_neg (by decide)]
    exact Prog.returns_pure.mpr ⟨rfl, rfl⟩
  | false =>
    refine ⟨s.putFlash (s.flash.erase (c.ring.step b l.length)), ?_, rfl, hv.set onlyPage_erase holds_erase, onlyPage_erase,
      .inr rfl⟩
    apply hview.markerRd.bind
    rw [if_pos (by decide)]
    exact at45dErase_returns.mpr rfl

end erase

section lastRecord

theorem spareView_not_file (e : Bool) : (spareView e).marker ≠ logFsMarkerFile := by
  cases e with
  | false => exact (by decide : logFsMarkerBad ≠ logFsMarkerFile)
  | true => exact (by decide : logFsMarkerFree ≠ logFsMarkerFile)

theorem lastRecord_spare (hp : c.ring.Mem p) (hA : Ahead c s.flash (c.ring.next p) (spare.map spareView ++ v :: l))
    (hv : v.marker = logFsMarkerFile) (last : ℕ) :
    ∃ x, (Prog.loop (lastRecordRound c) (p, last)).Returns s last (s.setHeader x) := by
  induction spare generalizing p s with
  | nil =>
    refine ⟨sealedHeader logFsMarkerFile v.nr, Prog.loop_inr ?_⟩
    apply (pageNext_returns hp).bind
    apply hA.1.pageHeaderRd.bind
    rw [hv, if_neg (by decide), if_neg (by decide), seen_eq hv (.inl rfl)]
    exact Prog.returns_pure.mpr ⟨rfl, rfl⟩
  | cons e spare ih =>
    have hmem : spareView e ∈ (e :: spare).map spareView := List.mem_cons_self ..
    obtain ⟨x, hx⟩ := ih (s := s.seen (spareView e)) (PageRing.next_mem hp) hA.2
    refine ⟨x, Prog.loop_inl ?_ hx⟩
    apply (pageNext_returns hp).bind
    apply hA.1.pageHeaderRd.bind
    rw [if_neg (spare_not_record hmem), if_pos (spare_not_file hmem)]
    exact Prog.returns_pure.mpr ⟨rfl, rfl⟩

theorem lastRecord_returns (hp : c.ring.Mem p)
    (hA : Ahead c s.flash (c.ring.next p) (recordPages i used ++ (spare.map spareView ++ v :: l)))
    (hv : v.marker = logFsMarkerFile) :
    ∃ x, (Prog.loop (lastRecordRound c) (p, p)).Returns s (c.ring.step p used.length) (s.setHeader x) := by
  induction used generalizing p s i with
  | nil =>
    obtain ⟨x, hx⟩ := lastRecord_spare hp hA hv p
    rw [List.length_nil, PageRing.step_zero hp]
    exact ⟨x, hx⟩
  | cons recs used ih =>
    obtain ⟨x, hx⟩ := ih (s := s.seen (.record i recs)) (PageRing.next_mem hp) hA.2
    rw [PageRing.step_next hp] at hx
    refine ⟨x, Prog.loop_inl ?_ hx⟩
    apply (pageNext_returns hp).bind
    apply hA.1.pageHeaderRd.bind
    simp only [PageView.marker]
    rw [if_pos (by decide), if_pos trivial]
    exact Prog.returns_pure.mpr ⟨rfl, rfl⟩

end lastRecord

section createPage

theorem ahead_newest (hv : Volume c f b (layout (pre ++ [g]))) :
    ∃ v l, v.marker = logFsMarkerFile ∧ Ahead c f (pageAfter c b pre) (g.pages ++ v :: l) := by
  have hat := hv.at_file
  rw [List.nil_append] at hat
  have hagain := Volume.ahead_again (v := g.head) (l := g.body ++ layout pre) hat
  cases pre with
  | nil =>
    refine ⟨g.head, [], rfl, ?_⟩
    rw [layout_nil, List.append_nil] at hagain
    exact hagain
  | cons h pre =>
    refine ⟨h.head, h.body ++ layout pre ++ [g.head], rfl, ?_⟩
    rw [layout_cons, ← List.cons_append, List.append_assoc] at hagain
    simpa [StoredFile.pages] using hagain

theorem createPage_returns (hv : Volume c s.flash b (layout (pre ++ [g]))) (hm : Mounted c s.logFs b (pre ++ [g])) :
    ∃ x, (createPage c).Returns s
      (if g.spare.length < 2 then none else some (c.ring.step (pageAfter c b pre) (g.used.length + 1))) (s.setHeader x) := by
  have hmem : c.ring.Mem (pageAfter c b pre) := pageAfter_mem
  obtain ⟨v, l, hvm, hA⟩ := ahead_newest hv
  have hbody : g.pages ++ v :: l = g.head :: (recordPages 0 g.used ++ (g.spare.map spareView ++ v :: l)) := by
    simp [StoredFile.pages, StoredFile.body]
  have hlen : (recordPages 0 g.used).length = g.used.length := length_recordPages
  have hA' := hA
  rw [hbody] at hA'
  obtain ⟨x, hx⟩ := lastRecord_returns hmem hA'.2 hvm
  refine ⟨x, ?_⟩
  have hget : ∀ k w, (g.spare.map spareView ++ v :: l)[k]? = some w →
      (logFsMarkerRd (c.ring.step (pageAfter c b pre) (g.used.length + 1 + k)) 0).Returns (s.setHeader x) w.marker (s.setHeader x) := by
    intro k w hw
    have hget : (g.pages ++ v :: l)[g.used.length + 1 + k]? = some w := by
      rw [hbody, show g.used.length + 1 + k = (g.used.length + k) + 1 by omega, List.getElem?_cons_succ,
        List.getElem?_append_right (by omega), hlen, Nat.add_sub_cancel_left]
      exact hw
    have hholds : Holds c (s.setHeader x).flash (c.ring.step (pageAfter c b pre) (g.used.length + 1 + k)) w := hA.get hmem hget
    exact hholds.markerRd
  have hlast : s.logFs.filePageLast = pageAfter c b pre := (hm.last pre g rfl).1
  have hstart : ∀ r, Prog.Returns (do
      if (← logFsMarkerRd (c.ring.step (pageAfter c b pre) (g.used.length + 1)) 0) = logFsMarkerFile then
        return none
      else if (← logFsMarkerRd (← logFsPageNext c (c.ring.step (pageAfter c b pre) (g.used.length + 1))) 0) = logFsMarkerFile then
        return none
      else
        return some (c.ring.step (pageAfter c b pre) (g.used.length + 1))) (s.setHeader x) r (s.setHeader x) →
      (createPage c).Returns s r (s.setHeader x) := by
    intro r hr
    unfold createPage
    rw [getLogFs_bind]
    simp only
    rw [hlast, if_pos (mem_ne_invalid hmem)]
    apply hx.bind
    apply (pageNext_returns PageRing.step_mem).bind
    rw [PageRing.next_step]
    exact hr
  apply hstart
  rcases hspare : g.spare with _ | ⟨e, _ | ⟨e', rest⟩⟩
  · rw [hspare] at hget
    apply (hget 0 v rfl).bind
    rw [if_pos hvm, if_pos (by decide)]
    exact Prog.returns_pure.mpr ⟨rfl, rfl⟩
  · rw [hspare] at hget
    apply (hget 0 (spareView e) rfl).bind
    rw [if_neg (spareView_not_file e)]
    apply (pageNext_returns PageRing.step_mem).bind
    rw [PageRing.next_step]
    apply (hget 1 v rfl).bind
    rw [if_pos hvm, if_pos (by simp)]
    exact Prog.returns_pure.mpr ⟨rfl, rfl⟩
  · rw [hspare] at hget
    apply (hget 0 (spareView e) rfl).bind
    rw [if_neg (spareView_not_file e)]
    apply (pageNext_returns PageRing.step_mem).bind
    rw [PageRing.next_step]
    apply (hget 1 (spareView e') rfl).bind
    rw [if_neg (spareView_not_file e'), if_neg (by simp)]
    exact Prog.returns_pure.mpr ⟨rfl, rfl⟩

end createPage

section writeFile

/-- What `log_fs_create` does when it has found a page for the file. -/
def writeFile (c : LogFsCfg) (timeStamp : LogFsTimeStamp) (pageNewFile : ℕ) : SysM LogFsErr := do
  eraseIfNotFree pageNewFile
  setLogFs fun l => { l with
    pageHeader := { l.pageHeader with nr := l.filePageNrNext }
    fileInfo := { l.fileInfo with file := { l.fileInfo.file with timeStamp := timeStamp } } }
  if !(← logFsFileBlockWr pageNewFile) then
    return .writeFail
  else
    setLogFs fun l => { l with
      filePageLast := pageNewFile
      filePageFirst := if l.filePageFirst = logFsPageInvalid then pageNewFile else l.filePageFirst
      filePageNrNext := (l.filePageNrNext + 1) % 0x10000 }
    let page ← logFsPageNext c pageNewFile
    eraseIfNotFree page
    setLogFs (resetRecords page)
    return .none

theorem create_eq : logFsCreate c ts = (createPage c >>= fun page => match page with
    | none => return .full
    | some pageNewFile => writeFile c ts pageNewFile) := rfl

/-- The descriptor of a file that has just been created. -/
def createdLog (c : LogFsCfg) (ts : LogFsTimeStamp) (page : ℕ) (l : LogFs) : LogFs :=
  resetRecords (c.ring.next page) { l with
    pageHeader := sealedHeader logFsMarkerFile l.filePageNrNext
    fileInfo := fileInfoOf page ts
    filePageLast := page
    filePageFirst := if l.filePageFirst = logFsPageInvalid then page else l.filePageFirst
    filePageNrNext := (l.filePageNrNext + 1) % 0x10000 }

/-- The contents that the flash goes through. Only the new FILE page and the page behind it change. -/
structure Written (c : LogFsCfg) (b : ℕ) (l l' : List PageView) (e : Bool) (nr : ℕ) (ts : LogFsTimeStamp) (f x : Pages) : Prop where
  only : ∀ p, p ≠ c.ring.step b l.length → p ≠ c.ring.step b (l.length + 1) → ∀ i, x p i = f p i
  stage : ∃ v w, (v = .free ∨ v = .header nr ∨ v = .file nr ts) ∧ (w = spareView e ∨ w = .free) ∧ Volume c x b (l ++ v :: w :: l')

theorem writeFile_returns {e e' : Bool} (hv : Volume c s.flash b (l ++ spareView e :: spareView e' :: l'))
    (hnr : s.logFs.filePageNrNext < 0x10000) (ts : LogFsTimeStamp) :
    ∃ t, (writeFile c ts (c.ring.step b l.length)).Returns s .none t ∧
      Volume c t.flash b (l ++ .file s.logFs.filePageNrNext ts :: .free :: l') ∧
      t.logFs = createdLog c ts (c.ring.step b l.length) s.logFs ∧
      Passed (Written c b l l' e' s.logFs.filePageNrNext ts s.flash) s t := by
  let q := c.ring.step b l.length
  let nr := s.logFs.filePageNrNext
  -- the FILE page is erased
  obtain ⟨s₁, h₁, hl₁, hv₁, ho₁, hs₁⟩ := eraseIfNotFree_spare hv
  have hfree₁ : Holds c s₁.flash q .free := hv₁.get (by simp)
  have hpassed₁ : Passed (Written c b l l' e' nr ts s.flash) s s₁ := by
    rcases hs₁ with rfl | hs₁
    · exact .of_same rfl rfl
    · apply Passed.put rfl (by rw [hs₁]; rfl)
      exact ⟨fun p hp _ => ho₁ p hp, .free, spareView e', .inl rfl, .inl rfl, hv₁⟩
  -- the FILE page is written
  let s₂ : Sys := { s₁ with logFs := { s₁.logFs with
    pageHeader := { s₁.logFs.pageHeader with nr := s₁.logFs.filePageNrNext }
    fileInfo := { s₁.logFs.fileInfo with file := { s₁.logFs.fileInfo.file with timeStamp := ts } } } }
  have hnr₂ : s₂.logFs.pageHeader.nr = nr := congrArg LogFs.filePageNrNext hl₁
  have hts₂ : s₂.logFs.fileInfo.file.timeStamp = ts := rfl
  have h₃ := fileBlockWr_returns (s := s₂) hfree₁ hnr₂ hts₂
  let s₃ : Sys := ⟨{ s₂.logFs with pageHeader := sealedHeader logFsMarkerFile nr, fileInfo := fileInfoOf q ts },
    fileImage s₁.flash q nr ts, headerImage s₁.flash q nr :: s₁.flash :: s₁.images⟩
  have ho₂ : OnlyPage q s₁.flash (headerImage s₁.flash q nr) := onlyPage_program
  have ho₃ : OnlyPage q s₁.flash s₃.flash := ho₂.trans onlyPage_program
  have hv₂ : Volume c (headerImage s₁.flash q nr) b (l ++ .header nr :: spareView e' :: l') :=
    hv₁.set ho₂ (headerImage_holds hfree₁ hnr)
  have hv₃ : Volume c s₃.flash b (l ++ .file nr ts :: spareView e' :: l') :=
    hv₁.set ho₃ (fileImage_holds hfree₁ hnr)
  have hpassed₃ : Passed (Written c b l l' e' nr ts s.flash) s₁ s₃ := by
    refine ⟨[s₃.flash, headerImage s₁.flash q nr], rfl, ?_⟩
    intro x hx
    rcases List.mem_cons.mp hx with rfl | hx
    · refine ⟨fun p hp _ i => ?_, _, _, .inr (.inr rfl), .inl rfl, hv₃⟩
      rw [ho₃ p hp, ho₁ p hp]
    · rw [List.mem_singleton.mp hx]
      refine ⟨fun p hp _ i => ?_, _, _, .inr (.inl rfl), .inl rfl, hv₂⟩
      rw [ho₂ p hp, ho₁ p hp]
  -- the page behind it is erased
  let s₄ : Sys := { s₃ with logFs := { s₃.logFs with
    filePageLast := q
    filePageFirst := if s₃.logFs.filePageFirst = logFsPageInvalid then q else s₃.logFs.filePageFirst
    filePageNrNext := (s₃.logFs.filePageNrNext + 1) % 0x10000 } }
  have hv₄ : Volume c s₄.flash b ((l ++ [.file nr ts]) ++ spareView e' :: l') := by
    rw [List.append_assoc]
    exact hv₃
  have hlen : (l ++ [PageView.file nr ts]).length = l.length + 1 := List.length_append
  obtain ⟨s₅, h₅, hl₅, hv₅, ho₅, hs₅⟩ := eraseIfNotFree_spare hv₄
  rw [hlen] at h₅ ho₅
  rw [List.append_assoc] at hv₅
  have hpassed₅ : Passed (Written c b l l' e' nr ts s.flash) s₄ s₅ := by
    rcases hs₅ with rfl | hs₅
    · exact .of_same rfl rfl
    · apply Passed.put rfl (by rw [hs₅]; rfl)
      refine ⟨fun p hp hp' i => ?_, _, _, .inr (.inr rfl), .inr rfl, hv₅⟩
      rw [ho₅ p hp', ← ho₁ p hp]
      exact ho₃ p hp i
  refine ⟨{ s₅ with logFs := resetRecords (c.ring.next q) s₅.logFs }, ?_, hv₅, ?_, ?_⟩
  · apply h₁.bind
    rw [setLogFs_bind]
    apply h₃.bind
    rw [if_neg (by decide), setLogFs_bind]
    apply (pageNext_returns PageRing.step_mem).bind
    rw [← PageRing.next_step] at h₅
    apply h₅.bind
    rw [setLogFs_bind]
    exact Prog.returns_pure.mpr ⟨rfl, rfl⟩
  · rw [hl₅]
    simp only [s₄, s₃, s₂, hl₁]
    rfl
  · exact hpassed₁.trans (hpassed₃.trans (hpassed₅.trans (.of_same rfl rfl)))

end writeFile

section create

namespace StoredFile

/-- The file without the pages that it has not used. -/
def closed (g : StoredFile) : StoredFile := { g with spare := [] }

/-- A file that has just been created. The page behind its FILE page is erased. -/
def new (nr : ℕ) (timeStamp : LogFsTimeStamp) (rest : List Bool) : StoredFile := ⟨nr, timeStamp, [], true :: rest⟩

end StoredFile

variable {e e' : Bool} {rest : List Bool}

theorem layout_open (h : g.spare = e :: e' :: rest) :
    layout (pre ++ [g]) = layout (pre ++ [g.closed]) ++ spareView e :: spareView e' :: rest.map spareView := by
  simp [StoredFile.closed, StoredFile.pages, StoredFile.body, StoredFile.head, h]

theorem layout_new {v : PageView} (hv : v = .file nr ts) :
    layout (pre ++ [g.closed]) ++ v :: .free :: rest.map spareView =
      layout ((pre ++ [g.closed]) ++ [StoredFile.new nr ts rest]) := by
  have happend : layout ((pre ++ [g.closed]) ++ [StoredFile.new nr ts rest]) =
      layout (pre ++ [g.closed]) ++ layout [StoredFile.new nr ts rest] := layout_append
  rw [hv, happend, layout_single]
  rfl

theorem length_layout_closed : (layout (pre ++ [g.closed])).length = (layout pre).length + (g.used.length + 1) := by
  rw [layout_append, List.length_append, layout_single, length_pages]
  rfl

theorem pageAfter_closed : pageAfter c b (pre ++ [g.closed]) = c.ring.step (pageAfter c b pre) (g.used.length + 1) := by
  rw [pageAfter, length_layout_closed, pageAfter, PageRing.step_step]

theorem snoc_inj {α : Type} {xs ys : List α} {x y : α} (h : xs ++ [x] = ys ++ [y]) : xs = ys ∧ x = y := by
  have hxs := congrArg List.dropLast h
  have hx := congrArg List.getLast? h
  rw [List.dropLast_concat, List.dropLast_concat] at hxs
  rw [List.getLast?_concat, List.getLast?_concat] at hx
  exact ⟨hxs, Option.some.inj hx⟩

theorem create_full (hv : Volume c s.flash b (layout (pre ++ [g]))) (hm : Mounted c s.logFs b (pre ++ [g]))
    (hroom : g.spare.length < 2) (ts : LogFsTimeStamp) : ∃ x, (logFsCreate c ts).Returns s .full (s.setHeader x) := by
  obtain ⟨x, hx⟩ := createPage_returns hv hm
  rw [if_pos hroom] at hx
  refine ⟨x, ?_⟩
  rw [create_eq]
  apply hx.bind
  exact Prog.returns_pure.mpr ⟨rfl, rfl⟩

theorem create_mounted (h : Image c s.flash b (pre ++ [g])) (hm : Mounted c s.logFs b (pre ++ [g]))
    (hspare : g.spare = e :: e' :: rest) (ts : LogFsTimeStamp) :
    ∃ t x, (logFsCreate c ts).Returns s .none t ∧
      Image c t.flash b ((pre ++ [g.closed]) ++ [.new s.logFs.filePageNrNext ts rest]) ∧
      Mounted c t.logFs b ((pre ++ [g.closed]) ++ [.new s.logFs.filePageNrNext ts rest]) ∧
      t.logFs = createdLog c ts (pageAfter c b (pre ++ [g.closed])) (s.setHeader x).logFs ∧
      Passed (Written c b (layout (pre ++ [g.closed])) (rest.map spareView) e' s.logFs.filePageNrNext ts s.flash) s t := by
  obtain ⟨x, hx⟩ := createPage_returns h.volume hm
  rw [if_neg (by rw [hspare]; simp), ← pageAfter_closed] at hx
  obtain ⟨hlast, hnrNext⟩ := hm.last pre g rfl
  have hnr : s.logFs.filePageNrNext < 0x10000 := by
    rw [hnrNext]
    exact Nat.mod_lt _ (by decide)
  have hv : Volume c (s.setHeader x).flash b (layout (pre ++ [g.closed]) ++ spareView e :: spareView e' :: rest.map spareView) := by
    rw [← layout_open hspare]
    exact h.volume
  obtain ⟨t, ht, hvt, hlt, hpassed⟩ := writeFile_returns hv hnr ts
  rw [layout_new rfl] at hvt
  refine ⟨t, x, ?_, ⟨hvt, ?_, ?_⟩, ⟨?_, ?_⟩, hlt, ?_⟩
  · rw [create_eq]
    apply hx.bind
    exact ht
  · obtain ⟨nr, hlt, hnum⟩ := h.numbered
    refine ⟨nr, hlt, ?_⟩
    have hg := nr_of_split hlt hnum
    rw [nrFrom_append hlt] at hnum ⊢
    rw [nrFrom_append hlt]
    refine ⟨⟨hnum.1, hnum.2⟩, ?_, trivial⟩
    change s.logFs.filePageNrNext = _
    rw [hnrNext, hg, List.length_append, List.length_singleton, Nat.mod_add_mod, Nat.add_assoc]
  · intro g' hg'
    have hfilled := h.filled
    rcases List.mem_append.mp hg' with hg' | hg'
    · rcases List.mem_append.mp hg' with hg' | hg'
      · exact hfilled g' (List.mem_append_left _ hg')
      · rw [List.mem_singleton.mp hg']
        exact hfilled g (List.mem_append_right _ (List.mem_singleton_self g))
    · rw [List.mem_singleton.mp hg']
      exact ⟨fun recs hr => absurd hr (List.not_mem_nil), fun recs hr => absurd hr (List.not_mem_nil)⟩
  · have hfirst : s.logFs.filePageFirst ≠ logFsPageInvalid := by
      rw [hm.first]
      exact mem_ne_invalid h.volume.base
    rw [hlt]
    change (if s.logFs.filePageFirst = logFsPageInvalid then _ else s.logFs.filePageFirst) = b
    rw [if_neg hfirst, hm.first]
  · intro pre' g' hfiles
    obtain ⟨rfl, rfl⟩ := snoc_inj hfiles
    rw [hlt]
    exact ⟨rfl, rfl⟩
  · exact (Passed.of_same rfl rfl).trans hpassed

theorem freePage_returns (h : Blank c s.flash) :
    ∃ q, (Prog.loop (freePageRound c) c.pageStart).Returns s q s ∧ c.ring.Mem q := by
  obtain ⟨spare, hv⟩ := h
  have hlo : c.ring.Mem c.pageStart := PageRing.lo_mem
  have hloop : (Prog.loop (freePageRound c) c.pageStart).Achieves s fun q t => t = s ∧ c.ring.Mem q := by
    refine Prog.loop_achieves (k := c.pageEnd - c.pageStart)
      (I := fun d page t => t = s ∧ c.ring.Mem page ∧ d = c.pageEnd - page) ?_ ⟨rfl, hlo, rfl⟩
    rintro d page t ⟨rfl, hp, rfl⟩
    obtain ⟨k, v, -, -, -, hview⟩ := hv.exists_view hp
    unfold freePageRound
    apply hview.markerRd.achieves
    have h1 : c.pageStart ≤ page := hp.1
    have h2 := c.pageEnd_lt
    have h3 : page ≤ c.pageEnd := hp.2
    have hmod : (page + 1) % 0x10000 = page + 1 := Nat.mod_eq_of_lt (by omega)
    dsimp only
    rw [hmod]
    split_ifs with hfree hle
    · exact Prog.achieves_pure (.inl ⟨page, rfl, rfl, hp⟩)
    · refine Prog.achieves_pure (.inr ⟨page + 1, rfl, c.pageEnd - (page + 1), by omega, rfl, ?_, rfl⟩)
      exact ⟨Nat.le_succ_of_le h1, hle⟩
    · exact Prog.achieves_pure (.inl ⟨c.pageStart, rfl, rfl, hlo⟩)
  obtain ⟨q, t, hr, rfl, hq⟩ := hloop
  exact ⟨q, hr, hq⟩

theorem Volume.rotate_spare {spare : List Bool} (hv : Volume c f b (spare.map spareView)) (hq : c.ring.Mem p) :
    ∃ (e e' : Bool) (rest : List Bool), Volume c f p (spareView e :: spareView e' :: rest.map spareView) := by
  obtain ⟨k, hk, rfl⟩ := PageRing.exists_step hv.base hq
  have hlen := hv.length
  rw [List.length_map] at hlen
  have hr : Volume c f (c.ring.step b k) ((spare.drop k ++ spare.take k).map spareView) := by
    rw [← List.take_append_drop k spare, List.map_append] at hv
    have hr := hv.rotate
    rwa [List.length_map, List.length_take, Nat.min_eq_left (by omega), ← List.map_append] at hr
  have hsize : 2 ≤ (spare.drop k ++ spare.take k).length := by
    have h1 := c.pageStart_lt
    have h2 : c.ring.size = c.pageEnd + 1 - c.pageStart := rfl
    rw [List.length_append, List.length_drop, List.length_take]
    omega
  match hspare : spare.drop k ++ spare.take k with
  | [] => rw [hspare] at hsize; exact absurd hsize (by simp)
  | [e] => rw [hspare] at hsize; exact absurd hsize (by simp)
  | e :: e' :: rest =>
    rw [hspare] at hr
    exact ⟨e, e', rest, hr⟩

theorem create_unmounted (h : Blank c s.flash) (hm : Unmounted s.logFs) (ts : LogFsTimeStamp) :
    ∃ (t : Sys) (q : ℕ) (e' : Bool) (rest : List Bool), (logFsCreate c ts).Returns s .none t ∧
      Image c t.flash q [.new s.logFs.filePageNrNext ts rest] ∧
      Mounted c t.logFs q [.new s.logFs.filePageNrNext ts rest] ∧
      t.logFs = createdLog c ts q s.logFs ∧
      Passed (Written c q [] (rest.map spareView) e' s.logFs.filePageNrNext ts s.flash) s t := by
  obtain ⟨q, hq, hmem⟩ := freePage_returns h
  obtain ⟨spare, hv⟩ := h
  obtain ⟨e, e', rest, hv⟩ := hv.rotate_spare hmem
  have hcreate : (createPage c).Returns s (some q) s := by
    unfold createPage
    rw [getLogFs_bind]
    simp only
    rw [hm.last, if_neg (not_not.mpr rfl)]
    apply hq.bind
    exact Prog.returns_pure.mpr ⟨rfl, rfl⟩
  obtain ⟨t, ht, hvt, hlt, hpassed⟩ := writeFile_returns (l := []) hv hm.nr ts
  rw [List.length_nil, PageRing.step_zero hmem] at ht hlt
  refine ⟨t, q, e', rest, ?_, ⟨?_, ?_, ?_⟩, ⟨?_, ?_⟩, hlt, hpassed⟩
  · rw [create_eq]
    exact hcreate.bind ht
  · rw [layout_single]
    exact hvt
  · exact ⟨s.logFs.filePageNrNext, hm.nr, rfl, trivial⟩
  · intro g hg
    rw [List.mem_singleton.mp hg]
    exact ⟨fun recs hr => absurd hr List.not_mem_nil, fun recs hr => absurd hr List.not_mem_nil⟩
  · rw [hlt]
    change (if s.logFs.filePageFirst = logFsPageInvalid then q else _) = q
    rw [hm.first, if_pos rfl]
  · intro pre g hfiles
    have hsnoc : [] ++ [StoredFile.new s.logFs.filePageNrNext ts rest] = pre ++ [g] := hfiles
    obtain ⟨rfl, rfl⟩ := snoc_inj hsnoc
    rw [hlt]
    exact ⟨(PageRing.step_zero hmem).symm, rfl⟩

end create

end Lpc1788Libraries.DataManager

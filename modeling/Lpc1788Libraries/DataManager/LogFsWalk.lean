import Lpc1788Libraries.DataManager.LogFsVolume

namespace Lpc1788Libraries.DataManager

open Lpc1788Libraries.Support NorFlash BoundedProgram

variable {c : LogFsCfg} {s t : Sys} {f : Pages} {p q start stop current k n nr : ℕ} {m : UInt8} {v : PageView}
  {l pre post : List PageView}

section findNext

theorem findNext_trail_found (hm : m = logFsMarkerFile ∨ m = logFsMarkerRecord) (hstart : c.ring.Mem start)
    (hp : c.ring.Mem p) (hT : Trail c s.flash (c.ring.nextIn start stop) p (pre ++ v :: post))
    (hpre : ∀ x ∈ pre, x.marker ≠ m) (hv : v.marker = m)
    (hcur : ∀ k ≤ pre.length, (c.ring.nextIn start stop)^[k + 1] p ≠ current) :
    (Prog.loop (findNextRound c m start stop current) p).Returns s ((c.ring.nextIn start stop)^[pre.length + 1] p)
      (s.setHeader (sealedHeader m v.nr)) := by
  induction pre generalizing p s with
  | nil =>
    have hne := hcur 0 (Nat.le_refl 0)
    rw [Function.iterate_one] at hne
    rw [List.length_nil, Function.iterate_one]
    apply Prog.loop_inr
    rw [findNextRound_eq]
    apply (nextIn_returns hp).bind
    rw [if_neg hne]
    apply hT.1.pageHeaderRd.bind
    rw [if_pos hv, seen_eq hv hm]
    exact Prog.returns_pure.mpr ⟨rfl, rfl⟩
  | cons x pre ih =>
    have hne := hcur 0 (Nat.zero_le _)
    rw [Function.iterate_one] at hne
    have hround : (findNextRound c m start stop current p).Returns s (.inl (c.ring.nextIn start stop p))
        (s.seen x) := by
      rw [findNextRound_eq]
      apply (nextIn_returns hp).bind
      rw [if_neg hne]
      apply hT.1.pageHeaderRd.bind
      rw [if_neg (hpre x (List.mem_cons_self ..))]
      exact Prog.returns_pure.mpr ⟨rfl, rfl⟩
    have hrest := ih (s := s.seen x) (nextIn_mem hstart hp) hT.2
      (fun y hy => hpre y (List.mem_cons_of_mem _ hy)) (by
        intro k hk
        rw [← Function.iterate_succ_apply]
        exact hcur (k + 1) (Nat.succ_le_succ hk))
    rw [← Function.iterate_succ_apply] at hrest
    exact Prog.loop_inl hround hrest

theorem findNext_trail_none (hstart : c.ring.Mem start) (hp : c.ring.Mem p)
    (hT : Trail c s.flash (c.ring.nextIn start stop) p l) (hl : ∀ x ∈ l, x.marker ≠ m)
    (hcur : (c.ring.nextIn start stop)^[l.length + 1] p = current)
    (hbefore : ∀ k < l.length, (c.ring.nextIn start stop)^[k + 1] p ≠ current) :
    ∃ h, (Prog.loop (findNextRound c m start stop current) p).Returns s logFsPageInvalid (s.setHeader h) := by
  induction l generalizing p s with
  | nil =>
    rw [List.length_nil, Function.iterate_one] at hcur
    refine ⟨s.logFs.pageHeader, Prog.loop_inr ?_⟩
    rw [findNextRound_eq]
    apply (nextIn_returns hp).bind
    rw [if_pos hcur]
    exact Prog.returns_pure.mpr ⟨rfl, rfl⟩
  | cons x l ih =>
    have hne := hbefore 0 (Nat.zero_lt_succ _)
    rw [Function.iterate_one] at hne
    have hround : (findNextRound c m start stop current p).Returns s (.inl (c.ring.nextIn start stop p))
        (s.seen x) := by
      rw [findNextRound_eq]
      apply (nextIn_returns hp).bind
      rw [if_neg hne]
      apply hT.1.pageHeaderRd.bind
      rw [if_neg (hl x (List.mem_cons_self ..))]
      exact Prog.returns_pure.mpr ⟨rfl, rfl⟩
    obtain ⟨h, hrest⟩ := ih (s := s.seen x) (nextIn_mem hstart hp) hT.2
      (fun y hy => hl y (List.mem_cons_of_mem _ hy)) (by
        rw [← Function.iterate_succ_apply]
        exact hcur) (by
        intro k hk
        rw [← Function.iterate_succ_apply]
        exact hbefore (k + 1) (Nat.succ_lt_succ hk))
    exact ⟨h, Prog.loop_inl hround hrest⟩

theorem findNext_checked {r : ℕ} (hstart : c.ring.Mem start) (hstop : c.dbg = true → c.ring.Mem stop)
    (hcurrent : c.ring.Mem current)
    (h : (Prog.loop (findNextRound c m start stop current) current).Returns s r t) :
    (logFsPageHeaderFindNext c m start stop current).Returns s r t := by
  have hassert : (dbgAssertPage c stop).Returns s () s := by
    simp only [dbgAssertPage, Prog.returns_check, and_true]
    exact hstop
  apply (assert_returns hstart).bind
  apply hassert.bind
  apply (assert_returns hcurrent).bind
  exact h

end findNext

section largestDiff

variable {save : ℕ → ℕ → ℕ → LogFs → LogFs} {pg nrs : ℕ → ℕ} {i : ℕ}

/-- A later choice of the pages replaces an earlier one, and the page header stays apart. -/
structure Saves (save : ℕ → ℕ → ℕ → LogFs → LogFs) : Prop where
  again : ∀ a b x a' b' x' l, save a b x (save a' b' x' l) = save a b x l
  header : ∀ a b x l h, save a b x { l with pageHeader := h } = { save a b x l with pageHeader := h }
  kept : ∀ a b x l, (save a b x l).pageHeader = l.pageHeader

theorem saveFilePages_saves : Saves saveFilePages := ⟨fun _ _ _ _ _ _ _ => rfl, fun _ _ _ _ _ => rfl, fun _ _ _ _ => rfl⟩

theorem saveRecPages_saves : Saves saveRecPages := ⟨fun _ _ _ _ _ _ _ => rfl, fun _ _ _ _ _ => rfl, fun _ _ _ _ => rfl⟩

/-- The pages `pg 0`, ..., `pg (n - 1)` with the numbers `nrs`, each of which the search finds behind the
one before it, and `pg 0` behind the last one. -/
structure Cycle (c : LogFsCfg) (f : Pages) (m : UInt8) (start stop n : ℕ) (pg nrs : ℕ → ℕ) : Prop where
  hop : ∀ i < n, ∀ t : Sys, t.flash = f → (logFsPageHeaderFindNext c m start stop (pg i)).Returns t (pg (i + 1))
    (t.setHeader (sealedHeader m (nrs (i + 1))))
  valid : ∀ i, pg i ≠ logFsPageInvalid
  back : pg n = pg 0 ∧ nrs n = nrs 0
  apart : ∀ i, 0 < i → i < n → pg i ≠ pg 0

/-- What the search has done after `i` pages. `k` is the place of the largest difference. -/
def Compared (save : ℕ → ℕ → ℕ → LogFs → LogFs) (pg nrs : ℕ → ℕ) (k i d : ℕ) (s t : Sys) : Prop :=
  ∃ l : LogFs, t = { s with logFs := l } ∧ l.pageHeader.nr = nrs i ∧
    (∀ a b x, save a b x l = save a b x { s.logFs with pageHeader := l.pageHeader }) ∧
    (i ≤ k ∧ d < nrDiff (nrs (k + 1)) (nrs k) ∨ k < i ∧ d = nrDiff (nrs (k + 1)) (nrs k) ∧
      l = save (pg (k + 1)) (pg k) ((nrs k + 1) % 0x10000) { s.logFs with pageHeader := l.pageHeader })

theorem Compared.next {d : ℕ} (hsave : Saves save) (hcycle : Cycle c s.flash m start stop n pg nrs) (hi : i < n)
    (hmax : ∀ j < n, j ≠ k → nrDiff (nrs (j + 1)) (nrs j) < nrDiff (nrs (k + 1)) (nrs k))
    (h : Compared save pg nrs k i d s t) :
    ∃ u, (largestDiffRound c m start stop save (pg 0) (pg i, d)).Returns t
      (if pg (i + 1) ≠ pg 0 then .inl (pg (i + 1), max d (nrDiff (nrs (i + 1)) (nrs i))) else .inr ()) u ∧
      Compared save pg nrs k (i + 1) (max d (nrDiff (nrs (i + 1)) (nrs i))) s u := by
  obtain ⟨l, rfl, hnr, hl, hd⟩ := h
  let t : Sys := { s with logFs := l }
  have hnext : (t.setHeader (sealedHeader m (nrs (i + 1)))).logFs.pageHeader.nr = nrs (i + 1) := rfl
  have hround : (largestDiffRound c m start stop save (pg 0) (pg i, d)).Returns t _ _ :=
    largestDiffRound_next hnr (hcycle.valid _) (hcycle.hop i hi t rfl) hnext
  refine ⟨_, hround, ?_⟩
  have hseen : ∀ a b x, save a b x { l with pageHeader := sealedHeader m (nrs (i + 1)) } =
      save a b x { s.logFs with pageHeader := sealedHeader m (nrs (i + 1)) } := by
    intro a b x
    rw [hsave.header, hl, ← hsave.header]
  unfold compared
  by_cases hlarger : d < nrDiff (nrs (i + 1)) (nrs i)
  · rw [if_pos hlarger, Nat.max_eq_right (Nat.le_of_lt hlarger)]
    refine ⟨_, rfl, ?_, ?_, ?_⟩
    · rw [hsave.kept]
      rfl
    · intro a b x
      rw [hsave.again, hsave.kept]
      exact hseen a b x
    · rw [hsave.kept]
      by_cases hik : i = k
      · subst hik
        exact .inr ⟨Nat.lt_succ_self i, rfl, hseen _ _ _⟩
      · rcases hd with ⟨hle, -⟩ | ⟨-, rfl, -⟩
        · exact .inl ⟨by omega, hmax i hi hik⟩
        · exact absurd (hmax i hi hik) (by omega)
  · rw [if_neg hlarger, Nat.max_eq_left (Nat.le_of_not_lt hlarger)]
    refine ⟨_, rfl, rfl, hseen, ?_⟩
    rcases hd with ⟨hle, hlt⟩ | ⟨hgt, rfl, hsaved⟩
    · by_cases hik : i = k
      · subst hik
        exact absurd hlt hlarger
      · exact .inl ⟨by omega, hlt⟩
    · refine .inr ⟨by omega, rfl, ?_⟩
      have := congrArg (fun l : LogFs => { l with pageHeader := sealedHeader m (nrs (i + 1)) }) hsaved
      simp only at this
      rw [← hsave.header] at this
      exact this

theorem largestDiff_cycle (hsave : Saves save) (hcycle : Cycle c s.flash m start stop n pg nrs) (hk : k < n)
    (hmax : ∀ j < n, j ≠ k → nrDiff (nrs (j + 1)) (nrs j) < nrDiff (nrs (k + 1)) (nrs k))
    (hpos : 0 < nrDiff (nrs (k + 1)) (nrs k)) (hnr : s.logFs.pageHeader.nr = nrs 0) :
    ∃ h, (largestDiff c m start stop save (pg 0)).Returns s ()
      { s with logFs := save (pg (k + 1)) (pg k) ((nrs k + 1) % 0x10000) { s.logFs with pageHeader := h } } := by
  have hloop : ∀ j i d t, i + (j + 1) = n → Compared save pg nrs k i d s t →
      ∃ h, (Prog.loop (largestDiffRound c m start stop save (pg 0)) (pg i, d)).Returns t ()
        { s with logFs := save (pg (k + 1)) (pg k) ((nrs k + 1) % 0x10000) { s.logFs with pageHeader := h } } := by
    intro j
    induction j with
    | zero =>
      intro i d t hi ht
      obtain ⟨u, hround, l, rfl, -, -, hd⟩ := ht.next hsave hcycle (by omega) hmax
      rw [show i + 1 = n by omega, hcycle.back.1, if_neg (not_not.mpr rfl)] at hround
      rcases hd with ⟨hle, -⟩ | ⟨-, -, hl⟩
      · omega
      · refine ⟨l.pageHeader, ?_⟩
        rw [← hl]
        exact Prog.loop_inr hround
    | succ j ih =>
      intro i d t hi ht
      obtain ⟨u, hround, hu⟩ := ht.next hsave hcycle (by omega) hmax
      rw [if_pos (hcycle.apart (i + 1) (by omega) (by omega))] at hround
      obtain ⟨h, hrest⟩ := ih (i + 1) _ u (by omega) hu
      exact ⟨h, Prog.loop_inl hround hrest⟩
  apply hloop (n - 1) 0 0 s (by omega)
  exact ⟨s.logFs, rfl, hnr, fun _ _ _ => rfl, .inl ⟨Nat.zero_le k, hpos⟩⟩

end largestDiff

section fileSearch

variable {go : ℕ → SysM ℕ} {walk : ℕ → ℕ} {ts : LogFsTimeStamp}

theorem fileSearch_trail (hgo : ∀ q s, c.ring.Mem q → (go q).Returns s (walk q) s)
    (hwalk : ∀ q, c.ring.Mem q → c.ring.Mem (walk q)) (hp : c.ring.Mem s.filePage)
    (hT : Trail c s.flash walk s.filePage (pre ++ .file nr ts :: post)) (hpre : ∀ x ∈ pre, x.marker ≠ logFsMarkerFile)
    (hstop : ∀ k < pre.length, walk^[k + 1] s.filePage ≠ stop) :
    (fileSearch go stop).Returns s (.none, some ⟨walk^[pre.length + 1] s.filePage, ts⟩)
      ((s.setHeader (sealedHeader logFsMarkerFile nr)).setFileInfo (fileInfoOf (walk^[pre.length + 1] s.filePage) ts)) := by
  have hloop : ∀ p, c.ring.Mem p → ∀ s : Sys, Trail c s.flash walk p (pre ++ .file nr ts :: post) →
      (∀ k < pre.length, walk^[k + 1] p ≠ stop) →
      (Prog.loop (fileSearchRound go stop) p).Returns s (.none, some ⟨walk^[pre.length + 1] p, ts⟩)
        ((s.setHeader (sealedHeader logFsMarkerFile nr)).setFileInfo (fileInfoOf (walk^[pre.length + 1] p) ts)) := by
    clear hp hT hstop
    induction pre with
    | nil =>
      intro p hp s hT _
      apply Prog.loop_inr
      apply (hgo p s hp).bind
      apply (hT.1.fileBlockRd_file (mem_lt (hwalk p hp))).bind
      rw [if_pos rfl, getLogFs_bind]
      exact Prog.returns_pure.mpr ⟨rfl, rfl⟩
    | cons x pre ih =>
      intro p hp s hT hstop
      have hround : (fileSearchRound go stop p).Returns s (.inl (walk p)) (s.seen x) := by
        apply (hgo p s hp).bind
        apply (hT.1.fileBlockRd_other (hpre x (List.mem_cons_self ..))).bind
        have hne := hstop 0 (Nat.zero_lt_succ _)
        rw [Function.iterate_one] at hne
        rw [if_neg (by decide), if_pos hne]
        exact Prog.returns_pure.mpr ⟨rfl, rfl⟩
      have hrest := ih (fun y hy => hpre y (List.mem_cons_of_mem _ hy)) (walk p) (hwalk p hp) (s.seen x) hT.2 (by
        intro k hk
        rw [← Function.iterate_succ_apply]
        exact hstop (k + 1) (Nat.succ_lt_succ hk))
      rw [← Function.iterate_succ_apply] at hrest
      exact Prog.loop_inl hround hrest
  unfold fileSearch
  rw [getLogFs_bind]
  exact hloop s.filePage hp s hT hstop

end fileSearch

end Lpc1788Libraries.DataManager

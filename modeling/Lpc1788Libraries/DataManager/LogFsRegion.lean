import Lpc1788Libraries.DataManager.LogFsAppend

namespace Lpc1788Libraries.DataManager

open Lpc1788Libraries.Support NorFlash BoundedProgram

/-- The search for records goes through the `n` pages behind the FILE page `p` in a circle. -/
structure Region (c : LogFsCfg) (p stop n : ℕ) : Prop where
  pos : 0 < n
  le : n ≤ c.ring.size
  go : ∀ i, 0 < i → i < n → c.ring.nextIn (c.ring.next p) stop (c.ring.step p i) = c.ring.step p (i + 1)
  back : c.ring.nextIn (c.ring.next p) stop (c.ring.step p n) = c.ring.next p

variable {c : LogFsCfg} {s t : Sys} {f : Pages} {p page stop m n i k nr : ℕ} {v : PageView} {used : List (List Rec)}
  {recs : List Rec} {front rest l : List PageView}

section region

theorem region_step (hp : c.ring.Mem p) (hpos : 0 < n) (hle : n ≤ c.ring.size) : Region c p (c.ring.step p n) n := by
  have hnext := PageRing.next_mem hp
  constructor
  · exact hpos
  · exact hle
  · intro i h0 hi
    have hne : c.ring.step p i ≠ c.ring.step p n := by
      obtain ⟨j, rfl⟩ := Nat.exists_eq_succ_of_ne_zero (Nat.pos_iff_ne_zero.mp h0)
      obtain ⟨m, rfl⟩ := Nat.exists_eq_succ_of_ne_zero (Nat.pos_iff_ne_zero.mp hpos)
      rw [← PageRing.step_next hp, ← PageRing.step_next hp, Ne, PageRing.step_inj (by omega) (by omega)]
      omega
    unfold PageRing.nextIn
    rw [if_neg hne, PageRing.next_step]
  · unfold PageRing.nextIn
    rw [if_pos rfl]

theorem region_all (hp : c.ring.Mem p) (hstop : ¬ c.ring.Mem stop) : Region c p stop c.ring.size := by
  have hne : ∀ i, c.ring.step p i ≠ stop := by
    rintro i rfl
    exact hstop PageRing.step_mem
  constructor
  · exact PageRing.size_pos
  · exact Nat.le_refl _
  · intro i _ _
    unfold PageRing.nextIn
    rw [if_neg (hne i), PageRing.next_step]
  · unfold PageRing.nextIn
    rw [if_neg (hne _), PageRing.step_size hp]

theorem Region.iterate (h : Region c p stop n) (hi : 0 < i) (hk : i + k ≤ n) :
    (c.ring.nextIn (c.ring.next p) stop)^[k] (c.ring.step p i) = c.ring.step p (i + k) := by
  rw [iterate_steps PageRing.step_mem, PageRing.step_step]
  intro j hj
  rw [PageRing.step_step, PageRing.step_step]
  exact h.go (i + j) (by omega) (by omega)

theorem Region.iterate_back (h : Region c p stop n) (hi : 0 < i) (hin : i ≤ n) :
    (c.ring.nextIn (c.ring.next p) stop)^[n - i + 1] (c.ring.step p i) = c.ring.next p := by
  rw [Function.iterate_succ_apply', h.iterate hi (by omega), show i + (n - i) = n by omega]
  exact h.back

theorem Region.trail (h : Region c p stop n) (hp : c.ring.Mem p) (hA : Ahead c f (c.ring.next p) (v :: front ++ rest))
    (hn : front.length + 1 + rest.length = n) :
    Trail c f (c.ring.nextIn (c.ring.next p) stop) (c.ring.step p (front.length + 1)) (rest ++ [v]) := by
  have hrest := ((ahead_append (PageRing.next_mem hp)).mp hA).2
  rw [List.length_cons, PageRing.step_next hp, ← PageRing.next_step] at hrest
  apply trail_append.mpr
  constructor
  · apply trail_steps PageRing.step_mem _ hrest
    intro j hj
    rw [PageRing.step_step, PageRing.step_step]
    exact h.go _ (by omega) (by omega)
  · rw [h.iterate (by omega) (by omega), hn]
    refine ⟨?_, trivial⟩
    rw [h.back]
    exact hA.1

end region

section search

theorem findFirst_region_none {marker : UInt8} {r : ℕ} (h : Region c p stop n) (hp : c.ring.Mem p)
    (hA : Ahead c s.flash (c.ring.next p) l) (hn : l.length = n) (hl : ∀ x ∈ l, x.marker ≠ marker)
    (hr : (Prog.loop (findFirstRound c marker stop) (c.ring.next p)).Returns s r t) :
    r = logFsPageInvalid ∧ ∃ x, t = s.setHeader x := by
  refine Prog.loop_partial (I := fun q t => ∃ i < n, q = c.ring.step p (i + 1) ∧ ∃ x, t = s.setHeader x)
    (Q := fun r t => r = logFsPageInvalid ∧ ∃ x, t = s.setHeader x) ?_ ?_ ?_ hr
  · rintro q t q' u ⟨i, hi, rfl, x, rfl⟩ hround
    have hget : l[i]? = some l[i] := List.getElem?_eq_getElem (by omega)
    have hview := hA.get (PageRing.next_mem hp) hget
    rw [PageRing.step_next hp] at hview
    have hview : Holds c (s.setHeader x).flash (c.ring.step p (i + 1)) l[i] := hview
    unfold findFirstRound at hround
    rw [hview.pageHeaderRd.bind_iff, if_neg (hl _ (List.getElem_mem _))] at hround
    by_cases hstop : c.ring.step p (i + 1) = stop
    · rw [if_pos hstop] at hround
      exact absurd (Prog.returns_pure.mp hround).1 (by simp)
    · rw [if_neg hstop, (pageNext_returns PageRing.step_mem).bind_iff] at hround
      obtain ⟨hq, rfl⟩ := Prog.returns_pure.mp hround
      rw [← Sum.inl.inj hq]
      rcases Nat.lt_or_ge (i + 1) n with hlt | hge
      · exact ⟨i + 1, hlt, PageRing.next_step, _, rfl⟩
      · refine ⟨0, h.pos, ?_, _, rfl⟩
        have hback := h.back
        rw [show n = i + 1 by omega, PageRing.nextIn, if_neg hstop] at hback
        rw [hback, PageRing.step_one hp]
  · rintro q t a u ⟨i, hi, rfl, x, rfl⟩ hround
    have hget : l[i]? = some l[i] := List.getElem?_eq_getElem (by omega)
    have hview := hA.get (PageRing.next_mem hp) hget
    rw [PageRing.step_next hp] at hview
    have hview : Holds c (s.setHeader x).flash (c.ring.step p (i + 1)) l[i] := hview
    unfold findFirstRound at hround
    rw [hview.pageHeaderRd.bind_iff, if_neg (hl _ (List.getElem_mem _))] at hround
    by_cases hstop : c.ring.step p (i + 1) = stop
    · rw [if_pos hstop] at hround
      obtain ⟨ha, rfl⟩ := Prog.returns_pure.mp hround
      exact ⟨(Sum.inr.inj ha).symm, _, rfl⟩
    · rw [if_neg hstop, (pageNext_returns PageRing.step_mem).bind_iff] at hround
      exact absurd (Prog.returns_pure.mp hround).1 (by simp)
  · exact ⟨0, h.pos, (PageRing.step_one hp).symm, s.logFs.pageHeader, rfl⟩

theorem findNext_record (h : Region c p stop n) (hp : c.ring.Mem p) (hstop : c.dbg = true → c.ring.Mem stop)
    (hA : Ahead c s.flash (c.ring.next p) (recordPages 0 used)) (hn : used.length ≤ n) (hi : i + 1 < used.length) :
    (logFsPageHeaderFindNext c logFsMarkerRecord (c.ring.next p) stop (c.ring.step p (i + 1))).Returns s
      (c.ring.step p (i + 2)) (s.setHeader (sealedHeader logFsMarkerRecord (i + 1))) := by
  have hgo := h.go (i + 1) (Nat.succ_pos i) (by omega)
  obtain ⟨recs, hrecs⟩ : ∃ recs, used[i + 1]? = some recs := ⟨used[i + 1], List.getElem?_eq_getElem hi⟩
  have hview := hA.get (PageRing.next_mem hp) (getElem?_recordPages hrecs)
  rw [Nat.zero_add, PageRing.step_next hp] at hview
  have hT : Trail c s.flash (c.ring.nextIn (c.ring.next p) stop) (c.ring.step p (i + 1)) ([] ++ PageView.record (i + 1) recs :: []) := by
    refine ⟨?_, trivial⟩
    rw [hgo]
    exact hview
  have hcurrent : ∀ k ≤ ([] : List PageView).length,
      (c.ring.nextIn (c.ring.next p) stop)^[k + 1] (c.ring.step p (i + 1)) ≠ c.ring.step p (i + 1) := by
    intro k hk
    have hle := h.le
    obtain rfl : k = 0 := Nat.le_zero.mp hk
    rw [Function.iterate_one, hgo, ← PageRing.step_next hp, ← PageRing.step_next hp, Ne,
      PageRing.step_inj (by omega) (by omega)]
    omega
  have hfound := findNext_trail_found (s := s) (.inr rfl) (PageRing.next_mem hp) PageRing.step_mem hT (by simp) rfl hcurrent
  rw [List.length_nil, Function.iterate_one, hgo] at hfound
  exact findNext_checked (PageRing.next_mem hp) hstop PageRing.step_mem hfound

theorem findNext_record_back (h : Region c p stop n) (hp : c.ring.Mem p) (hstop : c.dbg = true → c.ring.Mem stop)
    (hA : Ahead c s.flash (c.ring.next p) (v :: front ++ rest)) (hn : front.length + 1 + rest.length = n)
    (hv : v.marker = logFsMarkerRecord) (hrest : ∀ x ∈ rest, x.marker ≠ logFsMarkerRecord) (hfront : front ≠ []) :
    (logFsPageHeaderFindNext c logFsMarkerRecord (c.ring.next p) stop (c.ring.step p (front.length + 1))).Returns s
      (c.ring.next p) (s.setHeader (sealedHeader logFsMarkerRecord v.nr)) := by
  have hpos := List.length_pos_iff.mpr hfront
  have hle := h.le
  have hcurrent : ∀ k ≤ rest.length,
      (c.ring.nextIn (c.ring.next p) stop)^[k + 1] (c.ring.step p (front.length + 1)) ≠ c.ring.step p (front.length + 1) := by
    intro k hk
    rcases Nat.lt_or_ge k rest.length with hlt | hge
    · rw [h.iterate (by omega) (by omega), ← Nat.add_right_comm, ← PageRing.step_next hp, ← PageRing.step_next hp, Ne,
        PageRing.step_inj (by omega) (by omega)]
      omega
    · obtain rfl : k = n - (front.length + 1) := by omega
      rw [h.iterate_back (by omega) (by omega), ← PageRing.step_zero (PageRing.next_mem hp), ← PageRing.step_next hp, Ne,
        PageRing.step_inj (by omega) (by omega)]
      omega
  have hfound := findNext_trail_found (s := s) (.inr rfl) (PageRing.next_mem hp) PageRing.step_mem (h.trail hp hA hn) hrest hv hcurrent
  rw [show rest.length + 1 = n - (front.length + 1) + 1 by omega, h.iterate_back (by omega) (by omega)] at hfound
  exact findNext_checked (PageRing.next_mem hp) hstop PageRing.step_mem hfound

theorem findNext_record_alone (h : Region c p stop n) (hp : c.ring.Mem p) (hstop : c.dbg = true → c.ring.Mem stop)
    (hA : Ahead c s.flash (c.ring.next p) (v :: rest)) (hn : 1 + rest.length = n)
    (hrest : ∀ x ∈ rest, x.marker ≠ logFsMarkerRecord) :
    ∃ x, (logFsPageHeaderFindNext c logFsMarkerRecord (c.ring.next p) stop (c.ring.next p)).Returns s logFsPageInvalid
      (s.setHeader x) := by
  have hle := h.le
  have hone := PageRing.step_one hp
  have hA' : Ahead c s.flash (c.ring.next p) (v :: [] ++ rest) := hA
  have hn' : ([] : List PageView).length + 1 + rest.length = n := by
    rw [List.length_nil]
    omega
  have htrail := (trail_append.mp (h.trail hp hA' hn')).1
  rw [List.length_nil, Nat.zero_add] at htrail
  have hback : (c.ring.nextIn (c.ring.next p) stop)^[rest.length + 1] (c.ring.step p 1) = c.ring.next p := by
    rw [show rest.length + 1 = n - 1 + 1 by omega, h.iterate_back Nat.one_pos (by omega)]
  have hbefore : ∀ k < rest.length, (c.ring.nextIn (c.ring.next p) stop)^[k + 1] (c.ring.step p 1) ≠ c.ring.next p := by
    intro k hk
    rw [h.iterate Nat.one_pos (by omega), ← hone, Nat.add_comm, ← PageRing.step_next hp, ← PageRing.step_next hp, Ne,
      PageRing.step_inj (by omega) (by omega)]
    omega
  obtain ⟨x, hx⟩ := findNext_trail_none (s := s) (PageRing.next_mem hp) PageRing.step_mem htrail hrest hback hbefore
  rw [hone] at hx
  exact ⟨x, findNext_checked (PageRing.next_mem hp) hstop (PageRing.next_mem hp) hx⟩

theorem largestDiff_region (h : Region c p stop n) (hp : c.ring.Mem p) (hstop : c.dbg = true → c.ring.Mem stop)
    (hA : Ahead c s.flash (c.ring.next p) (recordPages 0 used ++ rest)) (hn : used.length + rest.length = n)
    (hrest : ∀ x ∈ rest, x.marker ≠ logFsMarkerRecord) (hused : used ≠ []) (hlt : used.length < 0x8000)
    (hnr : s.logFs.pageHeader.nr = 0) :
    ∃ x, (largestDiff c logFsMarkerRecord (c.ring.next p) stop saveRecPages (c.ring.next p)).Returns s ()
      { s with logFs := saveRecPages (c.ring.next p) (c.ring.step p used.length) used.length { s.logFs with pageHeader := x } } := by
  have hone := PageRing.step_one hp
  have hle := h.le
  obtain ⟨recs, us, rfl⟩ := List.exists_cons_of_ne_nil hused
  have hlen : (recs :: us).length = us.length + 1 := List.length_cons
  rcases Nat.eq_zero_or_pos us.length with h0 | hpos
  · obtain rfl := List.eq_nil_of_length_eq_zero h0
    obtain ⟨x, hx⟩ := findNext_record_alone (v := .record 0 recs) h hp hstop hA (by rw [← hn]; rfl) hrest
    have hround : (largestDiffRound c logFsMarkerRecord (c.ring.next p) stop saveRecPages (c.ring.next p) (c.ring.next p, 0)).Returns s
        (.inr ()) _ := largestDiffRound_last hnr hx
    refine ⟨x, ?_⟩
    rw [List.length_singleton, hone]
    exact Prog.loop_inr hround
  · have hcycle : Cycle c s.flash logFsMarkerRecord (c.ring.next p) stop (us.length + 1)
        (fun i => c.ring.step p (i % (us.length + 1) + 1)) fun i => i % (us.length + 1) := by
      constructor
      · intro i hi t ht
        rw [← ht] at hA
        rw [Nat.mod_eq_of_lt hi]
        by_cases hlast : i + 1 < us.length + 1
        · rw [Nat.mod_eq_of_lt hlast]
          have hrecords := ((ahead_append (PageRing.next_mem hp)).mp hA).1
          exact findNext_record h hp hstop hrecords (by omega) (by rw [hlen]; exact hlast)
        · obtain rfl : i = us.length := by omega
          rw [Nat.mod_self, Nat.zero_add, hone]
          have hlen' : (recordPages 1 us).length = us.length := length_recordPages
          have hA' : Ahead c t.flash (c.ring.next p) (.record 0 recs :: recordPages 1 us ++ rest) := hA
          have hback := findNext_record_back h hp hstop hA' (by
            rw [hlen']
            omega) rfl hrest (by
            intro hnil
            rw [hnil, List.length_nil] at hlen'
            omega)
          rw [hlen'] at hback
          exact hback
      · intro i
        exact mem_ne_invalid PageRing.step_mem
      · simp
      · intro i h0 hi
        rw [Nat.mod_eq_of_lt hi, Nat.zero_mod, Ne, ← PageRing.step_next hp, ← PageRing.step_next hp,
          PageRing.step_inj (by omega) (by omega)]
        omega
    have hdiff : ∀ j < us.length + 1, j ≠ us.length →
        nrDiff ((j + 1) % (us.length + 1)) (j % (us.length + 1)) = 1 := by
      intro j hj hne
      rw [Nat.mod_eq_of_lt hj, Nat.mod_eq_of_lt (by omega)]
      unfold nrDiff
      omega
    have hlargest : nrDiff ((us.length + 1) % (us.length + 1)) (us.length % (us.length + 1)) = 0x10000 - us.length := by
      rw [Nat.mod_self, Nat.mod_eq_of_lt (Nat.lt_succ_self _)]
      unfold nrDiff
      omega
    obtain ⟨x, hx⟩ := largestDiff_cycle (k := us.length) saveRecPages_saves hcycle (Nat.lt_succ_self _) (by
      intro j hj hne
      rw [hdiff j hj hne, hlargest]
      omega) (by
      rw [hlargest]
      omega) (by
      rw [Nat.zero_mod]
      exact hnr)
    rw [Nat.zero_mod, Nat.zero_add, Nat.mod_self, Nat.zero_add, Nat.mod_eq_of_lt (Nat.lt_succ_self _), hone,
      Nat.mod_eq_of_lt (by omega : us.length + 1 < 0x10000)] at hx
    exact ⟨x, hx⟩

end search

end Lpc1788Libraries.DataManager

import Lpc1788Libraries.DataManager.LogFsHeaders

namespace Lpc1788Libraries.DataManager

open Lpc1788Libraries.Support NorFlash BoundedProgram

variable {c : LogFsCfg} {s t : Sys} {f g : Pages} {page p q start stop j k n nr : ℕ} {m : UInt8}

/-- The answer `r` of a search over the first `n` pages of a walk: the first page that is found,
whose header the search leaves in the RAM, or the invalid page number. -/
def Searched (f : Pages) (m : UInt8) (walk : ℕ → ℕ) (n r : ℕ) (t : Sys) : Prop :=
  (r = logFsPageInvalid ∧ ∀ i < n, ¬ Found f m (walk i)) ∨
    ∃ k < n, r = walk k ∧ (∀ i < k, ¬ Found f m (walk i)) ∧
      ∃ nr, HeaderAt f r m nr ∧ t.logFs.pageHeader = sealedHeader m nr

theorem pageHeaderRd_look (hm : m = logFsMarkerFile ∨ m = logFsMarkerRecord) (page : ℕ) (s : Sys) :
    (∃ nr, HeaderAt s.flash page m nr ∧
      (logFsPageHeaderRd page).Returns s m (s.setHeader (sealedHeader m nr))) ∨
    ¬ Found s.flash m page ∧ ∃ m' t, m' ≠ m ∧ (logFsPageHeaderRd page).Returns s m' t ∧ SameHeaders s t := by
  rcases pageHeaderRd_cases page s with ⟨m', nr, hm', hh, hr⟩ | ⟨m', t, hm', hr, hno, hsame⟩
  · by_cases he : m' = m
    · subst he
      exact .inl ⟨nr, hh, hr⟩
    · right
      constructor
      · rintro ⟨-, nr', hh'⟩
        exact he (hh.unique hh').1
      · exact ⟨m', _, he, hr, SameHeaders.of_flash rfl⟩
  · refine .inr ⟨hno m, m', t, ?_, hr, hsame⟩
    rintro rfl
    rcases hm with rfl | rfl <;> rcases hm' with h | h <;> exact absurd h (by decide)

theorem findFirst_spec (hm : m = logFsMarkerFile ∨ m = logFsMarkerRecord) (hp : c.ring.Mem page)
    (hstop : c.ring.step page k = stop) (hbefore : ∀ i < k, c.ring.step page i ≠ stop) (s : Sys) :
    ∃ r t, (logFsPageHeaderFindFirst c m page stop).Returns s r t ∧ SameHeaders s t ∧
      Searched s.flash m (c.ring.step page) (k + 1) r t := by
  have hloop : ∃ r t, (Prog.loop (findFirstRound c m stop) page).Returns s r t ∧
      (SameHeaders s t ∧ Searched s.flash m (c.ring.step page) (k + 1) r t) := by
    apply Prog.loop_total (k := k) (I := fun d x t => ∃ i, i + d = k ∧ x = c.ring.step page i ∧
      SameHeaders s t ∧ ∀ j < i, ¬ Found s.flash m (c.ring.step page j))
    · rintro d x t ⟨i, hi, rfl, hsame, hno⟩
      rcases pageHeaderRd_look hm (c.ring.step page i) t with ⟨nr, hh, hr⟩ | ⟨hnf, m', u, hne, hr, hu⟩
      · left
        refine ⟨c.ring.step page i, t.setHeader (sealedHeader m nr), ?_,
          IsTrans.trans _ _ _ hsame (SameHeaders.of_flash rfl), .inr ?_⟩
        · apply hr.bind
          rw [if_pos rfl]
          exact Prog.returns_pure.mpr ⟨rfl, rfl⟩
        · exact ⟨i, by omega, rfl, hno, nr, (hsame m _ nr hm).mpr hh, rfl⟩
      · have hnf' : ¬ Found s.flash m (c.ring.step page i) := fun h => hnf (hsame.found.mp h)
        have hno' : ∀ j < i + 1, ¬ Found s.flash m (c.ring.step page j) := by
          intro j hj
          rcases Nat.lt_succ_iff_lt_or_eq.mp hj with h | rfl
          · exact hno j h
          · exact hnf'
        by_cases hik : i = k
        · left
          subst hik
          refine ⟨logFsPageInvalid, u, ?_, IsTrans.trans _ _ _ hsame hu, .inl ⟨rfl, hno'⟩⟩
          apply hr.bind
          rw [if_neg hne, if_pos hstop]
          exact Prog.returns_pure.mpr ⟨rfl, rfl⟩
        · right
          refine ⟨c.ring.step page (i + 1), u, ?_, d - 1, by omega, i + 1, by omega, rfl,
            IsTrans.trans _ _ _ hsame hu, hno'⟩
          apply hr.bind
          rw [if_neg hne, if_neg (hbefore i (by omega))]
          apply (pageNext_returns PageRing.step_mem).bind
          exact Prog.returns_pure.mpr ⟨by rw [PageRing.next_step], rfl⟩
    · exact ⟨0, by omega, (PageRing.step_zero hp).symm, Std.Refl.refl s, fun j hj => absurd hj (by omega)⟩
  obtain ⟨r, t, hr, hsame, hs⟩ := hloop
  refine ⟨r, t, ?_, hsame, hs⟩
  apply (assert_returns hp).bind
  apply (assert_returns (hstop ▸ PageRing.step_mem)).bind
  exact hr

theorem nextIn_returns (hp : c.ring.Mem p) :
    (if p = stop then pure start else logFsPageNext c p : SysM ℕ).Returns s (c.ring.nextIn start stop p) s := by
  unfold PageRing.nextIn
  split
  · exact Prog.returns_pure.mpr ⟨rfl, rfl⟩
  · exact pageNext_returns hp

theorem findNextRound_eq (current : ℕ) : findNextRound c m start stop current p =
    (if p = stop then pure start else logFsPageNext c p) >>= fun page => do
      if page = current then
        return .inr logFsPageInvalid
      else if (← logFsPageHeaderRd page) = m then
        return .inr page
      else
        return .inl page := by
  unfold findNextRound
  split <;> rfl

theorem findNext_spec (hm : m = logFsMarkerFile ∨ m = logFsMarkerRecord) (hp : c.ring.Mem start)
    (hn : n ≤ c.ring.size) (hj : j < n) (s : Sys) :
    ∃ r t, (logFsPageHeaderFindNext c m start (c.ring.step start (n - 1)) (c.ring.step start j)).Returns s r t ∧
      SameHeaders s t ∧ Searched s.flash m (fun i => c.ring.turn start n j (i + 1)) (n - 1) r t := by
  have h0 : 0 < n := by omega
  have hloop : ∃ r t, (Prog.loop (findNextRound c m start (c.ring.step start (n - 1)) (c.ring.step start j))
      (c.ring.step start j)).Returns s r t ∧
      (SameHeaders s t ∧ Searched s.flash m (fun i => c.ring.turn start n j (i + 1)) (n - 1) r t) := by
    apply Prog.loop_total (k := n - 1) (I := fun d x t => ∃ i, i + d = n - 1 ∧ x = c.ring.turn start n j i ∧
      SameHeaders s t ∧ ∀ k < i, ¬ Found s.flash m (c.ring.turn start n j (k + 1)))
    · rintro d x t ⟨i, hi, rfl, hsame, hno⟩
      have hgo : (if c.ring.turn start n j i = c.ring.step start (n - 1) then pure start
          else logFsPageNext c (c.ring.turn start n j i) : SysM ℕ).Returns t (c.ring.turn start n j (i + 1)) t := by
        rw [← PageRing.nextIn_turn hp hn h0]
        exact nextIn_returns PageRing.turn_mem
      rw [findNextRound_eq]
      by_cases hd : i = n - 1
      · left
        refine ⟨logFsPageInvalid, t, ?_, hsame, .inl ⟨rfl, by rwa [hd] at hno⟩⟩
        apply hgo.bind
        rw [if_pos (by rw [hd, show n - 1 + 1 = n by omega, PageRing.turn_all hj])]
        exact Prog.returns_pure.mpr ⟨rfl, rfl⟩
      · have hne : c.ring.turn start n j (i + 1) ≠ c.ring.step start j := by
          rw [← PageRing.turn_zero hj, Ne, PageRing.turn_inj hn (by omega) h0]
          omega
        rcases pageHeaderRd_look hm (c.ring.turn start n j (i + 1)) t with
          ⟨nr, hh, hr⟩ | ⟨hnf, m', u, hne', hr, hu⟩
        · left
          refine ⟨c.ring.turn start n j (i + 1), t.setHeader (sealedHeader m nr), ?_,
            IsTrans.trans _ _ _ hsame (SameHeaders.of_flash rfl), .inr ?_⟩
          · apply hgo.bind
            rw [if_neg hne]
            apply hr.bind
            rw [if_pos rfl]
            exact Prog.returns_pure.mpr ⟨rfl, rfl⟩
          · exact ⟨i, by omega, rfl, hno, nr, (hsame m _ nr hm).mpr hh, rfl⟩
        · right
          refine ⟨c.ring.turn start n j (i + 1), u, ?_, d - 1, by omega, i + 1, by omega, rfl,
            IsTrans.trans _ _ _ hsame hu, ?_⟩
          · apply hgo.bind
            rw [if_neg hne]
            apply hr.bind
            rw [if_neg hne']
            exact Prog.returns_pure.mpr ⟨rfl, rfl⟩
          · intro k hk
            rcases Nat.lt_succ_iff_lt_or_eq.mp hk with h | rfl
            · exact hno k h
            · exact fun h => hnf (hsame.found.mp h)
    · refine ⟨0, by omega, (PageRing.turn_zero hj).symm, Std.Refl.refl s, ?_⟩
      exact fun k hk => absurd hk (by omega)
  obtain ⟨r, t, hr, hsame, hs⟩ := hloop
  refine ⟨r, t, ?_, hsame, hs⟩
  apply (assert_returns hp).bind
  apply (assert_returns PageRing.step_mem).bind
  apply (assert_returns PageRing.step_mem).bind
  exact hr

/-- The pages that are found among the `n` pages from `start` on are several, and all have the
same number. -/
def OneNumber (c : LogFsCfg) (f : Pages) (m : UInt8) (start n : ℕ) : Prop :=
  (∃ i < n, ∃ k < n, i ≠ k ∧ Found f m (c.ring.step start i) ∧ Found f m (c.ring.step start k)) ∧
    ∃ nr, ∀ i < n, ∀ nr', HeaderAt f (c.ring.step start i) m nr' → nr' = nr

theorem nrDiff_eq_zero {a b : ℕ} (ha : a < 0x10000) (hb : b < 0x10000) : nrDiff a b = 0 ↔ a = b := by
  unfold nrDiff
  omega

section largestDiff

variable {save : ℕ → ℕ → ℕ → LogFs → LogFs} {saved : LogFs → Prop} {i d diffLargest nr₁ nr₂ : ℕ}

/-- The state of the search after it has compared the numbers of two neighbours. -/
def compared (save : ℕ → ℕ → ℕ → LogFs → LogFs) (diffLargest page pageNext nr nrNext : ℕ) (s : Sys) : Sys :=
  if diffLargest < nrDiff nrNext nr then
    { s with logFs := save pageNext page ((nr + 1) % 0x10000) s.logFs }
  else s

theorem compared_sameHeaders : SameHeaders s (compared save diffLargest page q nr nr₁ s) := by
  unfold compared
  split
  · exact SameHeaders.of_flash rfl
  · exact Std.Refl.refl s

theorem largestDiffRound_last (hnr : s.logFs.pageHeader.nr = nr)
    (hr : (logFsPageHeaderFindNext c m start stop page).Returns s logFsPageInvalid t) :
    (largestDiffRound c m start stop save p (page, d)).Returns s (.inr ())
      { t with logFs := save page page ((nr + 1) % 0x10000) t.logFs } := by
  unfold largestDiffRound
  simp only [getLogFs_bind]
  apply hr.bind
  rw [if_pos rfl, hnr]
  simp

theorem largestDiffRound_next (hnr : s.logFs.pageHeader.nr = nr) (hq : q ≠ logFsPageInvalid)
    (hr : (logFsPageHeaderFindNext c m start stop page).Returns s q t) (hnr' : t.logFs.pageHeader.nr = nr₁) :
    (largestDiffRound c m start stop save p (page, d)).Returns s
      (if q ≠ p then .inl (q, max d (nrDiff nr₁ nr)) else .inr ())
      (compared save d page q nr nr₁ t) := by
  unfold largestDiffRound
  simp only [getLogFs_bind]
  apply hr.bind
  rw [if_neg hq]
  simp only [getLogFs_bind, hnr, hnr']
  unfold compared
  by_cases hd : d < nrDiff nr₁ nr
  · simp only [if_pos hd, setLogFs_bind, Nat.max_eq_right (Nat.le_of_lt hd)]
    split <;> exact Prog.returns_pure.mpr ⟨rfl, rfl⟩
  · simp only [if_neg hd, Nat.max_eq_left (Nat.le_of_not_lt hd)]
    split <;> exact Prog.returns_pure.mpr ⟨rfl, rfl⟩

theorem searched_turn (hfirst : Found f m (c.ring.step start j)) (hj : j < n) (hi : i < n)
    (hs : Searched f m (fun k => c.ring.turn start n j (i + (k + 1))) (n - 1) q t) :
    (q = logFsPageInvalid ∧ i = 0) ∨ ∃ k, i < k ∧ k ≤ n ∧ (i = 0 → k < n) ∧ q = c.ring.turn start n j k ∧
      (∀ l, i < l → l < k → ¬ Found f m (c.ring.turn start n j l)) ∧
      ∃ nr, HeaderAt f q m nr ∧ t.logFs.pageHeader = sealedHeader m nr := by
  rw [← PageRing.turn_all hj] at hfirst
  rcases hs with ⟨rfl, hno⟩ | ⟨k, hk, rfl, hno, nr, hh, hnr⟩
  · left
    refine ⟨rfl, ?_⟩
    by_contra hi0
    apply hno (n - i - 1) (by omega)
    beta_reduce
    rwa [show i + (n - i - 1 + 1) = n by omega]
  · right
    refine ⟨i + (k + 1), by omega, ?_, by omega, rfl, ?_, nr, hh, hnr⟩
    · by_contra hgt
      apply hno (n - i - 1) (by omega)
      beta_reduce
      rwa [show i + (n - i - 1 + 1) = n by omega]
    · intro l hl hlk
      have := hno (l - i - 1) (by omega)
      beta_reduce at this
      rwa [show i + (l - i - 1 + 1) = l by omega] at this

theorem largestDiff_terminates (hm : m = logFsMarkerFile ∨ m = logFsMarkerRecord) (hp : c.ring.Mem start)
    (hn : n ≤ c.ring.size) (hj : j < n) (hfirst : HeaderAt s.flash (c.ring.step start j) m nr)
    (hheader : s.logFs.pageHeader = sealedHeader m nr)
    (hsave : ∀ a < n, ∀ b < n, ∀ nr l, saved (save (c.ring.step start a) (c.ring.step start b) nr l))
    (hsaveHeader : ∀ a b nr l, (save a b nr l).pageHeader = l.pageHeader)
    (hkeep : ∀ l h, saved l → saved { l with pageHeader := h }) :
    ∃ t, (largestDiff c m start (c.ring.step start (n - 1)) save (c.ring.step start j)).Returns s () t ∧
      SameHeaders s t ∧ (saved t.logFs ∨ OneNumber c s.flash m start n) := by
  have h0 : 0 < n := by omega
  have hfound : Found s.flash m (c.ring.step start j) := ⟨hm, nr, hfirst⟩
  -- until something has been saved only one number has been met
  have hloop : ∃ r t, (Prog.loop (largestDiffRound c m start (c.ring.step start (n - 1)) save
      (c.ring.step start j)) (c.ring.step start j, 0)).Returns s r t ∧
      (SameHeaders s t ∧ (saved t.logFs ∨ OneNumber c s.flash m start n)) := by
    apply Prog.loop_total (k := n) (I := fun d x t => ∃ i < n, i + d = n ∧ x.1 = c.ring.turn start n j i ∧
      SameHeaders s t ∧
      (∃ nr', HeaderAt s.flash (c.ring.turn start n j i) m nr' ∧ t.logFs.pageHeader = sealedHeader m nr') ∧
      (saved t.logFs ∨ x.2 = 0 ∧
        ∀ k ≤ i, ∀ nr', HeaderAt s.flash (c.ring.turn start n j k) m nr' → nr' = nr))
    · rintro d ⟨x, diffLargest⟩ t ⟨i, hin, hi, rfl, hsame, ⟨nr₁, hh₁, hnr₁⟩, hs⟩
      have hlt := Nat.mod_lt (j + i) h0
      obtain ⟨r, u, hr, hu, hsearch⟩ := findNext_spec hm hp hn hlt t
      obtain ⟨h, hul⟩ := findNext_headerOnly hr
      simp only [PageRing.turn_turn] at hsearch
      have hnr₁' : t.logFs.pageHeader.nr = nr₁ := by rw [hnr₁, sealedHeader]
      rcases searched_turn (hsame.found.mp hfound) hj hin hsearch with
        ⟨rfl, -⟩ | ⟨k, hik, hkn, hi0, rfl, hno, nr₂, hh₂, hnr₂⟩
      · left
        refine ⟨(), _, largestDiffRound_last hnr₁' hr, ?_, .inl (hsave _ hlt _ hlt _ _)⟩
        exact IsTrans.trans _ _ _ hsame (IsTrans.trans _ _ _ hu (SameHeaders.of_flash rfl))
      · have hnr₂' : u.logFs.pageHeader.nr = nr₂ := by rw [hnr₂, sealedHeader]
        have hround : (largestDiffRound c m start (c.ring.step start (n - 1)) save (c.ring.step start j)
            (c.ring.turn start n j i, diffLargest)).Returns t _ _ :=
          largestDiffRound_next hnr₁' (mem_ne_invalid PageRing.turn_mem) hr hnr₂'
        have hh₂' := (hsame m _ nr₂ hm).mpr hh₂
        have hsame' : SameHeaders s (compared save diffLargest (c.ring.turn start n j i) (c.ring.turn start n j k)
            nr₁ nr₂ u) := IsTrans.trans _ _ _ hsame (IsTrans.trans _ _ _ hu compared_sameHeaders)
        have hsaved : saved (compared save diffLargest (c.ring.turn start n j i) (c.ring.turn start n j k)
              nr₁ nr₂ u).logFs ∨ max diffLargest (nrDiff nr₂ nr₁) = 0 ∧
            ∀ l ≤ k, ∀ nr', HeaderAt s.flash (c.ring.turn start n j l) m nr' → nr' = nr := by
          by_cases hd : diffLargest < nrDiff nr₂ nr₁
          · left
            simp only [compared, if_pos hd]
            exact hsave _ (Nat.mod_lt _ h0) _ hlt _ _
          · simp only [compared, if_neg hd]
            rcases hs with hs | ⟨hz, hone⟩
            · left
              rw [hul]
              exact hkeep _ _ hs
            · right
              simp only at hz
              have he : nr₂ = nr₁ := (nrDiff_eq_zero hh₂.1 hh₁.1).mp (by omega)
              refine ⟨by omega, fun l hl nr' hh' => ?_⟩
              rcases Nat.lt_trichotomy l k with hlk | rfl | hlk
              · by_cases hli : l ≤ i
                · exact hone l hli nr' hh'
                · exact absurd (hsame.found.mp ⟨hm, nr', hh'⟩) (hno l (by omega) hlk)
              · rw [← hone i (Nat.le_refl i) nr₁ hh₁, ← he]
                exact (hh'.unique hh₂').2
              · omega
        by_cases hend : k = n
        · left
          rw [if_neg (by rw [hend, PageRing.turn_all hj, not_not])] at hround
          refine ⟨(), _, hround, hsame', ?_⟩
          rcases hsaved with hs | ⟨-, hone⟩
          · exact .inl hs
          · right
            constructor
            · refine ⟨j, hj, (j + i) % n, hlt, ?_, hfound, hm, nr₁, hh₁⟩
              intro he
              have h1 : c.ring.turn start n j 0 = c.ring.turn start n j i := by
                rw [PageRing.turn_zero hj, PageRing.turn, ← he]
              have h2 := (PageRing.turn_inj hn h0 hin).mp h1
              omega
            · refine ⟨nr, fun a ha nr' hh' => ?_⟩
              obtain ⟨b, hb, hab⟩ : ∃ b < n, c.ring.turn start n j b = c.ring.step start a :=
                PageRing.exists_turn hj ha
              rw [← hab] at hh'
              exact hone b (by omega) nr' hh'
        · right
          have hne : c.ring.turn start n j k ≠ c.ring.step start j := by
            rw [← PageRing.turn_zero hj, Ne, PageRing.turn_inj hn (by omega) h0]
            omega
          rw [if_pos hne] at hround
          refine ⟨_, _, hround, n - k, by omega, k, by omega, by omega, rfl, hsame', ⟨nr₂, hh₂', ?_⟩, hsaved⟩
          unfold compared
          split
          · exact (hsaveHeader _ _ _ _).trans hnr₂
          · exact hnr₂
    · refine ⟨0, h0, by omega, (PageRing.turn_zero hj).symm, Std.Refl.refl s,
        ⟨nr, (PageRing.turn_zero hj).symm ▸ hfirst, hheader⟩, .inr ⟨rfl, ?_⟩⟩
      intro k hk nr' hh'
      obtain rfl : k = 0 := by omega
      rw [PageRing.turn_zero hj] at hh'
      exact (hh'.unique hfirst).2
  obtain ⟨⟨⟩, t, hr, hsame, hs⟩ := hloop
  exact ⟨t, hr, hsame, hs⟩

end largestDiff

end Lpc1788Libraries.DataManager

import Lpc1788Libraries.DataManager.LogFsPages

namespace Lpc1788Libraries.DataManager

open Lpc1788Libraries.Support NorFlash BoundedProgram

variable {c : LogFsCfg} {s : Sys} {f g : Pages} {p q stop : ℕ} {m : UInt8} {v : PageView}
  {l pre post : List PageView}

/-- The pages from `p` on hold the views of the list. -/
def Ahead (c : LogFsCfg) (f : Pages) : ℕ → List PageView → Prop
  | _, [] => True
  | p, v :: l => Holds c f p v ∧ Ahead c f (c.ring.next p) l

theorem Ahead.get (h : Ahead c f p l) (hp : c.ring.Mem p) {k : ℕ} (hk : l[k]? = some v) :
    Holds c f (c.ring.step p k) v := by
  induction l generalizing p k with
  | nil => simp at hk
  | cons x l ih =>
    cases k with
    | zero =>
      obtain rfl : x = v := by simpa using hk
      rw [PageRing.step_zero hp]
      exact h.1
    | succ k =>
      have := ih h.2 (PageRing.next_mem hp) (by simpa using hk)
      rwa [PageRing.step_next hp] at this

theorem ahead_of_get (hp : c.ring.Mem p)
    (h : ∀ k v, l[k]? = some v → Holds c f (c.ring.step p k) v) : Ahead c f p l := by
  induction l generalizing p with
  | nil => trivial
  | cons x l ih =>
    refine ⟨?_, ih (PageRing.next_mem hp) fun k v hk => ?_⟩
    · have := h 0 x rfl
      rwa [PageRing.step_zero hp] at this
    · rw [PageRing.step_next hp]
      exact h (k + 1) v (by simpa using hk)

theorem ahead_append (hp : c.ring.Mem p) : Ahead c f p (l ++ pre) ↔
    Ahead c f p l ∧ Ahead c f (c.ring.step p l.length) pre := by
  induction l generalizing p with
  | nil => simp [Ahead, PageRing.step_zero hp]
  | cons x l ih =>
    simp only [List.cons_append, Ahead, ih (PageRing.next_mem hp), List.length_cons]
    rw [PageRing.step_next hp, and_assoc]

theorem pageNext_eq (hp : c.ring.Mem p) :
    (if p = c.pageEnd then c.pageStart else (p + 1) % 0x10000) = c.ring.next p := by
  have h1 : p ≤ c.pageEnd := hp.2
  have h2 := c.pageEnd_lt
  have h3 : (p + 1) % 0x10000 = p + 1 := Nat.mod_eq_of_lt (by omega)
  rw [h3]
  rfl

theorem pageNext_returns (hp : c.ring.Mem p) : (logFsPageNext c p).Returns s (c.ring.next p) s := by
  simp only [logFsPageNext, dbgAssertPage, Prog.check_bind_returns, Prog.returns_pure, pageNext_eq hp,
    and_self, and_true]
  exact fun _ => hp

theorem pagePrevious_returns (hp : c.ring.Mem p) :
    (logFsPagePrevious c p).Returns s (c.ring.prev p) s := by
  have h0 : c.pageStart ≤ p := hp.1
  have h1 : p ≤ c.pageEnd := hp.2
  have h2 := c.pageEnd_lt
  have he : (if p = c.pageStart then c.pageEnd else (p + 0xffff) % 0x10000) = c.ring.prev p := by
    have hr : c.ring.prev p = if p = c.pageStart then c.pageEnd else p - 1 := rfl
    rw [hr]
    split <;> omega
  simp only [logFsPagePrevious, dbgAssertPage, Prog.check_bind_returns, Prog.returns_pure, he,
    and_self, and_true]
  exact fun _ => hp

theorem mem_ne_invalid (hp : c.ring.Mem p) : p ≠ logFsPageInvalid := by
  have h1 : p ≤ c.pageEnd := hp.2
  have h2 := c.pageEnd_lt
  simp only [logFsPageInvalid]
  omega

theorem mem_lt (hp : c.ring.Mem p) : p < 0x10000 := by
  have h1 : p ≤ c.pageEnd := hp.2
  have h2 := c.pageEnd_lt
  omega

theorem assert_returns (hp : c.ring.Mem p) : (dbgAssertPage c p).Returns s () s := by
  simp only [dbgAssertPage, Prog.returns_check, and_true]
  exact fun _ => hp

section findFirst

theorem findFirst_loop_found (hp : c.ring.Mem p) (hA : Ahead c s.flash p (pre ++ v :: post))
    (hpre : ∀ x ∈ pre, x.marker ≠ m) (hv : v.marker = m)
    (hm : m = logFsMarkerFile ∨ m = logFsMarkerRecord)
    (hstop : ∀ k < pre.length, c.ring.step p k ≠ stop) :
    (Prog.loop (findFirstRound c m stop) p).Returns s (c.ring.step p pre.length)
      (s.setHeader (sealedHeader m v.nr)) := by
  induction pre generalizing p s with
  | nil =>
    have hseen : s.seen v = s.setHeader (sealedHeader m v.nr) := by
      subst hv
      cases v <;> rcases hm with hm | hm <;>
        simp_all [PageView.marker, Sys.seen, PageView.seenBy, logFsMarkerFree, logFsMarkerBad,
          logFsMarkerFile, logFsMarkerRecord]
    refine Prog.loop_inr ?_
    unfold findFirstRound
    refine hA.1.pageHeaderRd.bind ?_
    simp [hv, hseen, PageRing.step_zero hp]
  | cons x pre ih =>
    have hx := hpre x (by simp)
    have hne : p ≠ stop := by
      have := hstop 0 (by simp)
      rwa [PageRing.step_zero hp] at this
    have hround : (findFirstRound c m stop p).Returns s (.inl (c.ring.next p)) (s.seen x) := by
      unfold findFirstRound
      refine hA.1.pageHeaderRd.bind ?_
      simp only [hx, hne, if_false]
      refine (pageNext_returns hp).bind ?_
      simp
    refine Prog.loop_inl hround ?_
    have := ih (s := s.seen x) (PageRing.next_mem hp) hA.2 (fun y hy => hpre y (by simp [hy])) (by
      intro k hk
      rw [PageRing.step_next hp]
      exact hstop (k + 1) (by simpa using hk))
    rwa [PageRing.step_next hp] at this

theorem findFirst_loop_none (hp : c.ring.Mem p) (hA : Ahead c s.flash p l) (hl : ∀ x ∈ l, x.marker ≠ m)
    (hstop : c.ring.step p (l.length - 1) = stop) (hne : l ≠ [])
    (hbefore : ∀ k < l.length - 1, c.ring.step p k ≠ stop) :
    ∃ h, (Prog.loop (findFirstRound c m stop) p).Returns s logFsPageInvalid (s.setHeader h) := by
  induction l generalizing p s with
  | nil => exact absurd rfl hne
  | cons x l ih =>
    have hx := hl x (by simp)
    cases l with
    | nil =>
      have hps : p = stop := by simpa [PageRing.step_zero hp] using hstop
      refine ⟨x.seenBy s.logFs.pageHeader, Prog.loop_inr ?_⟩
      unfold findFirstRound
      refine hA.1.pageHeaderRd.bind ?_
      simp [hx, hps, Sys.seen]
    | cons y l =>
      have hps : p ≠ stop := by
        have := hbefore 0 (by simp)
        rwa [PageRing.step_zero hp] at this
      have hround : (findFirstRound c m stop p).Returns s (.inl (c.ring.next p)) (s.seen x) := by
        unfold findFirstRound
        refine hA.1.pageHeaderRd.bind ?_
        simp only [hx, hps, if_false]
        refine (pageNext_returns hp).bind ?_
        simp
      obtain ⟨h, hr⟩ := ih (s := s.seen x) (PageRing.next_mem hp) hA.2 (fun z hz => hl z (by simp [hz]))
        (by
          rw [PageRing.step_next hp, ← hstop]
          rfl)
        (by simp)
        (by
          intro k hk
          rw [PageRing.step_next hp]
          exact hbefore (k + 1) (by simp at hk ⊢; omega))
      exact ⟨h, Prog.loop_inl hround hr⟩

end findFirst

end Lpc1788Libraries.DataManager

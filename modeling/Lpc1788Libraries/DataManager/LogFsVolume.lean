import Lpc1788Libraries.DataManager.LogFsReaders

namespace Lpc1788Libraries.DataManager

open Lpc1788Libraries.Support NorFlash BoundedProgram

variable {c : LogFsCfg} {s t : Sys} {f g : Pages} {b p q stop k n nr : ℕ} {m : UInt8} {v w : PageView}
  {l l' : List PageView}

/-- From the page `b` on the pages of the file system hold the views of the list; the other pages of
the device are erased. -/
structure Volume (c : LogFsCfg) (f : Pages) (b : ℕ) (l : List PageView) : Prop where
  base : c.ring.Mem b
  ahead : Ahead c f b l
  length : l.length = c.ring.size
  outside : ∀ p, ¬ c.ring.Mem p → ErasedFrom f p 0

/-- Only the page has been written or erased. -/
def OnlyPage (page : ℕ) (f g : Pages) : Prop := ∀ q, q ≠ page → ∀ i, g q i = f q i

theorem onlyPage_program {offset : ℕ} {data : List UInt8} : OnlyPage p f (f.program p offset data) :=
  fun _ hq _ => program_other hq

theorem onlyPage_erase : OnlyPage p f (f.erase p) := fun _ hq _ => erase_other hq

theorem OnlyPage.trans {h : Pages} (hf : OnlyPage p f g) (hg : OnlyPage p g h) : OnlyPage p f h :=
  fun q hq i => (hg q hq i).trans (hf q hq i)

theorem OnlyPage.holds (h : OnlyPage p f g) (hq : q ≠ p) (hv : Holds c f q v) : Holds c g q v :=
  hv.congr fun i => (h q hq i).symm

theorem getElem?_behind {i : ℕ} : (l ++ v :: l')[l.length + (i + 1)]? = l'[i]? := by
  rw [List.getElem?_append_right (Nat.le_add_right _ _), Nat.add_sub_cancel_left, List.getElem?_cons_succ]

namespace Volume

theorem rotate (h : Volume c f b (l ++ l')) : Volume c f (c.ring.step b l.length) (l' ++ l) := by
  have hlen : l.length + l'.length = c.ring.size := by
    rw [← List.length_append]
    exact h.length
  have hback : c.ring.step (c.ring.step b l.length) l'.length = b := by
    rw [PageRing.step_step, hlen, PageRing.step_size h.base]
  obtain ⟨h1, h2⟩ := (ahead_append h.base).mp h.ahead
  constructor
  · exact PageRing.step_mem
  · rw [ahead_append PageRing.step_mem, hback]
    exact ⟨h2, h1⟩
  · rw [List.length_append, Nat.add_comm]
    exact hlen
  · exact h.outside

theorem ahead_again (h : Volume c f b (v :: l)) : Ahead c f b (v :: l ++ [v]) := by
  apply (ahead_append h.base).mpr
  rw [h.length, PageRing.step_size h.base]
  exact ⟨h.ahead, h.ahead.1, trivial⟩

theorem get (h : Volume c f b l) (hk : l[k]? = some v) : Holds c f (c.ring.step b k) v := h.ahead.get h.base hk

theorem exists_view (h : Volume c f b l) (hp : c.ring.Mem p) :
    ∃ k v, k < c.ring.size ∧ c.ring.step b k = p ∧ l[k]? = some v ∧ Holds c f p v := by
  obtain ⟨k, hk, rfl⟩ := PageRing.exists_step h.base hp
  have hlt : k < l.length := by rw [h.length]; exact hk
  exact ⟨k, l[k], hk, rfl, List.getElem?_eq_getElem hlt, h.get (List.getElem?_eq_getElem hlt)⟩

theorem set (h : Volume c f b (l ++ v :: l')) (hf : OnlyPage (c.ring.step b l.length) f g)
    (hw : Holds c g (c.ring.step b l.length) w) : Volume c g b (l ++ w :: l') := by
  have hlen : l.length + (l'.length + 1) = c.ring.size := by
    rw [← List.length_cons, ← List.length_append]
    exact h.length
  constructor
  · exact h.base
  · apply ahead_of_get h.base
    intro k x hx
    rcases Nat.lt_trichotomy k l.length with hk | rfl | hk
    · have hx' : (l ++ v :: l')[k]? = some x := by
        rw [List.getElem?_append_left hk] at hx ⊢
        exact hx
      apply hf.holds _ (h.get hx')
      rw [Ne, PageRing.step_inj (by omega) (by omega)]
      omega
    · obtain rfl : w = x := by simpa using hx
      exact hw
    · obtain ⟨i, rfl⟩ : ∃ i, k = l.length + (i + 1) := ⟨k - l.length - 1, by omega⟩
      rw [getElem?_behind] at hx
      have hi : l'[i]? = some x := hx
      rw [← getElem?_behind (v := v) (l := l)] at hx
      have hlt : i < l'.length := by
        by_contra hge
        rw [List.getElem?_eq_none (Nat.le_of_not_lt hge)] at hi
        exact absurd hi (by simp)
      apply hf.holds _ (h.get hx)
      rw [Ne, PageRing.step_inj (by omega) (by omega)]
      omega
  · rw [← h.length, List.length_append, List.length_append]
    rfl
  · intro p hp i hi
    rw [hf p (by rintro rfl; exact hp PageRing.step_mem)]
    exact h.outside p hp i hi

theorem set_head (h : Volume c f b (v :: l)) (hf : OnlyPage b f g) (hw : Holds c g b w) : Volume c g b (w :: l) := by
  have hb := PageRing.step_zero h.base
  have h' : Volume c f b ([] ++ v :: l) := h
  refine h'.set (w := w) ?_ ?_
  · rw [List.length_nil, hb]
    exact hf
  · rw [List.length_nil, hb]
    exact hw

end Volume

section trail

variable {go : ℕ → ℕ}

/-- The pages that the walk comes to from `p` on hold the views of the list. -/
def Trail (c : LogFsCfg) (f : Pages) (go : ℕ → ℕ) : ℕ → List PageView → Prop
  | _, [] => True
  | p, v :: l => Holds c f (go p) v ∧ Trail c f go (go p) l

theorem trail_append : Trail c f go p (l ++ l') ↔ Trail c f go p l ∧ Trail c f go (go^[l.length] p) l' := by
  induction l generalizing p with
  | nil => simp [Trail]
  | cons v l ih =>
    simp only [List.cons_append, Trail, ih, List.length_cons, Function.iterate_succ_apply]
    rw [and_assoc]

theorem Trail.congr {go' : ℕ → ℕ} (h : Trail c f go p l) (hgo : ∀ k < l.length, go' (go^[k] p) = go (go^[k] p)) :
    Trail c f go' p l := by
  induction l generalizing p with
  | nil => trivial
  | cons v l ih =>
    have h0 : go' p = go p := hgo 0 (Nat.zero_lt_succ _)
    refine ⟨h0.symm ▸ h.1, ?_⟩
    rw [h0]
    apply ih h.2
    intro k hk
    have := hgo (k + 1) (Nat.succ_lt_succ hk)
    rwa [Function.iterate_succ_apply] at this

theorem trail_next : Trail c f c.ring.next p l ↔ Ahead c f (c.ring.next p) l := by
  induction l generalizing p with
  | nil => exact Iff.rfl
  | cons v l ih => simp only [Trail, Ahead, ih]

theorem Ahead.trail_prev (h : Ahead c f p l) (hp : c.ring.Mem p) :
    Trail c f c.ring.prev (c.ring.step p l.length) l.reverse := by
  induction l generalizing p with
  | nil => trivial
  | cons v l ih =>
    rw [List.reverse_cons, trail_append, List.length_reverse, List.length_cons]
    have hnext := ih h.2 (PageRing.next_mem hp)
    rw [PageRing.step_next hp] at hnext
    refine ⟨hnext, ?_, trivial⟩
    rw [PageRing.prev_iterate (Nat.le_succ _), Nat.succ_sub (Nat.le_refl _), Nat.sub_self, PageRing.prev_step,
      PageRing.step_zero hp]
    exact h.1

theorem seen_eq (hv : v.marker = m) (hm : m = logFsMarkerFile ∨ m = logFsMarkerRecord) :
    s.seen v = s.setHeader (sealedHeader m v.nr) := by
  subst hv
  cases v <;> rcases hm with hm | hm <;>
    simp_all [PageView.marker, Sys.seen, PageView.seenBy, logFsMarkerFree, logFsMarkerBad,
      logFsMarkerFile, logFsMarkerRecord]

end trail

end Lpc1788Libraries.DataManager

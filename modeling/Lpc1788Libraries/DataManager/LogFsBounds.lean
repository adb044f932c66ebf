import Lpc1788Libraries.DataManager.LogFsScan

namespace Lpc1788Libraries.DataManager

open Lpc1788Libraries.Support NorFlash BoundedProgram

/-- The last page that the file with the FILE page `page` may use. -/
def boundEnd (c : LogFsCfg) (page : ℕ) : ℕ :=
  if c.maxPages ≠ 0 then
    if c.pageEnd < (page + c.maxPages) % 0x10000 then
      (page + c.maxPages) % 0x10000 - (c.pageEnd - c.pageStart)
    else (page + c.maxPages) % 0x10000
  else c.ring.prev page

def Sys.filePage (s : Sys) : ℕ := s.logFs.fileInfo.file.startPage

variable {c : LogFsCfg} {s t : Sys} {f g : Pages} {page p q start stop current k n nr : ℕ} {m : UInt8}

theorem boundStart_returns (h : c.ring.Mem s.filePage) :
    (logFsRecordPagesBoundStart c).Returns s (c.ring.next s.filePage) s := by
  simp only [logFsRecordPagesBoundStart, getLogFs_bind]
  exact pageNext_returns h

theorem boundEnd_returns (h : c.ring.Mem s.filePage) :
    (logFsRecordPagesBoundEnd c).Returns s (boundEnd c s.filePage) s := by
  simp only [logFsRecordPagesBoundEnd, getLogFs_bind, boundEnd, Sys.filePage]
  by_cases h0 : c.maxPages = 0
  · simp only [h0, ne_eq, not_true_eq_false, if_false]
    exact pagePrevious_returns h
  · simp only [h0, ne_eq, not_false_eq_true, if_true]
    exact Prog.returns_pure.mpr ⟨rfl, rfl⟩

theorem isBoundPage_returns (h : c.ring.Mem s.filePage) (he : c.ring.Mem (boundEnd c s.filePage)) :
    (isBoundPage c page).Returns s (decide (page = c.ring.next (boundEnd c s.filePage))) s := by
  apply (boundEnd_returns h).bind
  apply (pageNext_returns he).bind
  exact Prog.returns_pure.mpr ⟨rfl, rfl⟩

theorem boundEnd_mem (h : c.ring.Mem page) (hb : ¬ (page = c.pageEnd ∧ c.maxPages = c.ring.size)) :
    c.ring.Mem (boundEnd c page) := by
  have h1 : c.pageStart ≤ page := h.1
  have h2 : page ≤ c.pageEnd := h.2
  have h3 := c.pageStart_lt
  have h4 := c.pageEnd_maxPages_lt
  have h5 := c.maxPages_le
  have hmod : (page + c.maxPages) % 0x10000 = page + c.maxPages := Nat.mod_eq_of_lt (by omega)
  have hsize : c.ring.size = c.pageEnd + 1 - c.pageStart := rfl
  unfold boundEnd
  rw [hmod]
  split_ifs with h0 hw
  · constructor
    · change c.pageStart ≤ _
      omega
    · change _ ≤ c.pageEnd
      omega
  · exact ⟨by change c.pageStart ≤ _; omega, by change _ ≤ c.pageEnd; omega⟩
  · exact PageRing.prev_mem h

/-- The pages from `next page` up to the bound, in which the records of a file are looked for. -/
def InBounds (c : LogFsCfg) (page q : ℕ) : Prop :=
  ∃ n ≤ c.ring.size, ∃ j < n, boundEnd c page = c.ring.step (c.ring.next page) (n - 1) ∧
    q = c.ring.step (c.ring.next page) j

theorem InBounds.mem (h : InBounds c page q) : c.ring.Mem q := by
  obtain ⟨n, -, j, -, -, rfl⟩ := h
  exact PageRing.step_mem

end Lpc1788Libraries.DataManager

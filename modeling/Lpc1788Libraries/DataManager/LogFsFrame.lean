import Lpc1788Libraries.DataManager.LogFsModel

namespace Lpc1788Libraries.DataManager

open Lpc1788Libraries.Support NorFlash BoundedProgram

/-- Nothing but the page header and the flash has changed. -/
def HeaderOnly (s t : Sys) : Prop := ∃ h, t.logFs = { s.logFs with pageHeader := h }

/-- Nothing but the page header, the file info and the flash has changed. -/
def DescriptorOnly (s t : Sys) : Prop :=
  ∃ h i, t.logFs = { s.logFs with pageHeader := h, fileInfo := i }

instance : Std.Refl HeaderOnly := ⟨fun s => ⟨s.logFs.pageHeader, rfl⟩⟩

instance : IsTrans Sys HeaderOnly where
  trans := by
    rintro s t u ⟨h, ht⟩ ⟨h', hu⟩
    exact ⟨h', by rw [hu, ht]⟩

instance : Std.Refl DescriptorOnly := ⟨fun s => ⟨s.logFs.pageHeader, s.logFs.fileInfo, rfl⟩⟩

instance : IsTrans Sys DescriptorOnly where
  trans := by
    rintro s t u ⟨h, i, ht⟩ ⟨h', i', hu⟩
    exact ⟨h', i', by rw [hu, ht]⟩

/-- The file info and a page are left alone. -/
def Keeps (page : ℕ) (s t : Sys) : Prop :=
  t.logFs.fileInfo = s.logFs.fileInfo ∧ ∀ i, t.flash page i = s.flash page i

instance {page : ℕ} : Std.Refl (Keeps page) := ⟨fun _ => ⟨rfl, fun _ => rfl⟩⟩

instance {page : ℕ} : IsTrans Sys (Keeps page) where
  trans := by
    rintro s t u ⟨h1, h2⟩ ⟨h3, h4⟩
    exact ⟨h3.trans h1, fun i => (h4 i).trans (h2 i)⟩

/-- The contents that the flash has had are kept in the list of images. -/
def Grown (s t : Sys) : Prop := s.flash :: s.images <:+ t.flash :: t.images

instance : Std.Refl Grown := ⟨fun _ => List.suffix_refl _⟩

instance : IsTrans Sys Grown := ⟨fun _ _ _ => List.IsSuffix.trans⟩

variable {c : LogFsCfg} {page offset n : ℕ} {R : Sys → Sys → Prop} {m : UInt8}

section primitives

variable {s : Sys}

@[simp] theorem getLogFs_bind {β : Type} {k : LogFs → SysM β} {b : β} {t : Sys} :
    (getLogFs >>= k).Returns s b t ↔ (k s.logFs).Returns s b t := by
  simp [getLogFs]

@[simp] theorem setLogFs_bind {β : Type} {g : LogFs → LogFs} {k : Unit → SysM β} {b : β} {t : Sys} :
    (setLogFs g >>= k).Returns s b t ↔ (k ()).Returns { s with logFs := g s.logFs } b t := by
  simp [setLogFs]

@[simp] theorem setLogFs_returns {g : LogFs → LogFs} {u : Unit} {t : Sys} :
    (setLogFs g).Returns s u t ↔ { s with logFs := g s.logFs } = t := by
  simp [setLogFs]

@[simp] theorem at45dRd_bind {β : Type} {n : ℕ} {k : List UInt8 → SysM β} {b : β} {t : Sys} :
    (at45dRdPageOffset page offset n >>= k).Returns s b t ↔
      (k (s.flash.read page offset n)).Returns s b t := by
  simp [at45dRdPageOffset]

@[simp] theorem at45dWr_bind {β : Type} {data : List UInt8} {k : Unit → SysM β} {b : β} {t : Sys} :
    (at45dWrPageOffset data page offset >>= k).Returns s b t ↔
      (k ()).Returns (s.putFlash (s.flash.program page offset data)) b t := by
  simp [at45dWrPageOffset]

@[simp] theorem at45dWr_returns {data : List UInt8} {u : Unit} {t : Sys} :
    (at45dWrPageOffset data page offset).Returns s u t ↔
      s.putFlash (s.flash.program page offset data) = t := by
  simp [at45dWrPageOffset]

@[simp] theorem at45dErase_bind {β : Type} {k : Unit → SysM β} {b : β} {t : Sys} :
    (at45dErasePage page >>= k).Returns s b t ↔
      (k ()).Returns (s.putFlash (s.flash.erase page)) b t := by
  simp [at45dErasePage]

@[simp] theorem at45dErase_returns {u : Unit} {t : Sys} :
    (at45dErasePage page).Returns s u t ↔ s.putFlash (s.flash.erase page) = t := by
  simp [at45dErasePage]

theorem within_getLogFs {β : Type} {k : LogFs → SysM β} (h : ∀ l, (k l).Within R) :
    (getLogFs >>= k).Within R := by
  intro s b t hr
  exact h _ (getLogFs_bind.mp hr)

theorem within_at45dRd {β : Type} {k : List UInt8 → SysM β} (h : ∀ l, (k l).Within R) :
    (at45dRdPageOffset page offset n >>= k).Within R := by
  intro s b t hr
  exact h _ (at45dRd_bind.mp hr)

theorem within_assert [Std.Refl R] : (dbgAssertPage c page).Within R := Prog.within_check

variable [IsTrans Sys R] [Std.Refl R]

theorem within_pageNext : (logFsPageNext c page).Within R :=
  Prog.within_bind within_assert fun _ => Prog.within_pure

theorem within_pagePrevious : (logFsPagePrevious c page).Within R :=
  Prog.within_bind within_assert fun _ => Prog.within_pure

end primitives

section pageReads

/-- Writes to the flash and to the page header of the descriptor keep to the relation. -/
structure PageClosed (R : Sys → Sys → Prop) : Prop where
  putFlash : ∀ s f, R s (s.putFlash f)
  setHeader : ∀ s h, R s { s with logFs := { s.logFs with pageHeader := h } }

theorem PageClosed.at45dWr {data : List UInt8} (hR : PageClosed R) : (at45dWrPageOffset data page offset).Within R :=
  Prog.within_modify fun s => hR.putFlash s _

theorem PageClosed.at45dErase (hR : PageClosed R) : (at45dErasePage page).Within R :=
  Prog.within_modify fun s => hR.putFlash s _

theorem PageClosed.header {g : LogFsPageHeader → LogFsPageHeader} (hR : PageClosed R) :
    (setLogFs fun l => { l with pageHeader := g l.pageHeader }).Within R :=
  Prog.within_modify fun s => hR.setHeader s _

variable [IsTrans Sys R] [Std.Refl R]

theorem PageClosed.markerRd (hR : PageClosed R) : (logFsMarkerRd page offset).Within R := by
  unfold logFsMarkerRd
  refine within_at45dRd fun l => Prog.within_ite Prog.within_pure ?_
  exact Prog.within_bind hR.at45dWr fun _ => Prog.within_pure

theorem PageClosed.markerWr (hR : PageClosed R) : (logFsMarkerWr m page offset).Within R := by
  unfold logFsMarkerWr
  refine Prog.within_bind hR.at45dWr fun _ => ?_
  refine Prog.within_bind hR.markerRd fun _ => Prog.within_ite ?_ Prog.within_pure
  exact Prog.within_bind hR.at45dWr fun _ => Prog.within_pure

theorem PageClosed.pageHeaderRd (hR : PageClosed R) : (logFsPageHeaderRd page).Within R := by
  unfold logFsPageHeaderRd
  refine Prog.within_bind hR.markerRd fun _ => Prog.within_ite Prog.within_pure ?_
  refine within_at45dRd fun l => Prog.within_bind ?_ fun _ => Prog.within_ite ?_ Prog.within_pure
  · exact hR.header (g := fun _ => LogFsPageHeader.ofBytes l)
  · exact Prog.within_bind hR.markerWr fun _ => Prog.within_pure

theorem PageClosed.findFirst {start stop : ℕ} (hR : PageClosed R) :
    (logFsPageHeaderFindFirst c m start stop).Within R := by
  unfold logFsPageHeaderFindFirst
  refine Prog.within_bind within_assert fun _ => Prog.within_bind within_assert fun _ => ?_
  refine Prog.within_loop fun page => ?_
  unfold findFirstRound
  refine Prog.within_bind hR.pageHeaderRd fun _ => Prog.within_ite Prog.within_pure ?_
  exact Prog.within_ite Prog.within_pure (Prog.within_bind within_pageNext fun _ => Prog.within_pure)

theorem PageClosed.findNext {start stop current : ℕ} (hR : PageClosed R) :
    (logFsPageHeaderFindNext c m start stop current).Within R := by
  unfold logFsPageHeaderFindNext
  refine Prog.within_bind within_assert fun _ => Prog.within_bind within_assert fun _ => ?_
  refine Prog.within_bind within_assert fun _ => Prog.within_loop fun page => ?_
  have look : ∀ page : ℕ, Prog.Within R (do
      if page = current then
        return .inr logFsPageInvalid
      else if (← logFsPageHeaderRd page) = m then
        return .inr page
      else
        return .inl page : SysM (ℕ ⊕ ℕ)) := by
    intro page
    refine Prog.within_ite Prog.within_pure (Prog.within_bind hR.pageHeaderRd fun _ => ?_)
    exact Prog.within_ite Prog.within_pure Prog.within_pure
  unfold findNextRound
  refine Prog.within_ite ?_ ?_
  · exact Prog.within_bind Prog.within_pure look
  · exact Prog.within_bind within_pageNext look

end pageReads

theorem grown_closed : PageClosed Grown where
  putFlash := fun _ _ => List.suffix_cons ..
  setHeader := fun _ _ => List.suffix_refl _

theorem setLogFs_grown {g : LogFs → LogFs} : (setLogFs g).Within Grown :=
  Prog.within_modify fun _ => List.suffix_refl _

section keeps

variable {q : ℕ}

theorem markerRd_keeps (hq : page ≠ q) : (logFsMarkerRd q offset).Within (Keeps page) := by
  refine within_at45dRd fun l => Prog.within_ite Prog.within_pure ?_
  apply Prog.within_bind
  · exact Prog.within_modify fun s => ⟨rfl, fun i => program_other hq⟩
  · exact fun _ => Prog.within_pure

theorem at45dErase_keeps (hq : page ≠ q) : (at45dErasePage q).Within (Keeps page) :=
  Prog.within_modify fun _ => ⟨rfl, fun _ => erase_other hq⟩

theorem pageNext_ne : (logFsPageNext c page).Answers (page ≠ ·) := by
  apply Prog.answers_bind
  intro _
  apply Prog.answers_pure
  have h := c.pageStart_lt
  split
  · omega
  · intro heq
    omega

end keeps

section headerOnly

theorem headerOnly_closed : PageClosed HeaderOnly where
  putFlash := fun s _ => ⟨s.logFs.pageHeader, rfl⟩
  setHeader := fun _ h => ⟨h, rfl⟩

theorem at45dWr_headerOnly {data : List UInt8} : (at45dWrPageOffset data page offset).Within HeaderOnly :=
  PageClosed.at45dWr headerOnly_closed

theorem setHeader_headerOnly {g : LogFsPageHeader → LogFsPageHeader} :
    (setLogFs fun l => { l with pageHeader := g l.pageHeader }).Within HeaderOnly := PageClosed.header headerOnly_closed

theorem markerRd_headerOnly : (logFsMarkerRd page offset).Within HeaderOnly := PageClosed.markerRd headerOnly_closed

theorem markerWr_headerOnly : (logFsMarkerWr m page offset).Within HeaderOnly := PageClosed.markerWr headerOnly_closed

theorem pageHeaderRd_headerOnly : (logFsPageHeaderRd page).Within HeaderOnly := PageClosed.pageHeaderRd headerOnly_closed

theorem findFirst_headerOnly {start stop : ℕ} : (logFsPageHeaderFindFirst c m start stop).Within HeaderOnly :=
  PageClosed.findFirst headerOnly_closed

theorem findNext_headerOnly {start stop current : ℕ} :
    (logFsPageHeaderFindNext c m start stop current).Within HeaderOnly := PageClosed.findNext headerOnly_closed

theorem deleteLoop_headerOnly : (Prog.loop (deleteRound c) page).Within HeaderOnly := by
  refine Prog.within_loop fun page => ?_
  unfold deleteRound
  refine Prog.within_bind within_pagePrevious fun _ => ?_
  refine Prog.within_bind pageHeaderRd_headerOnly fun marker => ?_
  have leave : ∀ page : ℕ, Prog.Within HeaderOnly
      (if marker ≠ logFsMarkerFile then pure (.inl page) else pure (.inr page) : SysM (ℕ ⊕ ℕ)) :=
    fun page => Prog.within_ite Prog.within_pure Prog.within_pure
  refine Prog.within_ite ?_ (leave _)
  exact Prog.within_bind markerWr_headerOnly fun _ => leave _

end headerOnly

theorem fileBlockRd_true {s t : Sys} (h : (logFsFileBlockRd page).Returns s true t) :
    DescriptorOnly s t ∧ t.logFs.fileInfo.file.startPage = page := by
  obtain ⟨marker, t₁, h₁, h⟩ := Prog.returns_bind.mp h
  obtain ⟨hd, ht₁⟩ := pageHeaderRd_headerOnly h₁
  split at h
  · simp at h
  simp only [at45dRd_bind, setLogFs_bind] at h
  -- both checks passed, since a failed one answers `false`
  split at h
  · simp at h
  split at h
  · simp at h
  · rename_i hp
    obtain ⟨-, rfl⟩ := Prog.returns_pure.mp h
    exact ⟨⟨_, _, by rw [ht₁]⟩, not_not.mp hp⟩

end Lpc1788Libraries.DataManager

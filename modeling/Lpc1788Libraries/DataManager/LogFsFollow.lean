import Lpc1788Libraries.Support.Simulation
import Lpc1788Libraries.DataManager.LogFsRun
import Lpc1788Libraries.DataManager.LogFsPages

namespace Lpc1788Libraries.DataManager

open Lpc1788Libraries.Support NorFlash BoundedProgram BoundedProgram.Prog

/-- Two states that agree on the flash and the record addresses. In the second the file info is the
one of the open file, whose FILE page is `f`, and when `own` holds in the first as well. -/
structure Alike (f : ℕ) (own : Prop) (s s' : Sys) : Prop where
  flash : s'.flash = s.flash
  records : ∃ h i, s'.logFs = { s.logFs with pageHeader := h, fileInfo := i }
  file : s'.logFs.fileInfo.file.startPage = f
  own : own → s.logFs.fileInfo.file.startPage = f

/-- The page headers have the same marker and number, too. -/
def AlikeHeader (f : ℕ) (own : Prop) (s s' : Sys) : Prop :=
  Alike f own s s' ∧ s'.logFs.pageHeader.marker = s.logFs.pageHeader.marker ∧
    s'.logFs.pageHeader.nr = s.logFs.pageHeader.nr

variable {c : LogFsCfg} {f page offset n : ℕ} {own : Prop} {m : UInt8} {β : Type}
  {S : Sys → Sys → Prop}

/-- `p` answers the same and goes on alike from states that are alike. -/
def Follows (f : ℕ) (own : Prop) (p : SysM β) : Prop := Simulates (Alike f own) (Alike f own) p p

section rules

theorem follows_pure {b : β} : Follows f own (pure b : SysM β) := simulates_pure fun _ _ h => h

theorem Follows.bind {α : Type} {p : SysM α} {k : α → SysM β} (h : Follows f own p)
    (h' : ∀ a, Follows f own (k a)) : Follows f own (p >>= k) := simulates_bind h h'

theorem Follows.map {α : Type} {p : SysM α} {k : α → β} (h : Follows f own p) :
    Follows f own (k <$> p) := simulates_map h

theorem follows_ite {d : Prop} [Decidable d] {p q : SysM β} (h : Follows f own p) (h' : Follows f own q) :
    Follows f own (if d then p else q) := simulates_ite h h'

theorem follows_loop {α : Type} {body : β → SysM (β ⊕ α)} {x : β} (h : ∀ y, Follows f own (body y)) :
    Follows f own (Prog.loop body x) := simulates_loop h

theorem simulates_getLogFs {k k' : LogFs → SysM β}
    (hk : ∀ l h i, i.file.startPage = f → (own → l.fileInfo.file.startPage = f) →
      Simulates (Alike f own) S (k l) (k' { l with pageHeader := h, fileInfo := i })) :
    Simulates (Alike f own) S (getLogFs >>= k) (getLogFs >>= k') := by
  intro s s' b t hs hp
  obtain ⟨h, i, hl⟩ := hs.records
  have hi : i.file.startPage = f := by
    rw [← hs.file, hl]
  obtain ⟨t', hq, ht⟩ := hk s.logFs h i hi hs.own hs (getLogFs_bind.mp hp)
  refine ⟨t', getLogFs_bind.mpr ?_, ht⟩
  rwa [hl]

theorem follows_getLogFs {k : LogFs → SysM β}
    (hk : ∀ l h i, i.file.startPage = f → (own → l.fileInfo.file.startPage = f) →
      Simulates (Alike f own) (Alike f own) (k l) (k { l with pageHeader := h, fileInfo := i })) :
    Follows f own (getLogFs >>= k) := simulates_getLogFs hk

theorem follows_setLogFs {g : LogFs → LogFs}
    (hg : ∀ l h i, g { l with pageHeader := h, fileInfo := i } = { g l with pageHeader := h, fileInfo := i })
    (hi : ∀ l, (g l).fileInfo = l.fileInfo) : Follows f own (setLogFs g) := by
  apply simulates_modify
  intro s s' hs
  obtain ⟨h, i, hl⟩ := hs.records
  refine ⟨hs.flash, ⟨h, i, ?_⟩, ?_, fun ho => ?_⟩
  · rw [hl]
    exact hg _ _ _
  · exact (congrArg (fun i => i.file.startPage) (hi s'.logFs)).trans hs.file
  · exact (congrArg (fun i => i.file.startPage) (hi s.logFs)).trans (hs.own ho)

theorem follows_setLogFs_bind {g : LogFs → LogFs} {k : Unit → SysM β} (hk : Follows f own (k ()))
    (hg : ∀ l h i, g { l with pageHeader := h, fileInfo := i } = { g l with pageHeader := h, fileInfo := i })
    (hi : ∀ l, (g l).fileInfo = l.fileInfo) : Follows f own (setLogFs g >>= k) :=
  (follows_setLogFs hg hi).bind fun _ => hk

theorem follows_setHeader {h : LogFsPageHeader} :
    Follows f own (setLogFs fun l => { l with pageHeader := h }) := by
  apply simulates_modify
  intro s s' hs
  obtain ⟨h', i, hl⟩ := hs.records
  refine ⟨hs.flash, ⟨h, i, ?_⟩, hs.file, hs.own⟩
  change ({ s'.logFs with pageHeader := h } : LogFs) = _
  rw [hl]

theorem follows_rd {k : List UInt8 → SysM β} (hk : ∀ l, Follows f own (k l)) :
    Follows f own (at45dRdPageOffset page offset n >>= k) := by
  intro s s' b t hs hp
  obtain ⟨t', hq, ht⟩ := hk _ hs (at45dRd_bind.mp hp)
  refine ⟨t', at45dRd_bind.mpr ?_, ht⟩
  rwa [hs.flash]

theorem Alike.putFlash {s s' : Sys} {g g' : Pages} (hs : Alike f own s s') (hg : g' = g) :
    Alike f own (s.putFlash g) (s'.putFlash g') := ⟨hg, hs.records, hs.file, hs.own⟩

theorem follows_wr {data : List UInt8} : Follows f own (at45dWrPageOffset data page offset) := by
  apply simulates_modify
  intro s s' hs
  exact hs.putFlash (by rw [hs.flash])

theorem follows_erase : Follows f own (at45dErasePage page) := by
  apply simulates_modify
  intro s s' hs
  exact hs.putFlash (by rw [hs.flash])

theorem follows_assert : Follows f own (dbgAssertPage c page) := simulates_check

end rules

section pages

theorem follows_pageNext : Follows f own (logFsPageNext c page) := Follows.bind follows_assert fun _ => follows_pure

theorem follows_pagePrevious : Follows f own (logFsPagePrevious c page) :=
  Follows.bind follows_assert fun _ => follows_pure

theorem follows_markerRd : Follows f own (logFsMarkerRd page offset) := by
  apply follows_rd
  intro l
  apply follows_ite follows_pure
  exact Follows.bind follows_wr fun _ => follows_pure

theorem follows_markerWr : Follows f own (logFsMarkerWr m page offset) := by
  apply Follows.bind follows_wr
  intro _
  apply Follows.bind follows_markerRd
  intro _
  apply follows_ite _ follows_pure
  exact Follows.bind follows_wr fun _ => follows_pure

theorem follows_pageHeaderRd : Follows f own (logFsPageHeaderRd page) := by
  apply Follows.bind follows_markerRd
  intro marker
  apply follows_ite follows_pure
  apply follows_rd
  intro l
  apply Follows.bind follows_setHeader
  intro _
  apply follows_ite _ follows_pure
  exact Follows.bind follows_markerWr fun _ => follows_pure

theorem AlikeHeader.sealed {s s' : Sys} (hs : AlikeHeader f own s s') :
    ({ s'.logFs.pageHeader with crc := logFsCrcPageHeader s'.logFs.pageHeader } : LogFsPageHeader) =
      { s.logFs.pageHeader with crc := logFsCrcPageHeader s.logFs.pageHeader } := by
  obtain ⟨-, hm, hn⟩ := hs
  simp [logFsCrcPageHeader, LogFsPageHeader.body, hm, hn]

theorem simulates_pageHeaderWr : Simulates (AlikeHeader f own) (Alike f own) (logFsPageHeaderWr page)
    (logFsPageHeaderWr page) := by
  intro s s' b t hs hp
  let header : LogFsPageHeader :=
    { s.logFs.pageHeader with crc := logFsCrcPageHeader s.logFs.pageHeader }
  -- from here on the header is the same in both runs
  have rest : Follows f own (do
      at45dWrPageOffset header.toBytes page 0
      let pageHeaderRd ← at45dRdPageOffset page 0 pageHeaderSize
      if pageHeaderRd = header.toBytes then
        return true
      else
        let _ ← logFsMarkerWr logFsMarkerBad page 0
        return false) := by
    apply Follows.bind follows_wr
    intro _
    apply follows_rd
    intro l
    apply follows_ite follows_pure
    exact Follows.bind follows_markerWr fun _ => follows_pure
  obtain ⟨h, i, hl⟩ := hs.1.records
  have hset : Alike f own { s with logFs := { s.logFs with pageHeader := header } }
      { s' with logFs := { s'.logFs with pageHeader := header } } := by
    refine ⟨hs.1.flash, ⟨header, i, ?_⟩, hs.1.file, hs.1.own⟩
    change ({ s'.logFs with pageHeader := header } : LogFs) = _
    rw [hl]
  simp only [logFsPageHeaderWr, setLogFs_bind, getLogFs_bind] at hp ⊢
  rw [hs.sealed]
  exact rest hset hp

theorem follows_recordBlockRd : Follows f own (logFsRecordBlockRd c page offset) := by
  apply Follows.bind follows_markerRd
  intro _
  apply follows_ite follows_pure
  apply follows_rd
  intro l
  refine follows_setLogFs_bind ?_ (fun _ _ _ => rfl) fun _ => rfl
  apply follows_ite _ follows_pure
  exact Follows.bind follows_markerWr fun _ => follows_pure

theorem follows_recordBlockWr : Follows f own (logFsRecordBlockWr c page offset) := by
  apply follows_ite follows_pure
  refine follows_setLogFs_bind ?_ (fun _ _ _ => rfl) fun _ => rfl
  apply follows_getLogFs
  intro l h i _ _
  apply Follows.bind follows_wr
  intro _
  apply follows_rd
  intro bytes
  apply follows_ite _ follows_pure
  exact Follows.bind follows_markerWr fun _ => follows_pure

theorem follows_findNext {start stop current : ℕ} :
    Follows f own (logFsPageHeaderFindNext c m start stop current) := by
  apply Follows.bind follows_assert
  intro _
  apply Follows.bind follows_assert
  intro _
  apply Follows.bind follows_assert
  intro _
  apply follows_loop
  intro page
  have look : ∀ page : ℕ, Follows f own (do
      if page = current then
        return .inr logFsPageInvalid
      else if (← logFsPageHeaderRd page) = m then
        return .inr page
      else
        return .inl page : SysM (ℕ ⊕ ℕ)) := by
    intro page
    apply follows_ite follows_pure
    apply Follows.bind follows_pageHeaderRd
    intro _
    exact follows_ite follows_pure follows_pure
  apply follows_ite
  · exact Follows.bind follows_pure look
  · exact Follows.bind follows_pageNext look

end pages

section bounds

variable (ho : own)

include ho in
theorem follows_boundStart : Follows f own (logFsRecordPagesBoundStart c) := by
  apply follows_getLogFs
  intro l h i hi hl
  simp only [hi, hl ho]
  exact follows_pageNext

include ho in
theorem follows_boundEnd : Follows f own (logFsRecordPagesBoundEnd c) := by
  apply follows_getLogFs
  intro l h i hi hl
  simp only [hi, hl ho]
  apply follows_ite follows_pure
  exact follows_pagePrevious

include ho in
theorem follows_isBoundPage : Follows f own (isBoundPage c page) := by
  apply (follows_boundEnd ho).bind
  intro _
  apply Follows.bind follows_pageNext
  intro _
  exact follows_pure

include ho in
theorem follows_circularPage : Follows f own (circularPage c page) := by
  apply (follows_isBoundPage ho).bind
  intro _
  apply follows_ite (follows_boundStart ho)
  apply Follows.bind follows_markerRd
  intro _
  exact follows_ite (follows_boundStart ho) follows_pure

end bounds

section records

variable {adr : LogFsAdr}

theorem follows_nextRecordPage (ho : c.type = .circular → own) : Follows f own (nextRecordPage c page) := by
  apply follows_loop
  intro page
  unfold nextRecordPageRound
  cases ht : c.type with
  | linear =>
    apply Follows.bind follows_pageNext
    intro page
    apply follows_getLogFs
    intro l h i _ _
    apply follows_ite
    · refine follows_setLogFs_bind ?_ (fun _ _ _ => rfl) fun _ => rfl
      exact follows_pure
    · apply Follows.bind follows_pageHeaderRd
      intro marker
      apply follows_ite follows_pure
      exact follows_ite follows_pure follows_pure
  | circular =>
    have look : ∀ page : ℕ, Follows f own (do
        if (⟨page, recOffsetFirst⟩ : LogFsAdr) = (← getLogFs).recAdrWr then
          return .inr none
        else if (← logFsPageHeaderRd page) ≠ logFsMarkerRecord then
          return .inl page
        else
          return .inr (some page) : SysM (ℕ ⊕ Option ℕ)) := by
      intro page
      apply follows_getLogFs
      intro l h i _ _
      apply follows_ite follows_pure
      apply Follows.bind follows_pageHeaderRd
      intro marker
      exact follows_ite follows_pure follows_pure
    apply (follows_boundEnd (ho ht)).bind
    intro stop
    apply follows_ite
    · exact (follows_boundStart (ho ht)).bind look
    · exact Follows.bind follows_pageNext look

theorem follows_readFound : Follows f own (readFound adr n) := by
  refine follows_setLogFs_bind ?_ (fun _ _ _ => rfl) fun _ => rfl
  apply follows_getLogFs
  intro l h i _ _
  exact follows_pure

theorem follows_nextRecordAdr (ho : c.type = .circular → own) :
    Follows f own (nextRecordAdr c page offset) := by
  apply follows_ite _ follows_pure
  exact (follows_nextRecordPage ho).bind fun _ => follows_pure

theorem follows_rdNext (ho : c.type = .circular → own) : Follows f own (logFsRecordRdNext c n) := by
  apply follows_getLogFs
  intro l h i _ _
  apply follows_loop
  intro adr
  apply (follows_nextRecordAdr ho).bind
  intro next
  cases next with
  | none => exact follows_pure
  | some adr =>
    apply follows_getLogFs
    intro l h i _ _
    apply follows_ite follows_pure
    apply Follows.bind follows_recordBlockRd
    intro found
    apply follows_ite _ follows_pure
    exact Follows.bind follows_readFound fun _ => follows_pure

theorem follows_rdFirst (ho : c.type = .circular → own) : Follows f own (logFsRecordRdFirst c n) := by
  apply follows_getLogFs
  intro l h i _ _
  apply follows_ite follows_pure
  apply Follows.bind follows_pagePrevious
  intro page
  refine follows_setLogFs_bind ?_ (fun _ _ _ => rfl) fun _ => rfl
  exact follows_rdNext ho

theorem follows_previousRecordPage (ho : own) : Follows f own (previousRecordPage c page) := by
  apply follows_loop
  intro page
  unfold previousRecordPageRound
  cases ht : c.type with
  | linear =>
    apply Follows.bind follows_pagePrevious
    intro page
    apply follows_getLogFs
    intro l h i hi hl
    simp only [hi, hl ho]
    apply follows_ite follows_pure
    apply Follows.bind follows_pageHeaderRd
    intro marker
    exact follows_ite follows_pure follows_pure
  | circular =>
    have look : ∀ page : ℕ, Follows f own (do
        if page = (← getLogFs).recAdrWr.page then
          return .inr none
        else if (← logFsPageHeaderRd page) ≠ logFsMarkerRecord then
          return .inl page
        else
          return .inr (some page) : SysM (ℕ ⊕ Option ℕ)) := by
      intro page
      apply follows_getLogFs
      intro l h i _ _
      apply follows_ite follows_pure
      apply Follows.bind follows_pageHeaderRd
      intro marker
      exact follows_ite follows_pure follows_pure
    apply (follows_boundStart ho).bind
    intro start
    apply follows_ite
    · exact (follows_boundEnd ho).bind look
    · exact Follows.bind follows_pagePrevious look

theorem follows_rdPrevious (ho : own) : Follows f own (logFsRecordRdPrevious c n) := by
  apply follows_getLogFs
  intro l h i _ _
  apply follows_loop
  intro adr
  have hadr : Follows f own (previousRecordAdr c adr.page adr.offset) := by
    apply follows_ite _ follows_pure
    exact (follows_previousRecordPage ho).bind fun _ => follows_pure
  apply hadr.bind
  intro next
  cases next with
  | none => exact follows_pure
  | some adr =>
    apply Follows.bind follows_recordBlockRd
    intro found
    apply follows_ite _ follows_pure
    exact Follows.bind follows_readFound fun _ => follows_pure

theorem follows_rdLast (ho : own) : Follows f own (logFsRecordRdLast c n) := by
  apply follows_getLogFs
  intro l h i _ _
  apply follows_ite follows_pure
  refine follows_setLogFs_bind ?_ (fun _ _ _ => rfl) fun _ => rfl
  exact follows_rdPrevious ho

theorem follows_recPageFirstErased (ho : own) : Follows f own (recPageFirstErased c page) := by
  apply follows_getLogFs
  intro l h i _ _
  apply follows_ite _ follows_pure
  apply (follows_boundStart ho).bind
  intro start
  apply (follows_boundEnd ho).bind
  intro stop
  apply Follows.bind follows_findNext
  intro next
  exact follows_setLogFs (fun _ _ _ => rfl) fun _ => rfl

theorem follows_recordHeaderFailed (ho : own) : Follows f own (recordHeaderFailed c page) := by
  apply Follows.bind follows_pageNext
  intro page
  apply Follows.bind follows_markerRd
  intro marker
  cases c.type with
  | linear =>
    have rest : ∀ reached : Bool, Follows f own (if reached then pure .full
        else do
          at45dErasePage page
          setLogFs fun l => { l with recAdrWr := { l.recAdrWr with page := page } }
          return .writeFail : SysM LogFsErr) := by
      intro reached
      apply follows_ite follows_pure
      apply Follows.bind follows_erase
      intro _
      refine follows_setLogFs_bind ?_ (fun _ _ _ => rfl) fun _ => rfl
      exact follows_pure
    apply follows_ite
    · exact Follows.bind follows_pure rest
    · exact (follows_isBoundPage ho).bind rest
  | circular =>
    have moved : ∀ page, Follows f own (do
        at45dErasePage page
        setLogFs fun l => { l with recAdrWr := { l.recAdrWr with page := page } }
        recPageFirstErased c page
        return .writeFail : SysM LogFsErr) := by
      intro page
      apply Follows.bind follows_erase
      intro _
      refine follows_setLogFs_bind ?_ (fun _ _ _ => rfl) fun _ => rfl
      exact (follows_recPageFirstErased ho).bind fun _ => follows_pure
    have rest : ∀ reached : Bool, Follows f own (do
        let page ← if reached then logFsRecordPagesBoundStart c else pure page
        at45dErasePage page
        setLogFs fun l => { l with recAdrWr := { l.recAdrWr with page := page } }
        recPageFirstErased c page
        return .writeFail : SysM LogFsErr) := by
      intro reached
      apply follows_ite
      · exact (follows_boundStart ho).bind moved
      · exact Follows.bind follows_pure moved
    apply follows_ite
    · exact Follows.bind follows_pure rest
    · exact (follows_isBoundPage ho).bind rest

theorem follows_recordPageStart (ho : own) : Follows f own (recordPageStart c page) := by
  apply Follows.bind follows_markerRd
  intro marker
  -- the header that is written is the same in both runs
  have header : Follows f own (do
      setLogFs fun l => { l with
        pageHeader := { l.pageHeader with marker := logFsMarkerRecord, nr := l.recPageNrNext } }
      if !(← logFsPageHeaderWr page) then
        return some (← recordHeaderFailed c page)
      else
        setLogFs fun l => { l with
          recPageNrNext := (l.recPageNrNext + 1) % 0x10000
          recPageLast := page
          recPageFirst := if l.recPageFirst = logFsPageInvalid then page else l.recPageFirst }
        return none) := by
    have first : Simulates (Alike f own) (AlikeHeader f own)
        (setLogFs fun l => { l with
          pageHeader := { l.pageHeader with marker := logFsMarkerRecord, nr := l.recPageNrNext } })
        (setLogFs fun l => { l with
          pageHeader := { l.pageHeader with marker := logFsMarkerRecord, nr := l.recPageNrNext } }) := by
      apply simulates_modify
      intro s s' hs
      obtain ⟨h, i, hl⟩ := hs.records
      refine ⟨⟨hs.flash, ⟨?_, i, ?_⟩, hs.file, hs.own⟩, rfl, ?_⟩
      · exact { h with marker := logFsMarkerRecord, nr := s.logFs.recPageNrNext }
      · simp only [hl]
      · simp only [hl]
    apply simulates_bind first
    intro _
    apply simulates_bind simulates_pageHeaderWr
    intro written
    apply follows_ite
    · exact (follows_recordHeaderFailed ho).bind fun _ => follows_pure
    · refine follows_setLogFs_bind ?_ (fun _ _ _ => rfl) fun _ => rfl
      exact follows_pure
  have rest : ∀ full : Bool, Follows f own (if full then pure (some .full) else do
      if marker = logFsMarkerBad then
        at45dErasePage page
      setLogFs fun l => { l with
        pageHeader := { l.pageHeader with marker := logFsMarkerRecord, nr := l.recPageNrNext } }
      if !(← logFsPageHeaderWr page) then
        return some (← recordHeaderFailed c page)
      else
        setLogFs fun l => { l with
          recPageNrNext := (l.recPageNrNext + 1) % 0x10000
          recPageLast := page
          recPageFirst := if l.recPageFirst = logFsPageInvalid then page else l.recPageFirst }
        return none) := by
    intro full
    apply follows_ite follows_pure
    exact follows_ite (Follows.bind follows_erase fun _ => header) header
  cases c.type with
  | linear =>
    apply follows_ite
    · exact Follows.bind follows_pure rest
    · exact (follows_isBoundPage ho).bind rest
  | circular => exact Follows.bind follows_pure rest

theorem follows_recordAdvance (ho : offset = c.recOffsetLast → own) :
    Follows f own (recordAdvance c page offset) := by
  unfold recordAdvance
  by_cases hlast : offset = c.recOffsetLast
  · rw [if_pos hlast]
    apply Follows.bind follows_pageNext
    intro page
    have moved : ∀ page : ℕ, Follows f own (setLogFs fun l => { l with recAdrWr := ⟨page, recOffsetFirst⟩ }) :=
      fun page => follows_setLogFs (fun _ _ _ => rfl) fun _ => rfl
    cases c.type with
    | linear =>
      apply (follows_isBoundPage (ho hlast)).bind
      intro bound
      apply follows_ite
      · apply Follows.bind follows_markerRd
        intro marker
        apply follows_ite
        · exact Follows.bind follows_erase fun _ => moved page
        · exact moved page
      · exact moved page
    | circular =>
      apply (follows_circularPage (ho hlast)).bind
      intro page
      apply Follows.bind follows_erase
      intro _
      apply (follows_recPageFirstErased (ho hlast)).bind
      intro _
      exact moved page
  · rw [if_neg hlast]
    exact follows_setLogFs (fun _ _ _ => rfl) fun _ => rfl

theorem follows_recordWritten {adr : LogFsAdr} {data : List UInt8} (ho : adr.offset = c.recOffsetLast → own) :
    Follows f own (do
      setLogFs fun l => { l with
        recordBlock := { l.recordBlock with data := recordData c.recDataSize data } }
      let success ← logFsRecordBlockWr c adr.page adr.offset
      recordAdvance c adr.page adr.offset
      return if success then .none else .writeFail : SysM LogFsErr) := by
  refine follows_setLogFs_bind ?_ (fun _ _ _ => rfl) fun _ => rfl
  apply Follows.bind follows_recordBlockWr
  intro success
  apply (follows_recordAdvance ho).bind
  intro _
  exact follows_pure

end records

end Lpc1788Libraries.DataManager

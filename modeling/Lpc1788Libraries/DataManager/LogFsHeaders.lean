import Lpc1788Libraries.DataManager.LogFsBounds

namespace Lpc1788Libraries.DataManager

open Lpc1788Libraries.Support NorFlash BoundedProgram

variable {c : LogFsCfg} {s t : Sys} {f g : Pages} {page p q offset k n nr : ℕ} {m m' : UInt8}

/-- A page that the search for FILE or RECORD pages finds. -/
def Found (f : Pages) (m : UInt8) (page : ℕ) : Prop :=
  (m = logFsMarkerFile ∨ m = logFsMarkerRecord) ∧ ∃ nr, HeaderAt f page m nr

/-- The same pages are found, with the same numbers. -/
def SameHeaders (s t : Sys) : Prop :=
  ∀ m q nr, m = logFsMarkerFile ∨ m = logFsMarkerRecord → (HeaderAt s.flash q m nr ↔ HeaderAt t.flash q m nr)

instance : Std.Refl SameHeaders := ⟨fun _ _ _ _ _ => Iff.rfl⟩

instance : IsTrans Sys SameHeaders := ⟨fun _ _ _ h h' m q nr hm => (h m q nr hm).trans (h' m q nr hm)⟩

theorem SameHeaders.of_flash (h : t.flash = s.flash) : SameHeaders s t := by
  intro m q nr _
  rw [h]

theorem SameHeaders.found (h : SameHeaders s t) : Found s.flash m q ↔ Found t.flash m q := by
  constructor
  · rintro ⟨hm, nr, hq⟩
    exact ⟨hm, nr, (h m q nr hm).mp hq⟩
  · rintro ⟨hm, nr, hq⟩
    exact ⟨hm, nr, (h m q nr hm).mpr hq⟩

theorem Found.marker_eq (h : Found f m page) : f page 0 = m := by
  obtain ⟨-, nr, hh⟩ := h
  exact hh.marker_eq

theorem Found.valid (h : Found f m page) : validMarker (f page 0) ∧ f page 0 ≠ logFsMarkerFree ∧
    f page 0 ≠ logFsMarkerBad := by
  rw [h.marker_eq]
  rcases h.1 with rfl | rfl <;> decide

theorem HeaderAt.congr (h : HeaderAt f page m nr) (hfg : ∀ i < pageHeaderSize, f page i = g page i) :
    HeaderAt g page m nr := by
  refine ⟨h.1, ?_⟩
  rw [← h.2]
  apply read_congr
  intro k hk
  rw [Nat.zero_add]
  exact (hfg k hk).symm

theorem HeaderAt.unique (h : HeaderAt f page m nr) (h' : HeaderAt f page m' n) : m = m' ∧ nr = n := by
  have heq : sealedHeader m nr = sealedHeader m' n := h.ofBytes.symm.trans h'.ofBytes
  exact ⟨congrArg LogFsPageHeader.marker heq, congrArg LogFsPageHeader.nr heq⟩

theorem u16_of_bytes (lo hi : UInt8) : u16Lo (u16Of lo hi) = lo ∧ u16Hi (u16Of lo hi) = hi := by
  have h1 := lo.toNat_lt
  have h2 := hi.toNat_lt
  constructor
  · apply UInt8.toNat_inj.mp
    simp only [u16Lo, u16Of, UInt8.toNat_ofNat']
    omega
  · apply UInt8.toNat_inj.mp
    simp only [u16Hi, u16Of, UInt8.toNat_ofNat']
    omega

theorem LogFsPageHeader.toBytes_ofBytes {b : List UInt8} (h : b.length = pageHeaderSize) :
    (LogFsPageHeader.ofBytes b).toBytes = b := by
  obtain ⟨x, y, z, w, rfl⟩ : ∃ x y z w, b = [x, y, z, w] := by
    match b, h with
    | [x, y, z, w], _ => exact ⟨x, y, z, w, rfl⟩
  simp [LogFsPageHeader.ofBytes, LogFsPageHeader.toBytes, LogFsPageHeader.body, (u16_of_bytes y z).1,
    (u16_of_bytes y z).2]

theorem sameHeaders_of (h : ∀ q, (∀ i < pageHeaderSize, s.flash q i = t.flash q i) ∨
    (∀ m, ¬ Found s.flash m q) ∧ ∀ m, ¬ Found t.flash m q) : SameHeaders s t := by
  intro m q nr hm
  rcases h q with hb | ⟨hs, ht⟩
  · constructor
    · exact fun hq => hq.congr hb
    · exact fun hq => hq.congr fun i hi => (hb i hi).symm
  · constructor
    · exact fun hq => absurd ⟨hm, nr, hq⟩ (hs m)
    · exact fun hq => absurd ⟨hm, nr, hq⟩ (ht m)

theorem not_found_of_bad (h : f page 0 = logFsMarkerBad) : ¬ Found f m page := fun hf => hf.valid.2.2 h

theorem program_bad : f.program page 0 [logFsMarkerBad] page 0 = logFsMarkerBad := by
  simp [program_same, Pages.mask, logFsMarkerBad]

theorem program_bad_header (h : ¬ validMarker (f page 0)) (q : ℕ) :
    (∀ i < pageHeaderSize, f q i = f.program page 0 [logFsMarkerBad] q i) ∨
      (∀ m, ¬ Found f m q) ∧ ∀ m, ¬ Found (f.program page 0 [logFsMarkerBad]) m q := by
  by_cases hq : q = page
  · subst hq
    right
    constructor
    · exact fun m hf => h hf.valid.1
    · exact fun m => not_found_of_bad program_bad
  · left
    exact fun i _ => (program_other hq).symm

theorem markerRd_sameHeaders (ho : offset = 0 ∨ pageHeaderSize ≤ offset) :
    (logFsMarkerRd page offset).Within SameHeaders := by
  intro s m t hr
  simp only [logFsMarkerRd, at45dRd_bind] at hr
  have hread : (s.flash.read page offset 1).getD 0 0 = s.flash page offset := by simp [Pages.read]
  rw [hread] at hr
  split at hr
  · obtain ⟨-, rfl⟩ := Prog.returns_pure.mp hr
    exact Std.Refl.refl s
  · rename_i hv
    simp only [at45dWr_bind] at hr
    obtain ⟨-, rfl⟩ := Prog.returns_pure.mp hr
    apply sameHeaders_of
    intro q
    rcases ho with rfl | ho
    · exact program_bad_header hv q
    · left
      exact fun i hi => (program_outside (.inl (by omega))).symm

theorem at45dWr_sameHeaders {data : List UInt8} (ho : pageHeaderSize ≤ offset) :
    (at45dWrPageOffset data page offset).Within SameHeaders := by
  apply Prog.within_modify
  intro s
  apply sameHeaders_of
  intro q
  left
  exact fun i hi => (program_outside (.inl (by omega))).symm

theorem markerWr_sameHeaders (ho : pageHeaderSize ≤ offset) :
    (logFsMarkerWr m page offset).Within SameHeaders := by
  apply Prog.within_bind (at45dWr_sameHeaders ho)
  intro _
  apply Prog.within_bind (markerRd_sameHeaders (.inr ho))
  intro _
  refine Prog.within_ite ?_ Prog.within_pure
  exact Prog.within_bind (at45dWr_sameHeaders ho) fun _ => Prog.within_pure

theorem setLogFs_sameHeaders {g : LogFs → LogFs} : (setLogFs g).Within SameHeaders :=
  Prog.within_modify fun _ => SameHeaders.of_flash rfl

theorem recordBlockRd_sameHeaders (ho : pageHeaderSize ≤ offset) :
    (logFsRecordBlockRd c page offset).Within SameHeaders := by
  apply Prog.within_bind (markerRd_sameHeaders (.inr ho))
  intro _
  refine Prog.within_ite Prog.within_pure ?_
  apply within_at45dRd
  intro l
  apply Prog.within_bind setLogFs_sameHeaders
  intro _
  refine Prog.within_ite ?_ Prog.within_pure
  exact Prog.within_bind (markerWr_sameHeaders ho) fun _ => Prog.within_pure

theorem markerWr_terminates (page offset : ℕ) (s : Sys) : (logFsMarkerWr m page offset).Terminates s := by
  unfold logFsMarkerWr
  obtain ⟨m', t, hr⟩ := markerRd_terminates page offset (s.putFlash (s.flash.program page offset [m]))
  by_cases hm : m' ≠ m
  · refine ⟨false, t.putFlash (t.flash.program page offset [logFsMarkerBad]), ?_⟩
    simp only [at45dWr_bind]
    apply hr.bind
    rw [if_pos hm]
    simp
  · refine ⟨true, t, ?_⟩
    simp only [at45dWr_bind]
    apply hr.bind
    rw [if_neg hm]
    simp

/-- The header that a page holds, whether it is valid or not. -/
def Sys.headerRd (s : Sys) (page : ℕ) : LogFsPageHeader := .ofBytes (s.flash.read page 0 pageHeaderSize)

theorem pageHeaderRd_mismatch (hv : validMarker (s.flash page 0))
    (hm : ¬(s.flash page 0 = logFsMarkerFree ∨ s.flash page 0 = logFsMarkerBad))
    (hcrc : logFsCrcPageHeader (s.headerRd page) ≠ (s.headerRd page).crc) :
    (logFsPageHeaderRd page).Returns s logFsMarkerBad
      ((s.setHeader (s.headerRd page)).putFlash (s.flash.program page 0 [logFsMarkerBad])) := by
  have hbad : (logFsMarkerWr logFsMarkerBad page 0).Returns (s.setHeader (s.headerRd page)) true
      ((s.setHeader (s.headerRd page)).putFlash (s.flash.program page 0 [logFsMarkerBad])) :=
    markerWr_bad_returns
  unfold logFsPageHeaderRd
  apply (markerRd_returns hv).bind
  rw [if_neg hm]
  simp only [at45dRd_bind, setLogFs_bind]
  rw [← Sys.headerRd, if_pos hcrc]
  apply hbad.bind
  exact Prog.returns_pure.mpr ⟨rfl, rfl⟩

/-- What reading a page header can answer: it finds a FILE or a RECORD page and leaves the flash
alone, or it finds none there. -/
theorem pageHeaderRd_cases (page : ℕ) (s : Sys) :
    (∃ m nr, (m = logFsMarkerFile ∨ m = logFsMarkerRecord) ∧ HeaderAt s.flash page m nr ∧
      (logFsPageHeaderRd page).Returns s m (s.setHeader (sealedHeader m nr))) ∨
    (∃ m t, (m = logFsMarkerFree ∨ m = logFsMarkerBad) ∧ (logFsPageHeaderRd page).Returns s m t ∧
      (∀ m', ¬ Found s.flash m' page) ∧ SameHeaders s t) := by
  have other : ∀ m nr, HeaderAt s.flash page m nr → m = s.flash page 0 := fun m nr h => h.marker_eq.symm
  by_cases hv : validMarker (s.flash page 0)
  · have hrd := markerRd_returns hv
    by_cases hm : s.flash page 0 = logFsMarkerFree ∨ s.flash page 0 = logFsMarkerBad
    · right
      refine ⟨_, s, hm, ?_, ?_, Std.Refl.refl s⟩
      · unfold logFsPageHeaderRd
        apply hrd.bind
        rw [if_pos hm]
        exact Prog.returns_pure.mpr ⟨rfl, rfl⟩
      · rintro m' ⟨hm', nr, hh⟩
        rw [← other _ _ hh] at hm
        rcases hm' with rfl | rfl <;> rcases hm with h | h <;> exact absurd h (by decide)
    · let header := s.headerRd page
      have hmarker : header.marker = s.flash page 0 := by
        simp [header, Sys.headerRd, LogFsPageHeader.ofBytes, Pages.read, pageHeaderSize]
      by_cases hcrc : logFsCrcPageHeader header ≠ header.crc
      · right
        have hno : ∀ m', ¬ Found s.flash m' page := by
          rintro m' ⟨-, nr, hh⟩
          apply hcrc
          have heq : header = sealedHeader m' nr := hh.ofBytes
          rw [heq]
          simp [sealedHeader, logFsCrcPageHeader, LogFsPageHeader.body]
        refine ⟨logFsMarkerBad, _, .inr rfl, pageHeaderRd_mismatch hv hm hcrc, hno, ?_⟩
        apply sameHeaders_of
        intro q
        by_cases hq : q = page
        · subst hq
          exact .inr ⟨hno, fun m => not_found_of_bad program_bad⟩
        · exact .inl fun i _ => (program_other hq).symm
      · left
        rw [not_not] at hcrc
        have hnr : header.nr < 0x10000 := u16Of_lt _ _
        have hsealed : sealedHeader header.marker header.nr = header := by
          have : logFsCrcPageHeader ⟨header.marker, header.nr, 0⟩ = header.crc := by
            rw [← hcrc]
            rfl
          unfold sealedHeader
          rw [this]
        have hh : HeaderAt s.flash page header.marker header.nr := by
          refine ⟨hnr, ?_⟩
          rw [hsealed]
          exact (LogFsPageHeader.toBytes_ofBytes length_read).symm
        have hkind : header.marker = logFsMarkerFile ∨ header.marker = logFsMarkerRecord := by
          rw [hmarker]
          rcases hv with h | h | h | h
          · exact absurd (.inl h) hm
          · exact .inl h
          · exact .inr h
          · exact absurd (.inr h) hm
        refine ⟨header.marker, header.nr, hkind, hh, hh.pageHeaderRd ?_ ?_ ?_⟩
        · rcases hkind with h | h <;> rw [h] <;> decide
        · rcases hkind with h | h <;> rw [h] <;> decide
        · rcases hkind with h | h <;> rw [h] <;> decide
  · right
    refine ⟨logFsMarkerBad, s.putFlash (s.flash.program page 0 [logFsMarkerBad]), .inr rfl, ?_, ?_, ?_⟩
    · unfold logFsPageHeaderRd
      apply (markerRd_invalid hv).bind
      rw [if_pos (.inr rfl)]
      exact Prog.returns_pure.mpr ⟨rfl, rfl⟩
    · rintro m' ⟨hm', nr, hh⟩
      apply hv
      rw [hh.marker_eq]
      rcases hm' with rfl | rfl <;> decide
    · exact sameHeaders_of (program_bad_header hv)

theorem pageHeaderRd_terminates (page : ℕ) (s : Sys) : (logFsPageHeaderRd page).Terminates s := by
  rcases pageHeaderRd_cases page s with ⟨m, nr, -, -, hr⟩ | ⟨m, t, -, hr, -⟩
  · exact hr.terminates
  · exact hr.terminates

theorem pageHeaderRd_sameHeaders : (logFsPageHeaderRd page).Within SameHeaders := by
  intro s m t hr
  rcases pageHeaderRd_cases page s with ⟨m₁, nr, -, -, h₁⟩ | ⟨m₁, t₁, -, h₁, -, hsame⟩
  · obtain ⟨-, rfl⟩ := hr.unique h₁
    exact SameHeaders.of_flash rfl
  · obtain ⟨-, rfl⟩ := hr.unique h₁
    exact hsame

theorem pageHeaderRd_found (hm : m = logFsMarkerFile ∨ m = logFsMarkerRecord)
    (hr : (logFsPageHeaderRd page).Returns s m t) : Found t.flash m page := by
  rcases pageHeaderRd_cases page s with ⟨m₁, nr, hk, hh, h₁⟩ | ⟨m₁, t₁, hk, h₁, -⟩
  · obtain ⟨rfl, rfl⟩ := hr.unique h₁
    exact ⟨hk, nr, hh⟩
  · obtain ⟨rfl, -⟩ := hr.unique h₁
    rcases hm with rfl | rfl <;> rcases hk with h | h <;> exact absurd h (by decide)

theorem Found.pageHeaderRd (h : Found s.flash m page) :
    ∃ nr, (logFsPageHeaderRd page).Returns s m (s.setHeader (sealedHeader m nr)) := by
  obtain ⟨hm, nr, hh⟩ := h
  refine ⟨nr, hh.pageHeaderRd ?_ ?_ ?_⟩ <;> rcases hm with rfl | rfl <;> decide

end Lpc1788Libraries.DataManager

import Lpc1788Libraries.DataManager.LogFsOpenFile

namespace Lpc1788Libraries.DataManager

open Lpc1788Libraries.Support NorFlash BoundedProgram

variable (c : LogFsCfg)

/-- A read from byte `i` of a page on, that runs on in the next page. -/
def readThrough (f : Pages) : ℕ → ℕ → ℕ → List UInt8
  | _, _, 0 => []
  | page, i, n + 1 =>
    f page i :: if i + 1 < c.pageSize then readThrough f page (i + 1) n else readThrough f (page + 1) 0 n

/-- `at45d_wr_page_offset` for any place; the driver stops at the end of the page. -/
def at45dWrInPage (data : List UInt8) (page startByteInPage : ℕ) : SysM Unit :=
  at45dWrPageOffset (data.take (c.pageSize - startByteInPage)) page startByteInPage

def at45dRdThrough (page startByteInPage nrOfBytes : ℕ) : SysM (List UInt8) := do
  return readThrough c (← Prog.get).flash page startByteInPage nrOfBytes

def logFsFileAttrDataSize : ℕ := c.pageSize - fileInfoSize

/-- The place in the page, as the `u16_t` that the driver takes. -/
def attrStart (offset : ℕ) : ℕ := (pageHeaderSize + fileInfoSize + offset) % 0x10000

def attrClip (offset nrOfBytes : ℕ) : ℕ :=
  if logFsFileAttrDataSize c - offset < nrOfBytes then logFsFileAttrDataSize c - offset else nrOfBytes

def logFsFileAttrDataWr (offset : ℕ) (data : List UInt8) : SysM ℕ := do
  if logFsFileAttrDataSize c ≤ offset then
    return 0
  else
    let nrOfBytes := attrClip c offset data.length
    at45dWrInPage c (data.take nrOfBytes) (← getLogFs).fileInfo.file.startPage (attrStart offset)
    return nrOfBytes

/-- The bytes that `log_fs_file_attr_data_rd` stores, and the count it returns. -/
def logFsFileAttrDataRd (offset nrOfBytes : ℕ) : SysM (ℕ × List UInt8) := do
  if logFsFileAttrDataSize c ≤ offset then
    return (0, [])
  else
    let nrOfBytes := attrClip c offset nrOfBytes
    let bytes ← at45dRdThrough c (← getLogFs).fileInfo.file.startPage (attrStart offset) nrOfBytes
    return (nrOfBytes, bytes)

variable {c} {s t : Sys} {f : Pages} {page offset i n : ℕ} {data : List UInt8}

theorem attrClip_eq : attrClip c offset n = min n (logFsFileAttrDataSize c - offset) := by
  unfold attrClip
  split
  · omega
  · omega

theorem readThrough_inside (h : i + n ≤ c.pageSize) : readThrough c f page i n = f.read page i n := by
  induction n generalizing i with
  | zero => rfl
  | succ n ih =>
    have hread : f.read page i (n + 1) = f page i :: f.read page (i + 1) n := by
      unfold Pages.read
      rw [List.range_succ_eq_map, List.map_cons, List.map_map]
      congr 1
      apply List.map_congr_left
      intro k _
      rw [Function.comp_apply, Nat.succ_eq_add_one, Nat.add_right_comm, Nat.add_assoc i]
    rw [readThrough, hread]
    congr 1
    cases n with
    | zero => split <;> rfl
    | succ n =>
      rw [if_pos (by omega)]
      exact ih (by omega)

theorem eraseIfNotFree_keeps {q : ℕ} (hq : page ≠ q) : (eraseIfNotFree q).Within (Keeps page) := by
  apply Prog.within_bind (markerRd_keeps hq)
  intro m
  exact Prog.within_ite (at45dErase_keeps hq) Prog.within_pure

theorem create_rest_keeps : (do
    setLogFs fun l => { l with
      filePageLast := page
      filePageFirst := if l.filePageFirst = logFsPageInvalid then page else l.filePageFirst
      filePageNrNext := (l.filePageNrNext + 1) % 0x10000 }
    let next ← logFsPageNext c page
    eraseIfNotFree next
    setLogFs (resetRecords next)
    return .none : SysM LogFsErr).Within (Keeps page) := by
  apply Prog.within_bind
  · exact Prog.within_modify fun s => ⟨rfl, fun i => rfl⟩
  intro _
  refine Prog.within_bind_answers (R := Keeps page) within_pageNext pageNext_ne fun next hne => ?_
  apply Prog.within_bind (eraseIfNotFree_keeps hne)
  intro _
  apply Prog.within_bind
  · exact Prog.within_modify fun s => ⟨rfl, fun i => rfl⟩
  · exact fun _ => Prog.within_pure

theorem fileBlockWr_erased {written : Bool} (hr : (logFsFileBlockWr page).Returns s written t) (h : ErasedFrom s.flash page 0) :
    written = true ∧ t.logFs.fileInfo.file.startPage = page ∧ ErasedFrom t.flash page (pageHeaderSize + fileInfoSize) := by
  obtain ⟨rfl, rfl⟩ := (fileBlockWr_returns h rfl rfl).unique hr
  refine ⟨rfl, rfl, ?_⟩
  apply ErasedFrom.program
  · apply ErasedFrom.program
    · exact fun i _ => h i (Nat.zero_le i)
    · exact Nat.le_add_right _ _
  · exact Nat.le_refl _

theorem create_page {ts : LogFsTimeStamp} (hs : Intact s.flash) (hr : (logFsCreate c ts).Returns s .none t) :
    ErasedFrom t.flash t.logFs.fileInfo.file.startPage (pageHeaderSize + fileInfoSize) := by
  obtain ⟨r, s₁, h₁, hr₁⟩ := Prog.returns_bind.mp hr
  obtain ⟨hf, hd⟩ := createPage_quiet h₁ hs
  cases r with
  | none =>
    obtain ⟨hne, -⟩ := Prog.returns_pure.mp hr₁
    exact absurd hne (by decide)
  | some page =>
    have hs₁ : Intact s₁.flash := by
      rw [hf]
      exact hs
    obtain ⟨u, s₂, h₂, hr₂⟩ := Prog.returns_bind.mp hr₁
    have herased := eraseIfNotFree_erased hs₁ h₂
    simp only [setLogFs_bind] at hr₂
    obtain ⟨written, s₃, h₃, hr₃⟩ := Prog.returns_bind.mp hr₂
    obtain ⟨rfl, hpage, hbytes⟩ := fileBlockWr_erased h₃ herased
    obtain ⟨hinfo, hsame⟩ := create_rest_keeps hr₃
    rw [hinfo, hpage]
    exact fun i hi => (hsame i).trans (hbytes i hi)

/-- A request is written and read back, and nothing else in the flash is touched. -/
structure AttrRoundTrip (c : LogFsCfg) (s : Sys) (offset : ℕ) (data : List UInt8) (k : ℕ) (t : Sys) : Prop where
  written : (logFsFileAttrDataWr c offset data).Returns s k t
  read : (logFsFileAttrDataRd c offset data.length).Returns t (k, data.take k) t
  count_le : k ≤ data.length
  writable : offset < logFsFileAttrDataSize c → data ≠ [] → 0 < k
  stored : ∀ j < k, pageHeaderSize + fileInfoSize + offset + j < c.pageSize ∧
    some (t.flash s.logFs.fileInfo.file.startPage (pageHeaderSize + fileInfoSize + offset + j)) = data[j]?
  fileBlock_kept : ∀ i < pageHeaderSize + fileInfoSize,
    t.flash s.logFs.fileInfo.file.startPage i = s.flash s.logFs.fileInfo.file.startPage i
  others_kept : ∀ q ≠ s.logFs.fileInfo.file.startPage, ∀ i, t.flash q i = s.flash q i

theorem attrDataWr_returns (hoffset : offset < logFsFileAttrDataSize c) :
    (logFsFileAttrDataWr c offset data).Returns s (attrClip c offset data.length)
      (s.putFlash (s.flash.program s.logFs.fileInfo.file.startPage (attrStart offset)
        ((data.take (attrClip c offset data.length)).take (c.pageSize - attrStart offset)))) := by
  unfold logFsFileAttrDataWr
  rw [if_neg (Nat.not_le.mpr hoffset), getLogFs_bind]
  simp [at45dWrInPage, at45dWrPageOffset]

theorem attrDataRd_returns (hoffset : offset < logFsFileAttrDataSize c) :
    (logFsFileAttrDataRd c offset n).Returns s (attrClip c offset n,
      readThrough c s.flash s.logFs.fileInfo.file.startPage (attrStart offset) (attrClip c offset n)) s := by
  unfold logFsFileAttrDataRd
  rw [if_neg (Nat.not_le.mpr hoffset), getLogFs_bind]
  simp [at45dRdThrough]

theorem attrRoundTrip_inside (herased : ErasedFrom s.flash s.logFs.fileInfo.file.startPage (pageHeaderSize + fileInfoSize))
    (hoffset : offset < logFsFileAttrDataSize c)
    (h : data = [] ∨ pageHeaderSize + fileInfoSize + offset + data.length ≤ c.pageSize) :
    ∃ k u, AttrRoundTrip c s offset data k u := by
  have hfit := c.pageSize_lt
  have hclip : attrClip c offset data.length = data.length := by
    rw [attrClip_eq, logFsFileAttrDataSize] at *
    simp only [pageHeaderSize, fileInfoSize] at h hoffset ⊢
    rcases h with rfl | h
    · exact Nat.zero_min _
    · omega
  let u := s.putFlash (s.flash.program s.logFs.fileInfo.file.startPage (attrStart offset) data)
  have hstart : data ≠ [] → attrStart offset = pageHeaderSize + fileInfoSize + offset := by
    intro hne
    apply Nat.mod_eq_of_lt
    rcases h with h | h
    · exact absurd h hne
    · omega
  have hend : data ≠ [] → attrStart offset + data.length ≤ c.pageSize := by
    intro hne
    rw [hstart hne]
    rcases h with h | h
    · exact absurd h hne
    · exact h
  have hsent : (data.take (attrClip c offset data.length)).take (c.pageSize - attrStart offset) = data := by
    rw [hclip, List.take_length]
    by_cases hne : data = []
    · rw [hne, List.take_nil]
    · have := hend hne
      exact List.take_of_length_le (by omega)
  have hread : data ≠ [] → u.flash.read s.logFs.fileInfo.file.startPage (attrStart offset) data.length = data := by
    intro hne
    apply read_program
    intro k _
    apply herased
    rw [hstart hne]
    omega
  refine ⟨data.length, u, ?_⟩
  constructor
  · have hwr := @attrDataWr_returns c s offset data hoffset
    rwa [hsent, hclip] at hwr
  · have hrd := attrDataRd_returns (c := c) (s := u) (n := data.length) hoffset
    rw [hclip] at hrd
    rw [List.take_length]
    by_cases hne : data = []
    · subst hne
      exact hrd
    · rw [readThrough_inside (hend hne)] at hrd
      have hpage : u.logFs.fileInfo.file.startPage = s.logFs.fileInfo.file.startPage := rfl
      rwa [hpage, hread hne] at hrd
  · exact Nat.le_refl _
  · exact fun _ hne => List.length_pos_iff.mpr hne
  · intro j hj
    have hne : data ≠ [] := List.ne_nil_of_length_pos (by omega)
    have hplace := hend hne
    have hbyte := congrArg (fun l => l[j]?) (hread hne)
    simp only [getElem?_read hj] at hbyte
    rw [hstart hne] at hplace hbyte
    exact ⟨by omega, hbyte⟩
  · intro i hi
    apply program_outside
    by_cases hne : data = []
    · subst hne
      rw [List.length_nil]
      omega
    · rw [hstart hne]
      omega
  · exact fun q hq i => program_other hq

theorem attrRoundTrip_iff {ts : LogFsTimeStamp} (hs : Intact s.flash) (hr : (logFsCreate c ts).Returns s .none t) :
    (∃ k u, AttrRoundTrip c t offset data k u) ↔
      logFsFileAttrDataSize c ≤ offset ∨ data = [] ∨
        pageHeaderSize + fileInfoSize + offset + data.length ≤ c.pageSize := by
  have herased := create_page hs hr
  by_cases hoffset : logFsFileAttrDataSize c ≤ offset
  · refine ⟨fun _ => .inl hoffset, fun _ => ⟨0, t, ?_⟩⟩
    constructor
    · simp [logFsFileAttrDataWr, hoffset]
    · simp [logFsFileAttrDataRd, hoffset]
    · exact Nat.zero_le _
    · exact fun h => absurd h (Nat.not_lt.mpr hoffset)
    · exact fun j hj => absurd hj (Nat.not_lt_zero j)
    · exact fun _ _ => rfl
    · exact fun _ _ _ => rfl
  · rw [Nat.not_le] at hoffset
    constructor
    · rintro ⟨k, u, h⟩
      by_cases hdata : data = []
      · exact .inr (.inl hdata)
      · right
        right
        obtain ⟨hk, -⟩ := h.written.unique (attrDataWr_returns hoffset)
        have hpos := h.writable hoffset hdata
        have hlast := (h.stored (k - 1) (by omega)).1
        rw [attrClip_eq, logFsFileAttrDataSize] at hk
        simp only [pageHeaderSize, fileInfoSize] at hk hlast ⊢
        omega
    · intro h
      exact attrRoundTrip_inside herased hoffset (by
        rcases h with h | rfl | h
        · exact absurd hoffset (Nat.not_lt.mpr h)
        · exact .inl rfl
        · exact .inr h)

/-- An erased flash that `log_fs_init` has found empty. -/
def emptySys : Sys :=
  ⟨{ LogFs.zero reclaimCfg with filePageFirst := logFsPageInvalid, filePageLast := logFsPageInvalid }, erased, []⟩

theorem emptySys_intact : Intact emptySys.flash := fun _ => .inl fun _ _ => rfl

theorem emptySys_create : ∃ t, (logFsCreate reclaimCfg reclaimTime).Returns emptySys .none t := by
  have hrun : ((logFsCreate reclaimCfg reclaimTime).run 20 emptySys).any fun r => decide (r.1 = .none) := by
    decide +kernel
  obtain ⟨⟨err, t⟩, ht, herr⟩ := (Option.any_eq_true _ _).mp hrun
  obtain rfl : err = .none := of_decide_eq_true herr
  exact ⟨t, 20, ht⟩

theorem attrRoundTrip_iff_empty : ∃ t, (logFsCreate reclaimCfg reclaimTime).Returns emptySys .none t ∧
    ∃ k u, AttrRoundTrip reclaimCfg t 0 [1, 2] k u := by
  obtain ⟨t, ht⟩ := emptySys_create
  exact ⟨t, ht, (attrRoundTrip_iff emptySys_intact ht).mpr (.inr (.inr (by decide)))⟩

/-- The last four offsets below the size lie behind the page. -/
theorem attr_last_offset_lost : ¬ ∀ (c : LogFsCfg) (ts : LogFsTimeStamp) (s t : Sys) (offset : ℕ) (data : List UInt8),
    Intact s.flash → (logFsCreate c ts).Returns s .none t → ∃ k u, AttrRoundTrip c t offset data k u := by
  intro h
  obtain ⟨t, ht⟩ := emptySys_create
  obtain ⟨k, u, hk⟩ := h reclaimCfg reclaimTime emptySys t 22 [7] emptySys_intact ht
  have hpos := hk.writable (by decide) (by decide)
  exact absurd (hk.stored 0 hpos).1 (by decide)

end Lpc1788Libraries.DataManager

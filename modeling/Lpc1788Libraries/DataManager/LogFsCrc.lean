import Lpc1788Libraries.Support.CyclicRedundancy
import Lpc1788Libraries.DataManager.LogFsReaders
import Lpc1788Libraries.DataManager.LogFsReclaim

namespace Lpc1788Libraries.DataManager

open Lpc1788Libraries.Support NorFlash BoundedProgram CyclicRedundancy

variable {c : LogFsCfg} {s t : Sys} {page offset n : ℕ} {m crc b : UInt8} {data data' block copy : List UInt8}

def logFsCrcPoly : BitVec 8 := 0xb2#8

/-- The bits of a block, those of each byte with the lowest first. -/
def blockBits (block : List UInt8) : List Bool := block.flatMap fun b => bits 8 b.toBitVec

/-- The bits of the copy are those of the block but for an error that lies in eight consecutive ones. -/
def Damaged (block copy : List UInt8) : Prop :=
  ∃ e, e.length = (blockBits block).length ∧ Burst 8 e ∧ blockBits copy = flipped (blockBits block) e

section remainder

theorem blockBits_cons : blockBits (b :: data) = bits 8 b.toBitVec ++ blockBits data := List.flatMap_cons

theorem blockBits_append : blockBits (data ++ data') = blockBits data ++ blockBits data' := List.flatMap_append

theorem blockBits_singleton : blockBits [b] = bits 8 b.toBitVec := List.flatMap_singleton _ _

theorem low_bit_iff : crc &&& 1 ≠ 0 ↔ crc.toBitVec.getLsbD 0 = true := by
  have hand : (crc &&& 1).toNat = crc.toNat % 2 := (UInt8.toNat_and _ _).trans (Nat.and_one_is_mod _)
  have hbit : crc.toBitVec.getLsbD 0 = decide (crc.toNat % 2 = 1) := Nat.testBit_zero _
  rw [hbit, decide_eq_true_iff, ne_eq, ← UInt8.toNat_inj, hand]
  exact Nat.mod_two_ne_zero

theorem logFsCrcShift_toBitVec : (logFsCrcShift crc).toBitVec = feed logFsCrcPoly crc.toBitVec false := by
  unfold logFsCrcShift feed
  rw [Bool.xor_false]
  by_cases hlow : crc &&& 1 ≠ 0
  · rw [if_pos hlow, if_pos (low_bit_iff.mp hlow)]
    rfl
  · rw [if_neg hlow, if_neg (low_bit_iff.not.mp hlow)]
    rfl

theorem shifts_toBitVec :
    (logFsCrcShift^[n] crc).toBitVec = run logFsCrcPoly crc.toBitVec (List.replicate n false) := by
  induction n generalizing crc with
  | zero => rfl
  | succ n ih => rw [Function.iterate_succ_apply, ih, logFsCrcShift_toBitVec, List.replicate_succ, run_cons]

theorem byte_done (b : UInt8) : b.toBitVec >>> 8 = 0#8 := BitVec.ushiftRight_eq_zero le_rfl

theorem logFsCrcByte_toBitVec :
    (logFsCrcByte crc b).toBitVec = run logFsCrcPoly crc.toBitVec (bits 8 b.toBitVec) := by
  rw [logFsCrcByte, shifts_toBitVec, UInt8.toBitVec_xor, run_bits (byte_done b)]

theorem foldl_toBitVec :
    (data.foldl logFsCrcByte crc).toBitVec = run logFsCrcPoly crc.toBitVec (blockBits data) := by
  induction data generalizing crc with
  | nil => rfl
  | cons b data ih => rw [List.foldl_cons, ih, logFsCrcByte_toBitVec, blockBits_cons, run_append]

theorem run_sealed (h : logFsCrcCalc data = crc) : run logFsCrcPoly 0xff#8 (blockBits (data ++ [crc])) = 0#8 := by
  have hdata : run logFsCrcPoly 0xff#8 (blockBits data) = crc.toBitVec := by
    rw [← h]
    exact foldl_toBitVec.symm
  rw [blockBits_append, blockBits_singleton, run_append, hdata]
  exact run_self (byte_done crc)

theorem Damaged.crc_ne (h : Damaged (data ++ [logFsCrcCalc data]) (data' ++ [crc])) : logFsCrcCalc data' ≠ crc := by
  obtain ⟨e, hlen, hburst, hbits⟩ := h
  intro hcrc
  have hzero := run_sealed hcrc
  rw [hbits] at hzero
  exact run_flipped_ne (by decide) hlen.symm hburst (run_sealed rfl) hzero

end remainder

section blocks

theorem LogFsFileInfo.toBytes_ofBytes {b : List UInt8} (h : b.length = fileInfoSize) :
    (LogFsFileInfo.ofBytes b).toBytes = b := by
  obtain ⟨b₀, b₁, b₂, b₃, b₄, b₅, b₆, b₇, b₈, rfl⟩ : ∃ b₀ b₁ b₂ b₃ b₄ b₅ b₆ b₇ b₈,
      b = [b₀, b₁, b₂, b₃, b₄, b₅, b₆, b₇, b₈] := by
    match b, h with
    | [b₀, b₁, b₂, b₃, b₄, b₅, b₆, b₇, b₈], _ => exact ⟨b₀, b₁, b₂, b₃, b₄, b₅, b₆, b₇, b₈, rfl⟩
  simp [LogFsFileInfo.ofBytes, LogFsFileInfo.toBytes, LogFsFileInfo.body, LogFsTimeStamp.toBytes, u16_of_bytes b₀ b₁]

theorem LogFsRecBlock.toBytes_ofBytes {b : List UInt8} (h : b.length = n + 2) :
    (LogFsRecBlock.ofBytes n b).toBytes = b := by
  cases b with
  | nil => exact absurd h (by simp)
  | cons marker rest =>
    have hrest : rest.length = n + 1 := by simpa using h
    obtain ⟨data, crc, rfl⟩ : ∃ data crc, rest = data ++ [crc] :=
      ⟨_, _, (List.dropLast_concat_getLast (List.ne_nil_of_length_eq_add_one hrest)).symm⟩
    have hdata : data.length = n := by simpa using hrest
    simp [LogFsRecBlock.ofBytes, LogFsRecBlock.toBytes, LogFsRecBlock.body, ← hdata]

def Sys.fileInfoRd (s : Sys) (page : ℕ) : LogFsFileInfo :=
  .ofBytes (s.flash.read page pageHeaderSize fileInfoSize)

def Sys.recordBlockRd (s : Sys) (c : LogFsCfg) (page offset : ℕ) : LogFsRecBlock :=
  .ofBytes c.recDataSize (s.flash.read page offset c.recBlockSize)

theorem headerRd_crc_ne {h : LogFsPageHeader} (hcrc : h.crc = logFsCrcPageHeader h)
    (hd : Damaged h.toBytes (s.flash.read page 0 pageHeaderSize)) :
    logFsCrcPageHeader (s.headerRd page) ≠ (s.headerRd page).crc := by
  have hcopy : (s.headerRd page).toBytes = s.flash.read page 0 pageHeaderSize :=
    LogFsPageHeader.toBytes_ofBytes length_read
  rw [← hcopy, LogFsPageHeader.toBytes, hcrc] at hd
  exact hd.crc_ne

theorem fileInfoRd_crc_ne {i : LogFsFileInfo} (hcrc : i.crc = logFsCrcFileInfo i)
    (hd : Damaged i.toBytes (s.flash.read page pageHeaderSize fileInfoSize)) :
    (s.fileInfoRd page).crc ≠ logFsCrcFileInfo (s.fileInfoRd page) := by
  have hcopy : (s.fileInfoRd page).toBytes = s.flash.read page pageHeaderSize fileInfoSize :=
    LogFsFileInfo.toBytes_ofBytes length_read
  rw [← hcopy, LogFsFileInfo.toBytes, hcrc] at hd
  exact hd.crc_ne.symm

theorem recordBlockRd_crc_ne {b : LogFsRecBlock} (hcrc : b.crc = logFsCrcRecordBlock b)
    (hd : Damaged b.toBytes (s.flash.read page offset c.recBlockSize)) :
    (s.recordBlockRd c page offset).crc ≠ logFsCrcRecordBlock (s.recordBlockRd c page offset) := by
  have hcopy : (s.recordBlockRd c page offset).toBytes = s.flash.read page offset c.recBlockSize :=
    LogFsRecBlock.toBytes_ofBytes length_read
  rw [← hcopy, LogFsRecBlock.toBytes, hcrc] at hd
  exact hd.crc_ne.symm

theorem pageHeaderRd_wrong (h : logFsCrcPageHeader (s.headerRd page) ≠ (s.headerRd page).crc) :
    ∃ m t, (logFsPageHeaderRd page).Returns s m t ∧
      (m = logFsMarkerBad ∨ m = logFsMarkerFree ∧ s.flash page 0 = logFsMarkerFree) := by
  by_cases hv : validMarker (s.flash page 0)
  · by_cases hm : s.flash page 0 = logFsMarkerFree ∨ s.flash page 0 = logFsMarkerBad
    · refine ⟨s.flash page 0, s, (markerRd_returns hv).leave hm, ?_⟩
      rcases hm with hfree | hbad
      · exact .inr ⟨hfree, hfree⟩
      · exact .inl hbad
    · exact ⟨_, _, pageHeaderRd_mismatch hv hm h, .inl rfl⟩
  · exact ⟨logFsMarkerBad, _, (markerRd_invalid hv).leave (.inr rfl), .inl rfl⟩

theorem fileBlockRd_no_file (hr : (logFsPageHeaderRd page).Returns s m t) (hm : m ≠ logFsMarkerFile) :
    (logFsFileBlockRd page).Returns s false t := hr.leave hm

theorem fileBlockRd_wrong_header (h : logFsCrcPageHeader (s.headerRd page) ≠ (s.headerRd page).crc) :
    ∃ t, (logFsFileBlockRd page).Returns s false t := by
  obtain ⟨m, t, hr, hm⟩ := pageHeaderRd_wrong h
  refine ⟨t, fileBlockRd_no_file hr ?_⟩
  rcases hm with rfl | ⟨rfl, -⟩ <;> decide

theorem fileBlockRd_wrong_info (h : (s.fileInfoRd page).crc ≠ logFsCrcFileInfo (s.fileInfoRd page)) :
    ∃ t, (logFsFileBlockRd page).Returns s false t := by
  rcases pageHeaderRd_cases page s with ⟨m, nr, -, -, hr⟩ | ⟨m, t, hm, hr, -⟩
  · by_cases hm : m ≠ logFsMarkerFile
    · exact ⟨_, fileBlockRd_no_file hr hm⟩
    · let t := (s.setHeader (sealedHeader m nr)).setFileInfo (s.fileInfoRd page)
      have hbad : (logFsMarkerWr logFsMarkerBad page 0).Returns t true
          (t.putFlash (s.flash.program page 0 [logFsMarkerBad])) := markerWr_bad_returns
      refine ⟨t.putFlash (s.flash.program page 0 [logFsMarkerBad]), ?_⟩
      unfold logFsFileBlockRd
      apply hr.bind
      rw [if_neg hm]
      simp only [at45dRd_bind, setLogFs_bind]
      rw [Sys.setHeader_flash, ← Sys.fileInfoRd, if_pos h]
      apply hbad.bind
      exact Prog.returns_pure.mpr ⟨rfl, rfl⟩
  · refine ⟨t, fileBlockRd_no_file hr ?_⟩
    rcases hm with rfl | rfl <;> decide

theorem recordBlockRd_wrong
    (h : (s.recordBlockRd c page offset).crc ≠ logFsCrcRecordBlock (s.recordBlockRd c page offset)) :
    ∃ t, (logFsRecordBlockRd c page offset).Returns s false t := by
  by_cases hv : validMarker (s.flash page offset)
  · by_cases hm : s.flash page offset ≠ logFsMarkerRecord
    · exact ⟨s, (markerRd_returns hv).leave hm⟩
    · let t := s.setRecordBlock (s.recordBlockRd c page offset)
      have hbad : (logFsMarkerWr logFsMarkerBad page offset).Returns t true
          (t.putFlash (s.flash.program page offset [logFsMarkerBad])) := markerWr_bad_returns
      refine ⟨t.putFlash (s.flash.program page offset [logFsMarkerBad]), ?_⟩
      unfold logFsRecordBlockRd
      apply (markerRd_returns hv).bind
      rw [if_neg hm]
      simp only [at45dRd_bind, setLogFs_bind]
      rw [← Sys.recordBlockRd, if_pos h]
      apply hbad.bind
      exact Prog.returns_pure.mpr ⟨rfl, rfl⟩
  · exact ⟨_, (markerRd_invalid hv).leave (by decide)⟩

end blocks

section detection

/-- Neither the comparison of `log_fs_crc_calc` nor a block that is read takes a damaged copy for the original. -/
theorem burst_rejected (c : LogFsCfg) (s : Sys) (page offset : ℕ) :
    (∀ data data' crc, Damaged (data ++ [logFsCrcCalc data]) (data' ++ [crc]) → logFsCrcCalc data' ≠ crc) ∧
    (∀ h : LogFsPageHeader, h.crc = logFsCrcPageHeader h →
      Damaged h.toBytes (s.flash.read page 0 pageHeaderSize) →
      logFsCrcPageHeader (s.headerRd page) ≠ (s.headerRd page).crc ∧
      (∃ m t, (logFsPageHeaderRd page).Returns s m t ∧
        (m = logFsMarkerBad ∨ m = logFsMarkerFree ∧ s.flash page 0 = logFsMarkerFree)) ∧
      ∃ t, (logFsFileBlockRd page).Returns s false t) ∧
    (∀ i : LogFsFileInfo, i.crc = logFsCrcFileInfo i →
      Damaged i.toBytes (s.flash.read page pageHeaderSize fileInfoSize) →
      (s.fileInfoRd page).crc ≠ logFsCrcFileInfo (s.fileInfoRd page) ∧
      ∃ t, (logFsFileBlockRd page).Returns s false t) ∧
    (∀ b : LogFsRecBlock, b.crc = logFsCrcRecordBlock b →
      Damaged b.toBytes (s.flash.read page offset c.recBlockSize) →
      (s.recordBlockRd c page offset).crc ≠ logFsCrcRecordBlock (s.recordBlockRd c page offset) ∧
      ∃ t, (logFsRecordBlockRd c page offset).Returns s false t) := by
  refine ⟨fun data data' crc hd => hd.crc_ne, ?_, ?_, ?_⟩
  · intro h hcrc hd
    have hne := headerRd_crc_ne hcrc hd
    exact ⟨hne, pageHeaderRd_wrong hne, fileBlockRd_wrong_header hne⟩
  · intro i hcrc hd
    have hne := fileInfoRd_crc_ne hcrc hd
    exact ⟨hne, fileBlockRd_wrong_info hne⟩
  · intro b hcrc hd
    have hne := recordBlockRd_crc_ne hcrc hd
    exact ⟨hne, recordBlockRd_wrong hne⟩

/-- A burst from the last bit of the number into the CRC. -/
theorem burst_rejected_number : ∃ t, (logFsFileBlockRd 0).Returns
    ⟨LogFs.zero reclaimCfg, fun _ i => [0x2f, 0x01, 0x80, 0x98].getD i 0xff, []⟩ false t :=
  ((burst_rejected reclaimCfg _ 0 0).2.1 ⟨0x2f, 1, 0x9c⟩ (by decide +kernel)
    ⟨List.replicate 23 false ++ [true, false, false, true] ++ List.replicate 5 false, rfl,
      ⟨23, [true, false, false, true], 5, rfl, by decide, List.mem_cons_self⟩, rfl⟩).2.2

end detection

end Lpc1788Libraries.DataManager

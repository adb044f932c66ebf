import Lpc1788Libraries.Cli.CliRun

namespace Lpc1788Libraries.Cli

open Lpc1788Libraries.Support BoundedProgram BoundedProgram.Prog DelimitedRing

variable {cfg : Config} {lists : Lists} {s : CliState} {h : History cfg}

/-- The history ring as `cli.c` relies on it. -/
structure HistorySound (cfg : Config) (s : CliState) : Prop where
  last_lt : s.histIndexLast < cfg.historySize
  now_lt : s.histIndexNow < cfg.historySize
  /-- No string is longer than a line. -/
  strings : ∀ p < cfg.historySize, ∃ k ≤ cfg.lineLengthMax - 1,
    s.histCircBuf ((cliHistCircBufIndexNext cfg)^[k] p) = 0
  last_zero : s.histCircBuf s.histIndexLast = 0
  now_start : s.histIndexNow = s.histIndexLast ∨
    s.histCircBuf s.histIndexNow ≠ 0 ∧ s.histCircBuf (cliHistCircBufIndexPrev cfg s.histIndexNow) = 0
  save_ends : (cliHistSaveCmd cfg).Terminates s
  older_ends : (cliHistLoadOlderCmd cfg).Terminates s
  newer_ends : (cliHistLoadNewerCmd cfg).Terminates s
  /-- It ends without a character behind the end of the line buffer. -/
  copy_ends : (cliHistCopy cfg).Achieves s fun _ t => t.lineBufIndex < cfg.lineLengthMax

namespace Represents

theorem mem_lt {p : ℕ} (hH : 0 < cfg.historySize) (hm : cfg.ring.Mem p) : p < cfg.historySize := by
  have hhi : cfg.ring.hi = cfg.historySize - 1 := rfl
  have := hm.2
  omega

theorem strings (hr : Represents cfg s h) (hH : 0 < cfg.historySize) {p : ℕ} (hp : p < cfg.historySize) :
    ∃ k ≤ cfg.lineLengthMax - 1, s.histCircBuf ((cliHistCircBufIndexNext cfg)^[k] p) = 0 := by
  have hm : cfg.ring.Mem p := by
    refine ⟨Nat.zero_le p, ?_⟩
    change p ≤ cfg.historySize - 1
    omega
  obtain ⟨i, hi, rfl⟩ := PageRing.exists_step (PageRing.step_mem (p := s.histIndexLast) (k := 1)) hm
  have hsz := size_le (h := h) hH
  obtain ⟨k, hk, hget⟩ := exists_delimiter (z := (0 : UInt8)) hsz h.short hi
  have hin := (List.getElem?_eq_some_iff.mp hget).1
  rw [length_content hsz] at hin
  refine ⟨k, hk, ?_⟩
  rw [← hr.held, getElem?_window hin] at hget
  rw [next_iterate]
  exact Option.some.inj hget

theorem now_start (hr : Represents cfg s h) (hH : 0 < cfg.historySize) : s.histIndexNow = s.histIndexLast ∨
    s.histCircBuf s.histIndexNow ≠ 0 ∧ s.histCircBuf (cliHistCircBufIndexPrev cfg s.histIndexNow) = 0 := by
  have hpos := @PageRing.size_pos cfg.ring
  by_cases hs : h.shown = 0
  · left
    rw [hr.now_eq, History.place_zero hr.last_mem hs]
  · right
    obtain ⟨newer, e, older, hl, hsh⟩ := History.exists_shown hs
    have hmem : e ∈ h.lines := by simp [hl]
    have he : 0 < e.length := List.length_pos_iff.mpr (h.nonempty e hmem)
    have hw := hr.held
    have hsz := size_le (h := h) hH
    rw [hl] at hw hsz
    rw [hr.now_eq, History.place_eq hl hsh]
    constructor
    · have hchar := window_word hw hsz he
      rw [Nat.add_zero] at hchar
      rw [hchar]
      exact fun h0 => h.nonzero e hmem (h0 ▸ List.getElem_mem he)
    · rw [show newer ++ e :: older = (newer ++ [e]) ++ older by simp] at hw hsz
      have hb := window_before hw hsz
      rw [size_append, size_cons, size_nil, Nat.add_zero, ← Nat.sub_sub] at hb
      rw [prev_eq, ← PageRing.step_add_size, show cfg.ring.size - size newer - (e.length + 1) + cfg.ring.size =
        cfg.ring.size - size newer - (e.length + 1) + (cfg.ring.size - 1) + 1 by omega, PageRing.prev_step]
      exact hb

end Represents

theorem historySound (hs : LineSound cfg s) (hr : Represents cfg s h) (hLH : cfg.lineLengthMax ≤ cfg.historySize) :
    HistorySound cfg s := by
  have hH : 0 < cfg.historySize := Nat.lt_of_lt_of_le cfg.line_pos hLH
  have hplace : cfg.ring.Mem s.histIndexNow := by
    rw [hr.now_eq]
    exact PageRing.step_mem
  obtain ⟨t, hsave, -⟩ := save_returns hs hr hLH
  constructor
  · exact Represents.mem_lt hH hr.last_mem
  · exact Represents.mem_lt hH hplace
  · exact fun p hp => hr.strings hH hp
  · exact hr.last_zero hH
  · exact hr.now_start hH
  · exact ⟨(), t, hsave⟩
  · exact ⟨(), _, older_returns hr hH⟩
  · exact ⟨(), _, newer_returns hr hH⟩
  · refine ⟨(), _, hr.copy hH, ?_⟩
    have := h.length_line_le
    have := cfg.line_pos
    change h.line.length < cfg.lineLengthMax
    omega

/-- Whatever has been received, the ring is well formed and its loops end, from the state between
two characters and from what a call has changed of it when it comes to the history. -/
theorem history_ring_sound (hLH : cfg.lineLengthMax ≤ cfg.historySize) {startup : Option CString}
    {l : List UInt8} (hs : Reached cfg lists startup l s) (vt100State : ℕ) (sent : List Output) :
    HistorySound cfg { s with vt100State := vt100State, sent := sent } := by
  obtain ⟨hsound, hrep⟩ := hs.sound
  obtain ⟨h, hr⟩ := hrep (Nat.ne_of_gt (Nat.lt_of_lt_of_le cfg.line_pos hLH))
  exact historySound ⟨hsound.index_le, hsound.start_le, hsound.end_le, hsound.nonzero⟩ (hr.congr rfl) hLH

/-- A console with a history of eight characters. -/
def smallConsole : Config where
  argvMax := 2
  lineLengthMax := 6
  treeDepthMax := 1
  historySize := 8
  line_pos := by decide
  line_le := by decide
  depth_pos := by decide
  depth_le := by decide
  history_ge := by decide
  history_le := by decide

theorem history_ring_sound_small : ∃ s,
    Reached smallConsole (fun _ => []) none [0x61, 0x62, 0x0d, 0x1b, 0x5b, 0x41] s ∧ HistorySound smallConsole s := by
  obtain ⟨s, t, hs, hf, -⟩ := @exists_run smallConsole (fun _ => []) [0x61, 0x62, 0x0d, 0x1b, 0x5b, 0x41] none 20
    (fun _ => true) (by decide)
  have hr := reached_feed hs hf
  exact ⟨t, hr, history_ring_sound (by decide) hr t.vt100State t.sent⟩

end Lpc1788Libraries.Cli

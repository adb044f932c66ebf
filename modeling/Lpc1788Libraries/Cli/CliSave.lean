import Lpc1788Libraries.Cli.CliHistory

namespace Lpc1788Libraries.Cli

open Lpc1788Libraries.Support BoundedProgram BoundedProgram.Prog DelimitedRing

variable {cfg : Config} {s : CliState} {h : History cfg}

@[simp] theorem length_line : s.line.length = s.lineBufIndex := by simp [CliState.line]

theorem getElem_line {i : ℕ} (hi : i < s.line.length) : s.line[i] = s.lineBuf i := by simp [CliState.line]

theorem line_take_succ {i : ℕ} (hi : i < s.lineBufIndex) : s.line.take (i + 1) = s.line.take i ++ [s.lineBuf i] := by
  have hlt : i < s.line.length := by rwa [length_line]
  rw [List.take_succ_eq_append_getElem hlt, getElem_line]

theorem duplicateLoop_returns {i j : ℕ} (hi : 0 < i) :
    (Prog.loop (duplicateRound cfg) (i, j)).Returns s
      (decide (∀ k < i, s.lineBuf k = s.histCircBuf ((cliHistCircBufIndexPrev cfg)^[i - k] j))) s := by
  induction i generalizing j with
  | zero => exact absurd hi (Nat.lt_irrefl 0)
  | succ i ih =>
    by_cases hne : s.lineBuf i = s.histCircBuf (cliHistCircBufIndexPrev cfg j)
    · cases i with
      | zero =>
        apply loop_inr
        simp [duplicateRound, hne]
      | succ i =>
        have hiff : (∀ k < i + 1 + 1, s.lineBuf k = s.histCircBuf ((cliHistCircBufIndexPrev cfg)^[i + 1 + 1 - k] j)) ↔
            ∀ k < i + 1, s.lineBuf k =
              s.histCircBuf ((cliHistCircBufIndexPrev cfg)^[i + 1 - k] (cliHistCircBufIndexPrev cfg j)) := by
          constructor
          · intro h k hk
            rw [← Function.iterate_succ_apply, show (i + 1 - k).succ = i + 1 + 1 - k by omega]
            exact h k (by omega)
          · intro h k hk
            rcases Nat.lt_or_eq_of_le (Nat.le_of_lt_succ hk) with hk | rfl
            · rw [show i + 1 + 1 - k = (i + 1 - k).succ by omega, Function.iterate_succ_apply]
              exact h k hk
            · rw [hne, Nat.add_sub_cancel_left]
              rfl
        apply loop_inl (y := (i + 1, cliHistCircBufIndexPrev cfg j)) (t := s)
        · simp [duplicateRound, hne]
        · rw [decide_eq_decide.mpr hiff]
          exact ih (Nat.succ_pos i)
    · have hall : ¬ ∀ k < i + 1, s.lineBuf k = s.histCircBuf ((cliHistCircBufIndexPrev cfg)^[i + 1 - k] j) := by
        intro h
        have hi := h i (Nat.lt_succ_self i)
        rw [Nat.add_sub_cancel_left] at hi
        exact hne hi
      apply loop_inr
      rw [decide_eq_false hall]
      simp [duplicateRound, hne]

theorem duplicateCommand_returns (hr : Represents cfg s h) (hn : 0 < s.lineBufIndex)
    (hfit : s.lineBufIndex + 1 ≤ cfg.historySize) (hz : 0 ∉ s.line) :
    (duplicateCommand cfg).Returns s (decide (s.line <:+ h.lines.headD [])) s := by
  have hH : 0 < cfg.historySize := by omega
  have hpos := @PageRing.size_pos cfg.ring
  have hsize := size_ring hH
  have hsz := Represents.size_le (h := h) hH
  have hcl := length_content (z := (0 : UInt8)) hsz
  have hll : s.line.length = s.lineBufIndex := length_line
  have hback : ∀ k < s.lineBufIndex, (cliHistCircBufIndexPrev cfg)^[s.lineBufIndex - k] s.histIndexLast =
      cfg.ring.step (cfg.ring.step s.histIndexLast 1) (cfg.ring.size - (s.lineBufIndex + 1) + k) := by
    intro k hk
    have hlast := step_last hr.last_mem
    rw [← congrArg (cliHistCircBufIndexPrev cfg)^[s.lineBufIndex - k] hlast, prev_iterate (by omega)]
    congr 1
    omega
  have hiff : (∀ k < s.lineBufIndex, s.lineBuf k =
      s.histCircBuf ((cliHistCircBufIndexPrev cfg)^[s.lineBufIndex - k] s.histIndexLast)) ↔
      s.line <:+ h.lines.headD [] := by
    rw [← suffix_content hz hsz (by omega), List.suffix_iff_eq_drop, hcl, List.length_append, List.length_singleton,
      hll]
    constructor
    · intro hall
      apply List.ext_getElem?
      intro k
      rw [List.getElem?_drop, ← hr.held]
      rcases Nat.lt_trichotomy k s.lineBufIndex with hk | rfl | hk
      · rw [getElem?_window (by omega), ← hback k hk, ← hall k hk, List.getElem?_append_left (by omega),
          List.getElem?_eq_getElem (by omega), getElem_line]
      · rw [getElem?_window (by omega), List.getElem?_append_right (by omega), hll, Nat.sub_self,
          show cfg.ring.size - (s.lineBufIndex + 1) + s.lineBufIndex = cfg.ring.size - 1 by omega,
          step_last hr.last_mem, hr.last_zero hH]
        rfl
      · rw [List.getElem?_eq_none (by simp; omega), List.getElem?_eq_none (by simp; omega)]
    · intro heq k hk
      have hk' := congrArg (·[k]?) heq
      simp only [List.getElem?_drop] at hk'
      rw [← hr.held, getElem?_window (by omega), ← hback k hk, List.getElem?_append_left (by omega),
        List.getElem?_eq_getElem (by omega), getElem_line] at hk'
      exact Option.some.inj hk'
  unfold duplicateCommand
  rw [get_bind_returns, ← decide_eq_decide.mpr hiff]
  exact duplicateLoop_returns hn

theorem step_succ {last i : ℕ} : cfg.ring.step last (i + 1) = cfg.ring.step (cfg.ring.step last 1) i := by
  rw [PageRing.step_step, Nat.add_comm]

theorem next_step {last i : ℕ} :
    cliHistCircBufIndexNext cfg (cfg.ring.step last i) = cfg.ring.step last (i + 1) := by
  rw [next_eq PageRing.step_mem, PageRing.next_step]

theorem window_append {C : List UInt8} {p i : ℕ} {b : ℕ → UInt8} (hi : i < s.lineBufIndex)
    (hC : s.lineBufIndex ≤ C.length) (hw : window cfg.ring b p = s.line.take i ++ C.drop i) :
    window cfg.ring (Function.update b (cfg.ring.step p i) (s.lineBuf i)) p =
      s.line.take (i + 1) ++ C.drop (i + 1) := by
  have hll : (s.line.take i).length = i := by
    rw [List.length_take, length_line]
    omega
  rw [List.drop_eq_getElem_cons (by omega)] at hw
  have hw' := window_write hw (s.lineBuf i)
  rwa [hll, List.append_cons, ← line_take_succ hi] at hw'

theorem appendLoop_returns {C : List UInt8} {last i : ℕ} {b : ℕ → UInt8} (hi : i < s.lineBufIndex)
    (hC : s.lineBufIndex ≤ C.length)
    (hw : window cfg.ring b (cfg.ring.step last 1) = s.line.take i ++ C.drop i) :
    ∃ b', (Prog.loop (appendRound cfg) (i, cfg.ring.step last i)).Returns { s with histCircBuf := b }
        (cfg.ring.step last s.lineBufIndex) { s with histCircBuf := b' } ∧
      window cfg.ring b' (cfg.ring.step last 1) = s.line ++ C.drop s.lineBufIndex := by
  obtain ⟨d, hd⟩ : ∃ d, s.lineBufIndex - i = d + 1 := ⟨s.lineBufIndex - i - 1, by omega⟩
  have hw' := window_append hi hC hw
  rw [← step_succ] at hw'
  induction d generalizing i b with
  | zero =>
    have hend : s.lineBufIndex = i + 1 := by omega
    have hlast : ¬ i + 1 < s.lineBufIndex := by omega
    refine ⟨Function.update b (cfg.ring.step last (i + 1)) (s.lineBuf i), loop_inr ?_, ?_⟩
    · simp only [appendRound, get_bind_returns, setHist, modify_bind_returns, next_step, hlast, ↓reduceIte, returns_pure]
      rw [hend]
      exact ⟨rfl, trivial⟩
    · rw [hw', ← hend, List.take_of_length_le (Nat.le_of_eq length_line)]
  | succ d ih =>
    have hlt : i + 1 < s.lineBufIndex := by omega
    have hw'' := window_append hlt hC hw'
    rw [← step_succ] at hw''
    obtain ⟨b', hr, hb⟩ := ih hlt hw' (by omega) hw''
    refine ⟨b', loop_inl ?_ hr, hb⟩
    simp only [appendRound, get_bind_returns, setHist, modify_bind_returns, next_step, hlt, ↓reduceIte, returns_pure]
    exact ⟨trivial, trivial⟩

theorem eatRemainder_returns {xs ys : List UInt8} {p : ℕ} {b : ℕ → UInt8} (hz : 0 ∈ ys)
    (hw : window cfg.ring b p = xs ++ ys) :
    ∃ b', (eatRemainder cfg (cfg.ring.step p xs.length)).Returns { s with histCircBuf := b } ()
      { s with histCircBuf := b' } ∧ window cfg.ring b' p = xs ++ eat 0 ys := by
  unfold eatRemainder
  induction ys generalizing xs b with
  | nil => exact absurd hz List.not_mem_nil
  | cons y ys ih =>
    have hy := window_get hw
    by_cases h0 : y = 0
    · refine ⟨b, loop_inr ?_, ?_⟩
      · simp [hy, h0]
      · rw [hw, eat, if_pos h0]
    · have hw' := window_write hw 0
      rw [List.append_cons] at hw'
      have hz' : 0 ∈ ys := by
        rcases List.mem_cons.mp hz with h | h
        · exact absurd h.symm h0
        · exact h
      obtain ⟨b', hr, hb⟩ := ih hz' hw'
      refine ⟨b', loop_inl (y := cfg.ring.step p (xs ++ [0]).length) ?_ hr, ?_⟩
      · simp [hy, h0, setHist, next_eq PageRing.step_mem, PageRing.next_step]
      · rw [hb, eat, if_neg h0, List.append_assoc, List.singleton_append]

theorem cliHistSaveCmd_duplicate (hr : Represents cfg s h) (hfit : s.lineBufIndex + 1 ≤ cfg.historySize)
    (hz : 0 ∉ s.line) (hd : s.line <:+ h.lines.headD []) :
    (cliHistSaveCmd cfg).Returns s () { s with histIndexNow := s.histIndexLast } := by
  unfold cliHistSaveCmd
  rw [get_bind_returns]
  by_cases hn : s.lineBufIndex = 0
  · rw [if_pos hn, returns_modify]
  · rw [if_neg hn]
    apply (duplicateCommand_returns hr (Nat.pos_of_ne_zero hn) hfit hz).bind
    rw [decide_eq_true hd, if_pos rfl, returns_modify]

theorem cliHistSaveCmd_new (hr : Represents cfg s h) (hfit : s.lineBufIndex + 1 ≤ cfg.historySize)
    (hz : 0 ∉ s.line) (hshort : s.lineBufIndex ≤ cfg.lineLengthMax - 1) (hd : ¬ s.line <:+ h.lines.headD []) :
    ∃ b last, (cliHistSaveCmd cfg).Returns s () { s with
        histCircBuf := b, histIndexLast := last, histIndexNow := last } ∧
      ∃ hl hs hf, Represents cfg { s with histCircBuf := b, histIndexLast := last, histIndexNow := last }
        (h.push s.line hl hz hs hf) := by
  have hH : 0 < cfg.historySize := by omega
  have hn : s.lineBufIndex ≠ 0 := by
    intro h0
    refine hd ?_
    rw [show s.line = [] by simp [CliState.line, h0]]
    exact List.nil_suffix
  have hl : s.line ≠ [] := by
    intro h0
    have hlen := length_line (s := s)
    rw [h0] at hlen
    exact hn hlen.symm
  have hsz := Represents.size_le (h := h) hH
  have hsize := size_ring hH
  have hll : s.line.length = s.lineBufIndex := length_line
  obtain ⟨C, hC⟩ : ∃ C, C = content (0 : UInt8) cfg.ring.size h.lines := ⟨_, rfl⟩
  have hCl : C.length = cfg.ring.size := by rw [hC, length_content hsz]
  obtain ⟨b, happ, hwb⟩ := appendLoop_returns (s := s) (C := C) (b := s.histCircBuf) (Nat.pos_of_ne_zero hn)
    (by omega) (by rw [hr.held, hC]; rfl)
  -- the last place of the content is not overwritten and holds a zero
  have hzero : (0 : UInt8) ∈ C.drop s.lineBufIndex := by
    have hlast := getElem?_content_last (z := (0 : UInt8)) hsz (by omega)
    rw [← hC] at hlast
    have hget : (C.drop s.lineBufIndex)[cfg.ring.size - 1 - s.lineBufIndex]? = some 0 := by
      rw [List.getElem?_drop, ← hlast]
      congr 1
      omega
    exact List.mem_of_getElem? hget
  obtain ⟨b', heat, hwb'⟩ := eatRemainder_returns (s := { s with
    histIndexLast := cfg.ring.step (cfg.ring.step s.histIndexLast 1) s.lineBufIndex
    histIndexNow := cfg.ring.step (cfg.ring.step s.histIndexLast 1) s.lineBufIndex }) hzero hwb
  rw [hll] at heat
  refine ⟨b', cfg.ring.step (cfg.ring.step s.histIndexLast 1) s.lineBufIndex, ?_, hl, by omega, by omega, ?_⟩
  · unfold cliHistSaveCmd
    rw [get_bind_returns, if_neg hn]
    apply (duplicateCommand_returns hr (Nat.pos_of_ne_zero hn) hfit hz).bind
    rw [decide_eq_false hd, if_neg Bool.false_ne_true, appendCommand, bind_assoc, get_bind_returns]
    rw [PageRing.step_zero hr.last_mem] at happ
    apply happ.bind
    simp only [next_step, modify_bind_returns]
    rw [step_succ]
    exact heat
  · refine ⟨PageRing.step_mem, ?_, ?_⟩
    · have hnew : content 0 cfg.ring.size (h.push s.line hl hz (by omega) (by omega)).lines =
          content 0 (cfg.ring.size - s.lineBufIndex - 1) (fit (cfg.ring.size - s.lineBufIndex - 1) h.lines) ++
            (s.line ++ [0]) := by
        simp only [History.push, content, hll, ← hsize, ← Nat.sub_sub]
      change window cfg.ring b' (cfg.ring.step (cfg.ring.step (cfg.ring.step s.histIndexLast 1) s.lineBufIndex) 1) = _
      rw [PageRing.step_step, window_step (by omega), hwb', hnew,
        ← eat_content h.nonzero hsz (by omega : s.lineBufIndex < cfg.ring.size), ← hC, List.drop_append, hll,
        List.drop_eq_nil_of_le (by omega), List.nil_append, Nat.add_sub_cancel_left, List.take_append, hll,
        List.take_of_length_le (by omega), Nat.add_sub_cancel_left,
        take_one_eat (List.ne_nil_of_mem hzero)]
    · exact (History.place_zero PageRing.step_mem rfl).symm

end Lpc1788Libraries.Cli

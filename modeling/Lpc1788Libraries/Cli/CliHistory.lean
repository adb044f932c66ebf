import Mathlib.Data.List.Induction
import Mathlib.Data.List.Infix
import Lpc1788Libraries.Cli.CliModel
import Lpc1788Libraries.Support.DelimitedRing

namespace Lpc1788Libraries.Cli

open Lpc1788Libraries.Support BoundedProgram BoundedProgram.Prog DelimitedRing

/-- The lines of the history, the newest first, and how many lines back the one shown is. -/
structure History (cfg : Config) where
  lines : List (List UInt8)
  shown : ℕ
  fits : size lines ≤ cfg.historySize
  nonempty : ∀ e ∈ lines, e ≠ []
  nonzero : ∀ e ∈ lines, 0 ∉ e
  short : ∀ e ∈ lines, e.length ≤ cfg.lineLengthMax - 1
  shown_le : shown ≤ lines.length

/-- The places of `cli_hist_circ_buf`. -/
def Config.ring (cfg : Config) : PageRing := ⟨0, cfg.historySize - 1, Nat.zero_le _⟩

/-- What has been typed. -/
def CliState.line (s : CliState) : List UInt8 := (List.range s.lineBufIndex).map s.lineBuf

namespace History

variable {cfg : Config} (h : History cfg)

def empty (cfg : Config) : History cfg := ⟨[], 0, Nat.zero_le _, by simp, by simp, by simp, Nat.zero_le _⟩

/-- The line shown; it is the empty one where none is. -/
def line : List UInt8 := (([] :: h.lines)[h.shown]?).getD []

/-- The place of the first character of the line shown, behind the last one saved at `last`. -/
def place (last : ℕ) : ℕ :=
  cfg.ring.step (cfg.ring.step last 1)
    (if h.shown = 0 then cfg.ring.size - 1 else cfg.ring.size - size (h.lines.take h.shown))

def unshown : History cfg := { h with shown := 0, shown_le := Nat.zero_le _ }

/-- One line further back. -/
def back (hlt : h.shown < h.lines.length) : History cfg := { h with shown := h.shown + 1, shown_le := hlt }

/-- One line less far back. -/
def forth : History cfg :=
  { h with shown := h.shown - 1, shown_le := Nat.le_trans (Nat.sub_le _ _) h.shown_le }

/-- The newest line and those of the others that still fit. -/
def push (l : List UInt8) (hl : l ≠ []) (hz : 0 ∉ l) (hlen : l.length ≤ cfg.lineLengthMax - 1)
    (hfit : l.length + 1 ≤ cfg.historySize) : History cfg where
  lines := l :: fit (cfg.historySize - (l.length + 1)) h.lines
  shown := 0
  fits := by
    have := @size_fit_le _ (cfg.historySize - (l.length + 1)) h.lines
    rw [size_cons]
    omega
  nonempty := by
    rintro e (_ | ⟨_, he⟩)
    · exact hl
    · exact h.nonempty e (fit_sublist.subset he)
  nonzero := by
    rintro e (_ | ⟨_, he⟩)
    · exact hz
    · exact h.nonzero e (fit_sublist.subset he)
  short := by
    rintro e (_ | ⟨_, he⟩)
    · exact hlen
    · exact h.short e (fit_sublist.subset he)
  shown_le := Nat.zero_le _

@[simp] theorem unshown_lines : h.unshown.lines = h.lines := rfl

@[simp] theorem unshown_shown : h.unshown.shown = 0 := rfl

@[simp] theorem back_lines {hlt : h.shown < h.lines.length} : (h.back hlt).lines = h.lines := rfl

@[simp] theorem back_shown {hlt : h.shown < h.lines.length} : (h.back hlt).shown = h.shown + 1 := rfl

@[simp] theorem forth_lines : h.forth.lines = h.lines := rfl

@[simp] theorem forth_shown : h.forth.shown = h.shown - 1 := rfl

theorem line_nonzero : 0 ∉ h.line := by
  unfold line
  cases hk : h.shown with
  | zero => simp
  | succ k =>
    have hlt : k < h.lines.length := by have := h.shown_le; omega
    rw [List.getElem?_cons_succ, List.getElem?_eq_getElem hlt]
    exact h.nonzero _ (List.getElem_mem hlt)

theorem length_line_le : h.line.length ≤ cfg.lineLengthMax - 1 := by
  unfold line
  cases hk : h.shown with
  | zero => simp
  | succ k =>
    have hlt : k < h.lines.length := by have := h.shown_le; omega
    rw [List.getElem?_cons_succ, List.getElem?_eq_getElem hlt]
    exact h.short _ (List.getElem_mem hlt)

end History

/-- The ring holds the history. -/
structure Represents (cfg : Config) (s : CliState) (h : History cfg) : Prop where
  last_mem : cfg.ring.Mem s.histIndexLast
  held : window cfg.ring s.histCircBuf (cfg.ring.step s.histIndexLast 1) = content 0 cfg.ring.size h.lines
  now_eq : s.histIndexNow = h.place s.histIndexLast

section places

variable {cfg : Config}

theorem size_ring (hH : 0 < cfg.historySize) : cfg.ring.size = cfg.historySize := by
  simp only [Config.ring, PageRing.size]
  omega

theorem next_eq {j : ℕ} (hj : cfg.ring.Mem j) : cliHistCircBufIndexNext cfg j = cfg.ring.next j := by
  have hle : j ≤ cfg.historySize - 1 := hj.2
  have hhi : cfg.ring.hi = cfg.historySize - 1 := rfl
  simp only [cliHistCircBufIndexNext, PageRing.next]
  by_cases h : j = cfg.ring.hi
  · rw [if_pos (by omega), if_pos h]
    rfl
  · rw [if_neg (by omega), if_neg h]

theorem prev_eq (j : ℕ) : cliHistCircBufIndexPrev cfg j = cfg.ring.prev j := rfl

theorem next_iterate {p i k : ℕ} : (cliHistCircBufIndexNext cfg)^[k] (cfg.ring.step p i) = cfg.ring.step p (i + k) := by
  induction k with
  | zero => rfl
  | succ k ih => rw [Function.iterate_succ_apply', ih, next_eq PageRing.step_mem, PageRing.next_step, Nat.add_assoc]

theorem prev_iterate {p i k : ℕ} (h : k ≤ i) :
    (cliHistCircBufIndexPrev cfg)^[k] (cfg.ring.step p i) = cfg.ring.step p (i - k) := by
  induction k with
  | zero => rfl
  | succ k ih =>
    rw [Function.iterate_succ_apply', ih (by omega), prev_eq, show i - k = i - (k + 1) + 1 by omega,
      PageRing.prev_step]

theorem step_last {last : ℕ} (hm : cfg.ring.Mem last) :
    cfg.ring.step (cfg.ring.step last 1) (cfg.ring.size - 1) = last := by
  have := @PageRing.size_pos cfg.ring
  rw [PageRing.step_step, show 1 + (cfg.ring.size - 1) = cfg.ring.size by omega, PageRing.step_size hm]

theorem prev_step_zero {last : ℕ} (hm : cfg.ring.Mem last) :
    cfg.ring.prev (cfg.ring.step (cfg.ring.step last 1) 0) = last := by
  have hpos := @PageRing.size_pos cfg.ring
  have hwhole := @PageRing.step_add_size cfg.ring (cfg.ring.step last 1) 0
  rw [← hwhole, show 0 + cfg.ring.size = cfg.ring.size - 1 + 1 by omega, PageRing.prev_step, step_last hm]

theorem History.place_zero {h : History cfg} {last : ℕ} (hm : cfg.ring.Mem last) (hs : h.shown = 0) :
    h.place last = last := by
  rw [place, if_pos hs, step_last hm]

end places

section walking

variable {cfg : Config} {s t : CliState}

theorem findZero_returns {step : ℕ → ℕ} {k i : ℕ} (hnz : ∀ j < k, s.histCircBuf (step^[j] i) ≠ 0)
    (hz : s.histCircBuf (step^[k] i) = 0) : (findZero step i).Returns s (step^[k] i) s := by
  unfold findZero
  induction k generalizing i with
  | zero =>
    apply loop_inr
    have h : s.histCircBuf i = 0 := hz
    simp [h]
  | succ k ih =>
    have h : s.histCircBuf i ≠ 0 := hnz 0 (Nat.succ_pos k)
    apply loop_inl (y := step i) (t := s)
    · simp [h]
    · apply ih
      · intro j hj
        exact hnz (j + 1) (by omega)
      · exact hz

/-- The line and the terminal with `e` in place of what was typed. -/
def showLine (s : CliState) (e : List UInt8) : CliState := { s with
  lineBuf := fun i => (e[i]?).getD (s.lineBuf i)
  lineBufIndex := e.length
  sent := s.sent ++ (List.replicate s.lineBufIndex [.char 0x08, .char 0x20, .char 0x08]).flatten ++ e.map .char }

theorem showLine_line (e : List UInt8) : (showLine s e).line = e := by
  apply List.ext_getElem?
  intro i
  by_cases hi : i < e.length
  · simp [CliState.line, showLine, hi]
  · simp [CliState.line, showLine, hi]

/-- Characters from a place of the line buffer on, with their echo. -/
def put (s : CliState) (i : ℕ) (e : List UInt8) : CliState := { s with
  lineBuf := fun k => if i ≤ k then (e[k - i]?).getD (s.lineBuf k) else s.lineBuf k
  sent := s.sent ++ e.map .char }

theorem put_nil {i : ℕ} : put s i [] = s := by simp [put]

theorem put_cons {i : ℕ} {c : UInt8} {e : List UInt8} : put s i (c :: e) = put { s with
    lineBuf := Function.update s.lineBuf i c
    sent := s.sent ++ [.char c] } (i + 1) e := by
  unfold put
  congr 1
  · funext k
    change _ = if i + 1 ≤ k then (e[k - (i + 1)]?).getD (Function.update s.lineBuf i c k)
      else Function.update s.lineBuf i c k
    by_cases hk : i + 1 ≤ k
    · have hki : k - i = k - (i + 1) + 1 := by omega
      rw [if_pos (by omega), if_pos hk, hki, List.getElem?_cons_succ, Function.update_of_ne (by omega)]
    · by_cases hki : k = i
      · subst hki
        simp
      · rw [if_neg (by omega), if_neg hk, Function.update_of_ne hki]
  · simp

theorem copyLoop_returns {e : List UInt8} {i j : ℕ} (hlen : i + e.length ≤ cfg.lineLengthMax - 1)
    (hchar : ∀ k (hk : k < e.length), s.histCircBuf ((cliHistCircBufIndexNext cfg)^[k] j) = e[k])
    (hne : 0 ∉ e) (hend : s.histCircBuf ((cliHistCircBufIndexNext cfg)^[e.length] j) = 0) :
    (Prog.loop (copyRound cfg) (i, j)).Returns s (i + e.length) (put s i e) := by
  induction e generalizing i j s with
  | nil =>
    apply loop_inr
    have h : s.histCircBuf j = 0 := hend
    simp [copyRound, h, put_nil]
  | cons c e ih =>
    have hc : s.histCircBuf j = c := hchar 0 (Nat.succ_pos _)
    have hc0 : c ≠ 0 := fun h => hne (h ▸ List.mem_cons_self)
    rw [List.length_cons] at hlen
    rw [put_cons, List.length_cons, ← Nat.add_assoc, Nat.add_right_comm]
    apply loop_inl (y := (i + 1, cliHistCircBufIndexNext cfg j)) (t := { s with
      lineBuf := Function.update s.lineBuf i c
      sent := s.sent ++ [.char c] })
    · simp only [copyRound, get_bind_returns, hc, if_neg hc0, xputc, send, modify_bind_returns, setLine, bind_assoc,
        check_bind_returns, returns_pure]
      exact ⟨by omega, trivial, trivial⟩
    · exact ih (by omega) (fun k hk => hchar (k + 1) (by simpa using hk)) (fun h => hne (List.mem_cons_of_mem _ h)) hend

theorem cliHistCopy_returns {e : List UInt8} (hlen : e.length ≤ cfg.lineLengthMax - 1)
    (hchar : ∀ k (hk : k < e.length), s.histCircBuf ((cliHistCircBufIndexNext cfg)^[k] s.histIndexNow) = e[k])
    (hne : 0 ∉ e) (hend : s.histCircBuf ((cliHistCircBufIndexNext cfg)^[e.length] s.histIndexNow) = 0) :
    (cliHistCopy cfg).Returns s () (showLine s e) := by
  unfold cliHistCopy
  rw [get_bind_returns, vt100DelChars, modify_bind_returns]
  have hloop := @copyLoop_returns cfg { s with sent := s.sent ++
    (List.replicate s.lineBufIndex [.char 0x08, .char 0x20, .char 0x08]).flatten }
    e 0 s.histIndexNow (by omega) hchar hne hend
  apply hloop.bind
  rw [returns_modify]
  simp [showLine, put]

end walking

namespace History

variable {cfg : Config} {h : History cfg} {newer older : List (List UInt8)} {e : List UInt8} {last : ℕ}

theorem exists_shown (hs : h.shown ≠ 0) :
    ∃ newer e older, h.lines = newer ++ e :: older ∧ h.shown = newer.length + 1 := by
  have hlt : h.shown - 1 < h.lines.length := by have := h.shown_le; omega
  refine ⟨h.lines.take (h.shown - 1), h.lines[h.shown - 1], h.lines.drop (h.shown - 1 + 1), ?_, ?_⟩
  · rw [List.cons_getElem_drop_succ, List.take_append_drop]
  · rw [List.length_take]
    omega

theorem place_eq (hl : h.lines = newer ++ e :: older) (hs : h.shown = newer.length + 1) :
    h.place last = cfg.ring.step (cfg.ring.step last 1) (cfg.ring.size - size newer - (e.length + 1)) := by
  have htake : h.lines.take h.shown = newer ++ [e] := by
    rw [hl, hs, List.take_append, List.take_of_length_le (by omega), Nat.add_sub_cancel_left]
    rfl
  rw [place, if_neg (by omega), htake, size_append, size_cons, size_nil, Nat.add_zero, Nat.sub_sub]

theorem line_eq (hl : h.lines = newer ++ e :: older) (hs : h.shown = newer.length + 1) : h.line = e := by
  rw [line, hs, List.getElem?_cons_succ, hl, List.getElem?_append_right (Nat.le_refl _), Nat.sub_self]
  rfl

theorem line_zero (hs : h.shown = 0) : h.line = [] := by
  rw [line, hs]
  rfl

end History

namespace Represents

variable {cfg : Config} {s : CliState} {h : History cfg} {newer older : List (List UInt8)} {e : List UInt8} {j : ℕ}

theorem size_le (hH : 0 < cfg.historySize) : size h.lines ≤ cfg.ring.size := by
  rw [size_ring hH]
  exact h.fits

theorem last_zero (hr : Represents cfg s h) (hH : 0 < cfg.historySize) : s.histCircBuf s.histIndexLast = 0 := by
  have hpos := @PageRing.size_pos cfg.ring
  have hz := @window_before _ 0 [] h.lines _ _ _ hr.held (size_le hH)
  rwa [size_nil, Nat.sub_zero, Nat.add_comm, PageRing.step_add_size, step_last hr.last_mem] at hz

theorem shown_chars (hr : Represents cfg s h) (hH : 0 < cfg.historySize) :
    (∀ k (hk : k < h.line.length),
      s.histCircBuf ((cliHistCircBufIndexNext cfg)^[k] s.histIndexNow) = h.line[k]) ∧
      s.histCircBuf ((cliHistCircBufIndexNext cfg)^[h.line.length] s.histIndexNow) = 0 := by
  by_cases hs : h.shown = 0
  · have hline := h.line_zero hs
    rw [hr.now_eq, History.place_zero hr.last_mem hs]
    constructor
    · intro k hk
      rw [hline] at hk
      exact absurd hk (Nat.not_lt_zero k)
    · rw [hline]
      exact hr.last_zero hH
  · obtain ⟨newer, e, older, hl, hsh⟩ := History.exists_shown hs
    have hw := hr.held
    have hsz := size_le (h := h) hH
    rw [hl] at hw hsz
    have hline := History.line_eq hl hsh
    rw [hr.now_eq, History.place_eq hl hsh]
    constructor
    · intro k hk
      rw [next_iterate]
      simp only [hline] at hk ⊢
      exact window_word hw hsz hk
    · rw [hline, next_iterate]
      exact window_word_end hw hsz

theorem copy (hr : Represents cfg s h) (hH : 0 < cfg.historySize) :
    (cliHistCopy cfg).Returns s () (showLine s h.line) := by
  obtain ⟨hchar, hend⟩ := hr.shown_chars hH
  exact cliHistCopy_returns h.length_line_le hchar h.line_nonzero hend

theorem findStart (hr : Represents cfg s h) (hH : 0 < cfg.historySize) (hl : h.lines = newer ++ e :: older)
    (hj : j < e.length) :
    (findZero (cliHistCircBufIndexPrev cfg)
      (cfg.ring.step (cfg.ring.step s.histIndexLast 1) (cfg.ring.size - size newer - (e.length + 1) + j))).Returns s
      (cfg.ring.step (cfg.ring.step s.histIndexLast 1)
        (cfg.ring.size - size newer - (e.length + 1) + (cfg.ring.size - 1))) s := by
  have hpos := @PageRing.size_pos cfg.ring
  have hw := hr.held
  have hsz := size_le (h := h) hH
  have hne : 0 ∉ e := h.nonzero e (by rw [hl]; simp)
  rw [hl] at hw hsz
  have hwhole := @PageRing.step_add_size cfg.ring (cfg.ring.step s.histIndexLast 1)
    (cfg.ring.size - size newer - (e.length + 1) + j)
  have hzero : s.histCircBuf (cfg.ring.step (cfg.ring.step s.histIndexLast 1)
      (cfg.ring.size - size newer - (e.length + 1) + (cfg.ring.size - 1))) = 0 := by
    have hsplit : newer ++ e :: older = (newer ++ [e]) ++ older := by simp
    rw [hsplit] at hw hsz
    have hb := window_before hw hsz
    rwa [size_append, size_cons, size_nil, Nat.add_zero, ← Nat.sub_sub] at hb
  rw [← hwhole, show cfg.ring.size - size newer - (e.length + 1) + (cfg.ring.size - 1) =
    cfg.ring.size - size newer - (e.length + 1) + j + cfg.ring.size - (j + 1) by omega] at *
  rw [← prev_iterate (by omega)] at hzero ⊢
  apply findZero_returns ?_ hzero
  intro k hk
  rw [prev_iterate (by omega), show cfg.ring.size - size newer - (e.length + 1) + j + cfg.ring.size - k =
    cfg.ring.size - size newer - (e.length + 1) + (j - k) + cfg.ring.size by omega, PageRing.step_add_size,
    window_word hw hsz (by omega : j - k < e.length)]
  intro h0
  exact hne (h0 ▸ List.getElem_mem _)

theorem older_oldest (hr : Represents cfg s h) (hH : 0 < cfg.historySize) (hs : h.shown = h.lines.length) :
    (cliHistLoadOlderCmd cfg).Returns s () s := by
  have hpos := @PageRing.size_pos cfg.ring
  have hsz := size_le (h := h) hH
  have hnow : s.histIndexNow = cfg.ring.step (cfg.ring.step s.histIndexLast 1)
      (if h.shown = 0 then cfg.ring.size - 1 else cfg.ring.size - size h.lines) := by
    rw [hr.now_eq, History.place, hs, List.take_length]
  obtain ⟨c, hc, hnow'⟩ : ∃ c ≤ cfg.ring.size - size h.lines,
      s.histIndexNow = cfg.ring.step (cfg.ring.step s.histIndexLast 1) c := by
    refine ⟨_, ?_, hnow⟩
    split
    · have hnil : h.lines = [] := List.eq_nil_of_length_eq_zero (by omega)
      rw [hnil, size_nil]
      omega
    · exact Nat.le_refl _
  unfold cliHistLoadOlderCmd
  simp only [get_bind_returns, prev_eq, hnow']
  rcases c with _ | _ | c
  · -- the ring is full
    simp only [prev_step_zero hr.last_mem, ↓reduceIte, returns_pure, and_self]
  · have hz := hr.last_zero hH
    simp only [PageRing.prev_step, prev_step_zero hr.last_mem, hz, ↓reduceIte, returns_pure, and_self,
      ite_self]
  · have hz := window_gap hr.held hsz (by omega : c < _)
    simp only [PageRing.prev_step, hz, ↓reduceIte, returns_pure, and_self, ite_self]

theorem older_single (hr : Represents cfg s h) (hH : 0 < cfg.historySize) (hs : h.shown = 0)
    (hl : h.lines = e :: older) (he : e.length = 1) : (cliHistLoadOlderCmd cfg).Returns s () s := by
  have hpos := @PageRing.size_pos cfg.ring
  have hw := hr.held
  have hsz := size_le (h := h) hH
  have hnow : s.histIndexNow = cfg.ring.step (cfg.ring.step s.histIndexLast 1) (cfg.ring.size - 1) := by
    rw [hr.now_eq, History.place, if_pos hs]
  rw [hl] at hw hsz
  have hz := @window_before _ _ [e] older _ _ _ hw hsz
  rw [size_cons, size_nil, he, Nat.add_zero] at hz
  have hsz' := hsz
  rw [size_cons, he] at hsz'
  have hone : cfg.ring.size - (1 + 1) + (cfg.ring.size - 1) + 1 = cfg.ring.size - 2 + cfg.ring.size := by omega
  have hprev : cfg.ring.prev (cfg.ring.step (cfg.ring.step s.histIndexLast 1) (cfg.ring.size - 2)) =
      cfg.ring.step (cfg.ring.step s.histIndexLast 1) (cfg.ring.size - (1 + 1) + (cfg.ring.size - 1)) := by
    rw [← PageRing.step_add_size, ← hone, PageRing.prev_step]
  unfold cliHistLoadOlderCmd
  simp only [get_bind_returns, prev_eq, hnow]
  rw [show cfg.ring.size - 1 = cfg.ring.size - 2 + 1 by omega, PageRing.prev_step, hprev, hz]
  simp only [↓reduceIte, returns_pure, and_self, ite_self]

theorem older_found (hr : Represents cfg s h) (hH : 0 < cfg.historySize) (hlt : h.shown < h.lines.length)
    (hone : h.shown = 0 → (h.lines[h.shown]).length ≠ 1) :
    (cliHistLoadOlderCmd cfg).Returns s ()
      (showLine { s with histIndexNow := (h.back hlt).place s.histIndexLast } (h.back hlt).line) := by
  have hpos := @PageRing.size_pos cfg.ring
  have hsz := size_le (h := h) hH
  obtain ⟨newer, hnewer⟩ : ∃ newer, newer = h.lines.take h.shown := ⟨_, rfl⟩
  obtain ⟨e, he⟩ : ∃ e, e = h.lines[h.shown] := ⟨_, rfl⟩
  obtain ⟨older, holder⟩ : ∃ older, older = h.lines.drop (h.shown + 1) := ⟨_, rfl⟩
  have hl : h.lines = newer ++ e :: older := by
    rw [hnewer, he, holder, List.cons_getElem_drop_succ, List.take_append_drop]
  have hnl : newer.length = h.shown := by
    rw [hnewer, List.length_take]
    omega
  have hpos' : 0 < e.length := List.length_pos_iff.mpr (h.nonempty e (by rw [hl]; simp))
  rw [hl, size_append, size_cons] at hsz
  have hplace : (h.back hlt).place s.histIndexLast = cfg.ring.step (cfg.ring.step s.histIndexLast 1)
      (cfg.ring.size - size newer - (e.length + 1)) := History.place_eq hl (by rw [hnl]; rfl)
  have hnot : ∀ i, i < cfg.ring.size - 1 →
      cfg.ring.step (cfg.ring.step s.histIndexLast 1) i ≠ s.histIndexLast := by
    intro i hi h'
    have hinj := (PageRing.step_inj (r := cfg.ring) (by omega) (by omega)).mp
      (h'.trans (step_last hr.last_mem).symm)
    omega
  -- the way back comes to a character of the line
  obtain ⟨j, hj, hprev, hprev'⟩ : ∃ j < e.length, cfg.ring.prev s.histIndexNow ≠ s.histIndexLast ∧
      cfg.ring.prev (cfg.ring.prev s.histIndexNow) = cfg.ring.step (cfg.ring.step s.histIndexLast 1)
        (cfg.ring.size - size newer - (e.length + 1) + j) := by
    rw [hr.now_eq, History.place]
    by_cases h0 : h.shown = 0
    · have hnil : newer = [] := List.eq_nil_of_length_eq_zero (by omega)
      have hlen : e.length ≠ 1 := he ▸ hone h0
      rw [hnil, size_nil] at hsz ⊢
      refine ⟨e.length - 2, by omega, ?_⟩
      rw [if_pos h0, show cfg.ring.size - 1 = cfg.ring.size - 3 + 1 + 1 by omega, PageRing.prev_step,
        PageRing.prev_step]
      exact ⟨hnot _ (by omega), congrArg _ (by omega)⟩
    · have hsn := @length_le_size _ newer
      refine ⟨e.length - 1, by omega, ?_⟩
      rw [if_neg h0, ← hnewer, show cfg.ring.size - size newer = cfg.ring.size - size newer - 2 + 1 + 1 by omega,
        PageRing.prev_step, PageRing.prev_step]
      exact ⟨hnot _ (by omega), congrArg _ (by omega)⟩
  have hchar : s.histCircBuf (cfg.ring.prev (cfg.ring.prev s.histIndexNow)) ≠ 0 := by
    have hne : 0 ∉ e := h.nonzero e (by rw [hl]; simp)
    have hw := hr.held
    have hsz' := size_le (h := h) hH
    rw [hl] at hw hsz'
    rw [hprev', window_word hw hsz' hj]
    exact fun h0 => hne (h0 ▸ List.getElem_mem _)
  have hback : Represents cfg { s with histIndexNow := (h.back hlt).place s.histIndexLast } (h.back hlt) :=
    ⟨hr.last_mem, hr.held, rfl⟩
  have hnext : cliHistCircBufIndexNext cfg (cfg.ring.step (cfg.ring.step s.histIndexLast 1)
      (cfg.ring.size - size newer - (e.length + 1) + (cfg.ring.size - 1))) =
      (h.back hlt).place s.histIndexLast := by
    rw [next_eq PageRing.step_mem, PageRing.next_step, hplace, Nat.add_assoc,
      Nat.sub_add_cancel hpos, PageRing.step_add_size]
  have hfind := hr.findStart hH hl hj
  rw [← hprev'] at hfind
  unfold cliHistLoadOlderCmd
  simp only [get_bind_returns, prev_eq, hprev, hchar, ↓reduceIte]
  apply hfind.bind
  rw [modify_bind_returns, hnext]
  exact hback.copy hH

theorem newer_shown (hr : Represents cfg s h) (hH : 0 < cfg.historySize) :
    (cliHistLoadNewerCmd cfg).Returns s ()
      (showLine { s with histIndexNow := h.forth.place s.histIndexLast } h.forth.line) := by
  have hpos := @PageRing.size_pos cfg.ring
  have hforth : Represents cfg { s with histIndexNow := h.forth.place s.histIndexLast } h.forth :=
    ⟨hr.last_mem, hr.held, rfl⟩
  obtain ⟨hchar, hend⟩ := hr.shown_chars hH
  have hfind := findZero_returns (s := s) (fun k hk h0 => h.line_nonzero (by
    rw [hchar k hk] at h0
    exact h0 ▸ List.getElem_mem hk)) hend
  have hplace : (if (cliHistCircBufIndexNext cfg)^[h.line.length] s.histIndexNow ≠ s.histIndexLast then
      cliHistCircBufIndexNext cfg ((cliHistCircBufIndexNext cfg)^[h.line.length] s.histIndexNow)
      else (cliHistCircBufIndexNext cfg)^[h.line.length] s.histIndexNow) = h.forth.place s.histIndexLast := by
    by_cases hs : h.shown = 0
    · have hf : h.forth.shown = 0 := by rw [History.forth_shown, hs]
      rw [h.line_zero hs, hr.now_eq, History.place_zero hr.last_mem hs, History.place_zero hr.last_mem hf]
      simp
    · obtain ⟨newer, e, older, hl, hsh⟩ := History.exists_shown hs
      have hsz := size_le (h := h) hH
      rw [hl, size_append, size_cons] at hsz
      have hf : h.forth.shown = newer.length := by rw [History.forth_shown, hsh, Nat.add_sub_cancel]
      rw [History.line_eq hl hsh, hr.now_eq, History.place_eq hl hsh, next_iterate, History.place, hf,
        show cfg.ring.size - size newer - (e.length + 1) + e.length = cfg.ring.size - size newer - 1 by omega,
        next_eq PageRing.step_mem, PageRing.next_step, Nat.sub_add_cancel (by omega)]
      cases newer with
      | nil => simp [step_last hr.last_mem]
      | cons d newer =>
        have htake : h.forth.lines.take (d :: newer).length = d :: newer := by
          change h.lines.take _ = _
          rw [hl, List.take_append_of_le_length (Nat.le_refl _), List.take_length]
        have hne : cfg.ring.step (cfg.ring.step s.histIndexLast 1) (cfg.ring.size - size (d :: newer) - 1) ≠
            s.histIndexLast := by
          intro h'
          have hinj := (PageRing.step_inj (r := cfg.ring) (by omega) (by omega)).mp
            (h'.trans (step_last hr.last_mem).symm)
          rw [size_cons] at hinj hsz
          omega
        rw [if_pos hne, htake, if_neg (by simp)]
  unfold cliHistLoadNewerCmd
  rw [get_bind_returns]
  apply hfind.bind
  rw [hplace, modify_bind_returns]
  exact hforth.copy hH

end Represents

end Lpc1788Libraries.Cli

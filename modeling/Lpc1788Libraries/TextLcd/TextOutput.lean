import Lpc1788Libraries.TextLcd.Hd44780

namespace Lpc1788Libraries.TextLcd

variable {opts : Hd44780Options} {next : ℕ → ℕ} {ac : ℕ} {rows cols : ℕ} {col row x y c : UInt8} {str : List UInt8}

section cells

/-- A place of the display. -/
def Cell.On (rows cols : ℕ) (cell : Cell) : Prop := cell.row < rows ∧ cell.col < cols

theorem Cell.On.below {cell : Cell} (h : cell.On rows cols) : (cell.below rows).On rows cols :=
  ⟨Nat.mod_lt _ (Nat.zero_lt_of_lt h.1), h.2⟩

theorem Cell.On.advance {cell : Cell} (h : cell.On rows cols) : (cell.advance rows cols).On rows cols := by
  unfold Cell.advance
  split_ifs with hnext
  · exact ⟨h.1, hnext⟩
  · exact ⟨Nat.mod_lt _ (Nat.zero_lt_of_lt h.1), Nat.zero_lt_of_lt h.2⟩

theorem Cell.text_cells {cell : Cell} (h : cell.On rows cols) (moved : Bool) {a : ℕ}
    (ha : .cursor a ∈ cell.text rows cols moved str) : ∃ cell : Cell, cell.On rows cols ∧ a = cell.address := by
  induction str generalizing cell moved with
  | nil => exact absurd ha List.not_mem_nil
  | cons c str ih =>
    unfold Cell.text at ha
    rcases List.mem_append.mp ha with ha | ha
    · cases moved with
      | false => exact absurd ha List.not_mem_nil
      | true => exact ⟨cell, h, Event.cursor.inj (List.mem_singleton.mp ha)⟩
    · have hfirst : Cell.On rows cols ⟨0, cell.row⟩ := ⟨h.1, Nat.zero_lt_of_lt h.2⟩
      split_ifs at ha
      · rcases List.mem_cons.mp ha with ha | ha
        · exact ⟨_, h.below, Event.cursor.inj ha⟩
        · exact ih h.below _ ha
      · rcases List.mem_cons.mp ha with ha | ha
        · exact ⟨_, hfirst, Event.cursor.inj ha⟩
        · exact ih hfirst _ ha
      · rcases List.mem_cons.mp ha with ha | ha
        · exact absurd ha (by simp)
        · exact ih h.advance _ ha

theorem offset_ne {r rows : ℕ} (hrows : rows ≤ 4) (hr : r < rows) (k : ℕ) :
    (Cell.offset r + k + 127) % 0x80 ≠ (Cell.offset ((r + 1) % rows) + k) % 0x80 := by
  have hlt : r < 4 := hr.trans_le hrows
  by_cases hnext : r + 1 < rows
  · have hlast : r < 3 := by omega
    rw [Nat.mod_eq_of_lt hnext]
    interval_cases r
    · change (0 + k + 127) % 128 ≠ (64 + k) % 128
      omega
    · change (64 + k + 127) % 128 ≠ (20 + k) % 128
      omega
    · change (20 + k + 127) % 128 ≠ (84 + k) % 128
      omega
  · have hlast : r + 1 = rows := by omega
    rw [hlast, Nat.mod_self]
    interval_cases r
    · change (0 + k + 127) % 128 ≠ (0 + k) % 128
      omega
    · change (64 + k + 127) % 128 ≠ (0 + k) % 128
      omega
    · change (20 + k + 127) % 128 ≠ (0 + k) % 128
      omega
    · change (84 + k + 127) % 128 ≠ (0 + k) % 128
      omega

end cells

section cursor

theorem or_address (b : UInt8) : (0x80 ||| b).toNat % 0x80 = b.toNat % 0x80 := by
  rw [UInt8.toNat_or]
  change (128 ||| b.toNat) % 2 ^ 7 = b.toNat % 2 ^ 7
  rw [Nat.or_mod_two_pow]
  change 0 ||| b.toNat % 2 ^ 7 = _
  exact Nat.zero_or _

theorem rowOffsets_spec (h : row.toNat < 4) : ∃ offset : UInt8, rowOffsets[row.toNat]? = some offset ∧
    offset.toNat = Cell.offset row.toNat := by
  generalize row.toNat = r at h
  interval_cases r
  · exact ⟨0x00, rfl, rfl⟩
  · exact ⟨0x40, rfl, rfl⟩
  · exact ⟨0x14, rfl, rfl⟩
  · exact ⟨0x54, rfl, rfl⟩

/-- The display has at most four rows. -/
structure Hd44780Options.Valid (opts : Hd44780Options) : Prop where
  pos : 0 < opts.rows.toNat
  le : opts.rows.toNat ≤ 4

theorem setLocation_sends (h : opts.Valid) (col row : UInt8) : ∃ row' cmd, row'.toNat < opts.rows.toNat ∧
    (row.toNat < opts.rows.toNat → row' = row) ∧
    setLocation opts col row = some ({ opts with currentX := col, currentY := row' }, [.cmd cmd]) ∧
    cmd.toNat % 0x80 = (Cell.offset row'.toNat + col.toNat) % 0x80 := by
  have hpos := h.pos
  have hle := h.le
  have hrow : (if row ≥ opts.rows then 0 else row).toNat < opts.rows.toNat := by
    split_ifs with hge
    · exact hpos
    · exact UInt8.lt_iff_toNat_lt.mp (UInt8.not_le.mp hge)
  obtain ⟨offset, hoffset, hval⟩ := rowOffsets_spec (hrow.trans_le hle)
  refine ⟨if row ≥ opts.rows then 0 else row, 0x80 ||| (col + offset), hrow, ?_, ?_, ?_⟩
  · intro hlt
    exact if_neg (UInt8.not_le.mpr (UInt8.lt_iff_toNat_lt.mpr hlt))
  · unfold setLocation
    dsimp only
    rw [hoffset]
    rfl
  · rw [or_address, UInt8.toNat_add, hval]
    omega

theorem lcdCursorSet_returns (h : opts.Valid) (col row : UInt8) : ∃ x' y' cmd, y'.toNat < opts.rows.toNat ∧
    lcdCursorSet opts col row = some ({ opts with currentX := x', currentY := y' }, [.cmd cmd]) := by
  unfold lcdCursorSet
  split_ifs
  · obtain ⟨row', cmd, hlt, -, hset, -⟩ := setLocation_sends h (col - 1) (row - 1)
    exact ⟨_, row', cmd, hlt, hset⟩
  · obtain ⟨row', cmd, hlt, -, hset, -⟩ := setLocation_sends h col row
    exact ⟨_, row', cmd, hlt, hset⟩

theorem toNat_succ (h : row.toNat < 4) : (row + 1).toNat = row.toNat + 1 := by
  rw [UInt8.toNat_add]
  change (row.toNat + 1) % 256 = _
  omega

theorem lcdCursorSet_succ (h : opts.Valid) (hrow : row.toNat < opts.rows.toNat) (col : UInt8) : ∃ cmd,
    lcdCursorSet opts col (row + 1) = some ({ opts with currentX := col - 1, currentY := row }, [.cmd cmd]) ∧
    cmd.toNat % 0x80 = (Cell.offset row.toNat + col.toNat + 127) % 0x80 := by
  obtain ⟨row', cmd, -, hsame, hset, hcmd⟩ := setLocation_sends h (col - 1) row
  have hne : row + 1 ≠ 0 := by
    intro he
    have hsucc := toNat_succ (hrow.trans_le h.le)
    rw [he] at hsucc
    exact absurd hsucc (Nat.succ_ne_zero _).symm
  have hback : row + 1 - 1 = row := by simp
  rw [hsame hrow] at hset hcmd
  refine ⟨cmd, ?_, ?_⟩
  · unfold lcdCursorSet
    rw [if_pos hne, hback]
    exact hset
  · have hcol : (col - 1).toNat = (col.toNat + 255) % 256 := by
      rw [UInt8.toNat_sub]
      change (256 - 1 + col.toNat) % 256 = _
      omega
    rw [hcmd, hcol]
    omega

theorem lcdCursorSet_zero (h : opts.Valid) (col : UInt8) : ∃ cmd,
    lcdCursorSet opts col 0 = some ({ opts with currentX := col, currentY := 0 }, [.cmd cmd]) ∧
    cmd.toNat % 0x80 = col.toNat % 0x80 := by
  obtain ⟨row', cmd, -, hsame, hset, hcmd⟩ := setLocation_sends h col 0
  rw [hsame h.pos] at hset hcmd
  refine ⟨cmd, hset, hcmd.trans ?_⟩
  change (0 + col.toNat) % 128 = _
  rw [Nat.zero_add]

end cursor

section puts

theorem bind_of_some {α β : Type} {o : Option α} {a : α} (h : o = some a) (f : α → Option β) : (o >>= f) = f a := by
  rw [h]
  rfl

theorem lcdPutsLoop_cons {o1 o2 o3 : Hd44780Options} {wrap sent rest : List Transfer} (hwrap : lcdWrap opts = some (o1, wrap))
    (hchar : lcdPutsChar o1 c = some (o2, sent)) (hloop : lcdPutsLoop o2 str = some (o3, rest)) :
    lcdPutsLoop opts (c :: str) = some (o3, wrap ++ sent ++ rest) := by
  unfold lcdPutsLoop
  rw [bind_of_some hwrap]
  dsimp only
  rw [bind_of_some hchar]
  dsimp only
  rw [bind_of_some hloop]
  rfl

theorem lcdWrap_returns (h : opts.Valid) : ∃ o1 wrap, lcdWrap opts = some (o1, wrap) ∧ o1.Valid := by
  unfold lcdWrap
  split_ifs
  · have hvalid : Hd44780Options.Valid { opts with currentX := 0, currentY := opts.currentY + 1 } := ⟨h.pos, h.le⟩
    obtain ⟨x', y', cmd, -, hset⟩ := lcdCursorSet_returns hvalid 0 (opts.currentY + 1)
    exact ⟨_, _, hset, h.pos, h.le⟩
  · exact ⟨opts, [], rfl, h⟩

theorem lcdPutsChar_returns (h : opts.Valid) (c : UInt8) : ∃ o2 sent, lcdPutsChar opts c = some (o2, sent) ∧ o2.Valid := by
  unfold lcdPutsChar
  split_ifs
  · have hvalid : Hd44780Options.Valid { opts with currentY := opts.currentY + 1 } := ⟨h.pos, h.le⟩
    obtain ⟨x', y', cmd, -, hset⟩ := lcdCursorSet_returns hvalid opts.currentX (opts.currentY + 1)
    exact ⟨_, _, hset, h.pos, h.le⟩
  · obtain ⟨x', y', cmd, -, hset⟩ := lcdCursorSet_returns h 0 opts.currentY
    exact ⟨_, _, hset, h.pos, h.le⟩
  · exact ⟨_, _, rfl, h.pos, h.le⟩

theorem lcdPutsLoop_returns (h : opts.Valid) (str : List UInt8) : ∃ o3 sent, lcdPutsLoop opts str = some (o3, sent) := by
  induction str generalizing opts with
  | nil => exact ⟨opts, [], rfl⟩
  | cons c str ih =>
    obtain ⟨o1, wrap, hwrap, h1⟩ := lcdWrap_returns h
    obtain ⟨o2, sent, hchar, h2⟩ := lcdPutsChar_returns h1 c
    obtain ⟨o3, rest, hloop⟩ := ih h2
    exact ⟨o3, _, lcdPutsLoop_cons hwrap hchar hloop⟩

/-- The text stays in its row: it has no line feed, a carriage return in the first row only, and nothing behind the last
column. -/
def KeepsRow (cols row : ℕ) : ℕ → List UInt8 → Prop
  | _, [] => True
  | col, c :: str => col < cols ∧ c ≠ 0x0a ∧ (c = 0x0d → row = 0) ∧ KeepsRow cols row (if c = 0x0d then 0 else col + 1) str

instance (cols row : ℕ) : ∀ (col : ℕ) (str : List UInt8), Decidable (KeepsRow cols row col str)
  | _, [] => .isTrue trivial
  | col, c :: str =>
    haveI := instDecidableKeepsRow cols row (if c = 0x0d then 0 else col + 1) str
    inferInstanceAs (Decidable (_ ∧ _ ∧ _ ∧ _))

/-- Behind the last column of a row the cursor stands for the first cell of the next one. -/
def Cell.current (opts : Hd44780Options) : Cell :=
  if opts.currentX.toNat < opts.cols.toNat then ⟨opts.currentX.toNat, opts.currentY.toNat⟩
  else ⟨0, (opts.currentY.toNat + 1) % opts.rows.toNat⟩

/-- The counter moves to the next cell of a row. -/
def Follows (next : ℕ → ℕ) (rows cols : ℕ) : Prop :=
  ∀ row < rows, ∀ col, col + 1 < cols → next (Cell.address ⟨col, row⟩) = Cell.address ⟨col + 1, row⟩

theorem cursor_ne {a b : ℕ} {l l' : List Event} (h : a ≠ b) : ¬ Event.cursor a :: l = Event.cursor b :: l' := by
  intro he
  exact h (Event.cursor.inj (List.cons.inj he).1)

theorem loop_wraps (h : opts.Valid) (hrow : opts.currentY.toNat < opts.rows.toNat)
    (hfull : opts.currentX.toNat = opts.cols.toNat) (ac : ℕ) : ∃ opts' sent,
    lcdPutsLoop opts (c :: str) = some (opts', sent) ∧
    (events next ac sent = Cell.text opts.rows.toNat opts.cols.toNat (Cell.current opts)
      (decide (opts.currentX.toNat = opts.cols.toNat)) (c :: str) ↔
      KeepsRow opts.cols.toNat opts.currentY.toNat opts.currentX.toNat (c :: str)) := by
  have hvalid : Hd44780Options.Valid { opts with currentX := 0, currentY := opts.currentY + 1 } := ⟨h.pos, h.le⟩
  obtain ⟨cmd, hset, hcmd⟩ := @lcdCursorSet_succ { opts with currentX := 0, currentY := opts.currentY + 1 }
    opts.currentY hvalid hrow 0
  have hwrap : lcdWrap opts = some ({ opts with currentX := 0 - 1, currentY := opts.currentY }, [.cmd cmd]) := by
    have hge : opts.currentX ≥ opts.cols := UInt8.le_iff_toNat_le.mpr hfull.ge
    unfold lcdWrap
    rw [if_pos hge]
    exact hset
  obtain ⟨o2, sent, hchar, h2⟩ := @lcdPutsChar_returns { opts with currentX := 0 - 1, currentY := opts.currentY }
    ⟨h.pos, h.le⟩ c
  obtain ⟨o3, rest, hloop⟩ := lcdPutsLoop_returns h2 str
  refine ⟨o3, _, lcdPutsLoop_cons hwrap hchar hloop, ?_⟩
  have hnot : ¬ opts.currentX.toNat < opts.cols.toNat := by omega
  have haddress : cmd.toNat % 0x80 ≠ Cell.address (Cell.current opts) := by
    unfold Cell.current Cell.address
    rw [if_neg hnot, hcmd]
    exact offset_ne h.le hrow 0
  constructor
  · intro he
    rw [decide_eq_true hfull, Cell.text] at he
    exact absurd he (cursor_ne haddress)
  · intro hkeeps
    exact absurd hkeeps.1 hnot

theorem loop_feeds (h : opts.Valid) (hrow : opts.currentY.toNat < opts.rows.toNat)
    (hlt : opts.currentX.toNat < opts.cols.toNat) (ac : ℕ) : ∃ opts' sent,
    lcdPutsLoop opts (0x0a :: str) = some (opts', sent) ∧
    (events next ac sent = Cell.text opts.rows.toNat opts.cols.toNat (Cell.current opts)
      (decide (opts.currentX.toNat = opts.cols.toNat)) (0x0a :: str) ↔
      KeepsRow opts.cols.toNat opts.currentY.toNat opts.currentX.toNat (0x0a :: str)) := by
  have hvalid : Hd44780Options.Valid { opts with currentY := opts.currentY + 1 } := ⟨h.pos, h.le⟩
  obtain ⟨cmd, hset, hcmd⟩ := @lcdCursorSet_succ { opts with currentY := opts.currentY + 1 }
    opts.currentY hvalid hrow opts.currentX
  have hwrap : lcdWrap opts = some (opts, []) := by
    unfold lcdWrap
    exact if_neg (UInt8.not_le.mpr (UInt8.lt_iff_toNat_lt.mpr hlt))
  obtain ⟨o3, rest, hloop⟩ := @lcdPutsLoop_returns
    { opts with currentX := opts.currentX - 1, currentY := opts.currentY } ⟨h.pos, h.le⟩ str
  refine ⟨o3, _, lcdPutsLoop_cons hwrap hset hloop, ?_⟩
  have haddress : cmd.toNat % 0x80 ≠ Cell.address (Cell.below opts.rows.toNat (Cell.current opts)) := by
    unfold Cell.current Cell.below Cell.address
    rw [if_pos hlt, hcmd]
    exact offset_ne h.le hrow _
  have hne : opts.currentX.toNat ≠ opts.cols.toNat := by omega
  constructor
  · intro he
    rw [decide_eq_false hne, Cell.text] at he
    exact absurd he (cursor_ne haddress)
  · intro hkeeps
    exact absurd rfl hkeeps.2.1

theorem loop_carriage (h : opts.Valid) (hrow : opts.currentY.toNat < opts.rows.toNat)
    (hlt : opts.currentX.toNat < opts.cols.toNat) (hrow0 : opts.currentY ≠ 0) (ac : ℕ) : ∃ opts' sent,
    lcdPutsLoop opts (0x0d :: str) = some (opts', sent) ∧
    (events next ac sent = Cell.text opts.rows.toNat opts.cols.toNat (Cell.current opts)
      (decide (opts.currentX.toNat = opts.cols.toNat)) (0x0d :: str) ↔
      KeepsRow opts.cols.toNat opts.currentY.toNat opts.currentX.toNat (0x0d :: str)) := by
  have hpos : 0 < opts.currentY.toNat := Nat.pos_of_ne_zero fun he => hrow0 (UInt8.toNat_inj.mp he)
  have hpred : (opts.currentY - 1).toNat = opts.currentY.toNat - 1 :=
    UInt8.toNat_sub_of_le _ _ (UInt8.le_iff_toNat_le.mpr hpos)
  have hback : opts.currentY - 1 + 1 = opts.currentY := by simp
  obtain ⟨cmd, hset, hcmd⟩ := @lcdCursorSet_succ opts (opts.currentY - 1) h (by omega) 0
  rw [hback] at hset
  have hwrap : lcdWrap opts = some (opts, []) := by
    unfold lcdWrap
    exact if_neg (UInt8.not_le.mpr (UInt8.lt_iff_toNat_lt.mpr hlt))
  obtain ⟨o3, rest, hloop⟩ := @lcdPutsLoop_returns
    { opts with currentX := 0 - 1, currentY := opts.currentY - 1 } ⟨h.pos, h.le⟩ str
  refine ⟨o3, _, lcdPutsLoop_cons hwrap hset hloop, ?_⟩
  have haddress : cmd.toNat % 0x80 ≠ Cell.address ⟨0, (Cell.current opts).row⟩ := by
    have hrows := @offset_ne (opts.currentY.toNat - 1) opts.rows.toNat h.le (by omega) 0
    have hmod : (opts.currentY.toNat - 1 + 1) % opts.rows.toNat = opts.currentY.toNat := by
      rw [Nat.sub_add_cancel hpos, Nat.mod_eq_of_lt hrow]
    rw [hmod] at hrows
    unfold Cell.current Cell.address
    rw [if_pos hlt, hcmd, hpred]
    exact hrows
  have hne : opts.currentX.toNat ≠ opts.cols.toNat := by omega
  constructor
  · intro he
    rw [decide_eq_false hne, Cell.text] at he
    exact absurd he (cursor_ne haddress)
  · intro hkeeps
    exact absurd (hkeeps.2.2.1 rfl) hpos.ne'

theorem loop_events (h : opts.Valid) (hcols : 0 < opts.cols.toNat)
    (hnext : Follows next opts.rows.toNat opts.cols.toNat) (hrow : opts.currentY.toNat < opts.rows.toNat)
    (hcol : opts.currentX.toNat ≤ opts.cols.toNat)
    (hac : opts.currentX.toNat < opts.cols.toNat → ac = Cell.address ⟨opts.currentX.toNat, opts.currentY.toNat⟩) :
    ∃ opts' sent, lcdPutsLoop opts str = some (opts', sent) ∧
    (events next ac sent = Cell.text opts.rows.toNat opts.cols.toNat (Cell.current opts)
      (decide (opts.currentX.toNat = opts.cols.toNat)) str ↔
      KeepsRow opts.cols.toNat opts.currentY.toNat opts.currentX.toNat str) := by
  induction str generalizing opts ac with
  | nil => exact ⟨opts, [], rfl, fun _ => trivial, fun _ => rfl⟩
  | cons c str ih =>
    by_cases hlt : opts.currentX.toNat < opts.cols.toNat
    · have hwrap : lcdWrap opts = some (opts, []) := by
        unfold lcdWrap
        exact if_neg (UInt8.not_le.mpr (UInt8.lt_iff_toNat_lt.mpr hlt))
      have hne : opts.currentX.toNat ≠ opts.cols.toNat := by omega
      have hcurrent : Cell.current opts = ⟨opts.currentX.toNat, opts.currentY.toNat⟩ := if_pos hlt
      by_cases hfeed : c = 0x0a
      · rw [hfeed]
        exact loop_feeds h hrow hlt ac
      · by_cases hreturn : c = 0x0d
        · have hchar : lcdPutsChar opts c = lcdCursorSet opts 0 opts.currentY := by
            unfold lcdPutsChar
            rw [if_neg hfeed, if_pos hreturn]
          by_cases hzero : opts.currentY = 0
          · obtain ⟨cmd, hset, hcmd⟩ := lcdCursorSet_zero h 0
            have hset' : lcdPutsChar opts c = some ({ opts with currentX := 0, currentY := opts.currentY }, [.cmd cmd]) := by
              rw [hchar, hzero]
              exact hset
            obtain ⟨o3, rest, hloop, hiff⟩ := @ih { opts with currentX := 0, currentY := opts.currentY }
              (cmd.toNat % 0x80) ⟨h.pos, h.le⟩ hcols hnext hrow (Nat.zero_le _) (by
                intro _
                rw [hcmd, hzero]
                rfl)
            refine ⟨o3, _, lcdPutsLoop_cons hwrap hset' hloop, ?_⟩
            have hrow0 : opts.currentY.toNat = 0 := by
              rw [hzero]
              rfl
            have hfirst : cmd.toNat % 0x80 = Cell.address ⟨0, opts.currentY.toNat⟩ := by
              rw [hcmd, hrow0]
              rfl
            have hcell : Cell.current { opts with currentX := 0, currentY := opts.currentY } =
                ⟨0, opts.currentY.toNat⟩ := if_pos hcols
            have hmoved : decide ((0 : UInt8).toNat = opts.cols.toNat) = false := decide_eq_false hcols.ne
            rw [hcell] at hiff
            dsimp only at hiff
            rw [hmoved] at hiff
            rw [decide_eq_false hne, hcurrent, Cell.text, if_neg hfeed, if_pos hreturn, KeepsRow, if_pos hreturn]
            simp only [List.nil_append, List.cons_append, events, hfirst, List.cons.injEq, true_and, Bool.false_eq_true,
              if_false]
            rw [← hfirst, hiff]
            exact ⟨fun hk => ⟨hlt, hfeed, fun _ => hrow0, hk⟩, fun hk => hk.2.2.2⟩
          · rw [hreturn]
            exact loop_carriage h hrow hlt hzero ac
        · have hcolslt := opts.cols.toNat_lt
          have hsucc : (opts.currentX + 1).toNat = opts.currentX.toNat + 1 := by
            rw [UInt8.toNat_add]
            change (opts.currentX.toNat + 1) % 256 = _
            omega
          have hchar : lcdPutsChar opts c = some ({ opts with currentX := opts.currentX + 1 }, [.data c]) := by
            unfold lcdPutsChar
            rw [if_neg hfeed, if_neg hreturn]
          obtain ⟨o3, rest, hloop, hiff⟩ := @ih { opts with currentX := opts.currentX + 1 } (next ac) ⟨h.pos, h.le⟩
            hcols hnext hrow (by dsimp only; omega) (by
              intro hin
              dsimp only at hin ⊢
              rw [hsucc] at hin ⊢
              rw [hac hlt]
              exact hnext _ hrow _ hin)
          refine ⟨o3, _, lcdPutsLoop_cons hwrap hchar hloop, ?_⟩
          have hcell : Cell.current { opts with currentX := opts.currentX + 1 } =
              Cell.advance opts.rows.toNat opts.cols.toNat ⟨opts.currentX.toNat, opts.currentY.toNat⟩ := by
            unfold Cell.current Cell.advance
            dsimp only
            rw [hsucc]
          rw [hcell] at hiff
          dsimp only at hiff
          rw [hsucc] at hiff
          rw [decide_eq_false hne, hcurrent, Cell.text, if_neg hfeed, if_neg hreturn, KeepsRow, if_neg hreturn]
          simp only [List.nil_append, List.cons_append, events, hac hlt, List.cons.injEq, true_and, Bool.false_eq_true,
            if_false]
          rw [← hac hlt, hiff]
          exact ⟨fun hk => ⟨hlt, hfeed, fun he => absurd he hreturn, hk⟩, fun hk => hk.2.2.2⟩
    · exact loop_wraps h hrow (by omega) ac

/-- From the column and the row, which count from 1, the text is stored in its cells, and all cursor addresses are those of
cells. -/
def SendsText (next : ℕ → ℕ) (opts : Hd44780Options) (x y : UInt8) (ac : ℕ) (str : List UInt8) : Prop :=
  ∃ opts' sent, lcdPuts opts x y str = some (opts', sent) ∧
    events next ac sent = .cursor (Cell.address ⟨x.toNat - 1, y.toNat - 1⟩) ::
      Cell.text opts.rows.toNat opts.cols.toNat ⟨x.toNat - 1, y.toNat - 1⟩ false str ∧
    ∀ a, .cursor a ∈ events next ac sent → ∃ cell : Cell, cell.On opts.rows.toNat opts.cols.toNat ∧ a = cell.address

/-- A text is sent to its cells where it keeps to its row. -/
theorem lcdPuts_sends_iff (h : opts.Valid) (hx : 0 < x.toNat ∧ x.toNat ≤ opts.cols.toNat)
    (hy : 0 < y.toNat ∧ y.toNat ≤ opts.rows.toNat) (hnext : Follows next opts.rows.toNat opts.cols.toNat) (ac : ℕ)
    (str : List UInt8) : SendsText next opts x y ac str ↔ KeepsRow opts.cols.toNat (y.toNat - 1) (x.toNat - 1) str := by
  have hx1 : (x - 1).toNat = x.toNat - 1 := UInt8.toNat_sub_of_le _ _ (UInt8.le_iff_toNat_le.mpr hx.1)
  have hy1 : (y - 1).toNat = y.toNat - 1 := UInt8.toNat_sub_of_le _ _ (UInt8.le_iff_toNat_le.mpr hy.1)
  have hback : y - 1 + 1 = y := by simp
  obtain ⟨cmd, hset, hcmd⟩ := @lcdCursorSet_succ opts (y - 1) h (by omega) x
  have hstart : cmd.toNat % 0x80 = Cell.address ⟨x.toNat - 1, y.toNat - 1⟩ := by
    unfold Cell.address
    rw [hcmd, hy1]
    dsimp only
    omega
  rw [hback] at hset
  obtain ⟨opts', sent, hloop, hiff⟩ := @loop_events { opts with currentX := x - 1, currentY := y - 1 } next
    (cmd.toNat % 0x80) str ⟨h.pos, h.le⟩ (by dsimp only; omega) hnext (by dsimp only; omega) (by dsimp only; omega) (by
      intro _
      dsimp only
      rw [hx1, hy1, hstart])
  have hcell : Cell.current { opts with currentX := x - 1, currentY := y - 1 } = ⟨x.toNat - 1, y.toNat - 1⟩ := by
    have hlt : (x - 1).toNat < opts.cols.toNat := by omega
    unfold Cell.current
    rw [if_pos hlt, hx1, hy1]
  have hmoved : decide (x.toNat - 1 = opts.cols.toNat) = false := decide_eq_false (by omega)
  rw [hcell] at hiff
  dsimp only at hiff
  rw [hx1, hy1, hmoved] at hiff
  have hputs : lcdPuts opts x y str = some (opts', .cmd cmd :: sent) := by
    unfold lcdPuts
    rw [bind_of_some hset]
    dsimp only
    rw [bind_of_some hloop]
    rfl
  have hevents : events next ac (.cmd cmd :: sent) = .cursor (cmd.toNat % 0x80) :: events next (cmd.toNat % 0x80) sent := rfl
  rw [← hiff]
  constructor
  · rintro ⟨o, l, hr, he, -⟩
    rw [hputs] at hr
    obtain ⟨-, rfl⟩ := Prod.mk.inj (Option.some.inj hr)
    exact (List.cons.inj he).2
  · intro he
    have hall : events next ac (.cmd cmd :: sent) = .cursor (Cell.address ⟨x.toNat - 1, y.toNat - 1⟩) ::
        Cell.text opts.rows.toNat opts.cols.toNat ⟨x.toNat - 1, y.toNat - 1⟩ false str := by
      rw [hevents, he, hstart]
    have hon : Cell.On opts.rows.toNat opts.cols.toNat ⟨x.toNat - 1, y.toNat - 1⟩ := ⟨by dsimp only; omega, by dsimp only; omega⟩
    refine ⟨opts', _, hputs, hall, ?_⟩
    intro a ha
    rw [hall] at ha
    rcases List.mem_cons.mp ha with ha | ha
    · exact ⟨_, hon, Event.cursor.inj ha⟩
    · exact Cell.text_cells hon _ ha

/-- The address counter of a display with two lines of memory. -/
def nextAddress (a : ℕ) : ℕ := if a = 0x27 then 0x40 else if a = 0x67 then 0x00 else a + 1

theorem nextAddress_follows : Follows nextAddress 2 16 := by
  intro row hrow col hcol
  unfold nextAddress Cell.address
  interval_cases row
  · change (if (0 + col) % 128 = 39 then 64 else if (0 + col) % 128 = 103 then 0 else (0 + col) % 128 + 1) = (0 + (col + 1)) % 128
    split_ifs
    · omega
    · omega
    · omega
  · change (if (64 + col) % 128 = 39 then 64 else if (64 + col) % 128 = 103 then 0 else (64 + col) % 128 + 1) =
      (64 + (col + 1)) % 128
    split_ifs
    · omega
    · omega
    · omega

/-- `Hi` at the start of the second row. -/
theorem lcdPuts_sends_iff_word : SendsText nextAddress ⟨2, 16, 0, 0⟩ 1 2 0 [0x48, 0x69] :=
  (lcdPuts_sends_iff ⟨by decide, by decide⟩ ⟨by decide, by decide⟩ ⟨by decide, by decide⟩ nextAddress_follows 0 _).mpr
    (by decide)

/-- `A`, a line feed and `B`: the `B` takes the place of the `A`. -/
theorem lcdPuts_lineFeed : ¬ SendsText nextAddress ⟨2, 16, 0, 0⟩ 1 1 0 [0x41, 0x0a, 0x42] := by
  rintro ⟨opts', sent, hputs, he, -⟩
  have hrun : lcdPuts ⟨2, 16, 0, 0⟩ 1 1 [0x41, 0x0a, 0x42] =
      some (⟨2, 16, 1, 0⟩, [.cmd 0x80, .data 0x41, .cmd 0x80, .data 0x42]) := rfl
  rw [hrun] at hputs
  obtain ⟨-, rfl⟩ := Prod.mk.inj (Option.some.inj hputs)
  exact absurd he (by decide)

end puts

end Lpc1788Libraries.TextLcd

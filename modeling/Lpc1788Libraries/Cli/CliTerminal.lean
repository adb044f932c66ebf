import Lpc1788Libraries.Cli.CliAutocomplete
import Lpc1788Libraries.Cli.CliHistoryRing
import Lpc1788Libraries.Support.TerminalRow

namespace Lpc1788Libraries.Cli

open Lpc1788Libraries.Support BoundedProgram BoundedProgram.Prog

variable {cfg : Config} {lists : Lists} {s t u : CliState} {l : List UInt8} {data : UInt8}

/-- A character that takes a cell on a terminal. -/
def Visible (c : UInt8) : Prop := 0x20 ≤ c ∧ c < 0x7f

instance : DecidablePred Visible := fun c => inferInstanceAs (Decidable (0x20 ≤ c ∧ c < 0x7f))

/-- What a VT100 terminal makes of a character that stays on the row. -/
def rowOp (c : UInt8) : RowOp UInt8 := if c = 0x08 then .back else if Visible c then .print c else .ignored

/-- What has been sent since the last prompt shows the line, on a terminal with whatever stands there on the row. -/
def ShowsLine (s : CliState) : Prop := ∃ (old : List Output) (new : List UInt8), s.sent = old ++ .prompt :: .char 0x3e :: new.map .char ∧
  (∀ c ∈ new, c = 0x07 ∨ c = 0x08 ∨ Visible c) ∧ TerminalRow.Displays 0x20 (new.map rowOp) s.line

section row

theorem map_rowOp (h : ∀ c ∈ l, Visible c) : l.map rowOp = l.map .print := by
  apply List.map_congr_left
  intro c hc
  have hback : c ≠ 0x08 := by
    rintro rfl
    exact absurd (h _ hc) (by decide)
  rw [rowOp, if_neg hback, if_pos (h c hc)]

/-- The characters of `vt100_del_chars`. -/
def delChars (n : ℕ) : List UInt8 := (List.replicate n [0x08, 0x20, 0x08]).flatten

theorem delChars_sent {n : ℕ} :
    (List.replicate n [Output.char 0x08, .char 0x20, .char 0x08]).flatten = (delChars n).map .char := by
  rw [delChars, List.map_flatten, List.map_replicate]
  rfl

theorem map_delChars {n : ℕ} : (delChars n).map rowOp = TerminalRow.rubout 0x20 n := by
  rw [delChars, List.map_flatten, List.map_replicate]
  rfl

theorem mem_delChars {n : ℕ} {c : UInt8} (h : c ∈ delChars n) : c = 0x08 ∨ Visible c := by
  obtain ⟨x, hx, hc⟩ := List.mem_flatten.mp h
  rw [List.eq_of_mem_replicate hx] at hc
  simp only [List.mem_cons, List.not_mem_nil, or_false] at hc
  rcases hc with rfl | rfl | rfl
  · exact .inl rfl
  · exact .inr (by decide)
  · exact .inl rfl

theorem ShowsLine.edit {kept old new : List UInt8} (h : ShowsLine s) (hs : s.line = kept ++ old) (ht : t.line = kept ++ new)
    (hv : ∀ c ∈ new, Visible c) (hsent : t.sent = s.sent ++ (delChars old.length ++ new).map .char) : ShowsLine t := by
  obtain ⟨before, since, hold, hsince, hshows⟩ := h
  refine ⟨before, since ++ (delChars old.length ++ new), ?_, ?_, ?_⟩
  · rw [hsent, hold, List.append_assoc, List.cons_append, List.cons_append, ← List.map_append]
  · intro c hc
    rcases List.mem_append.mp hc with hc | hc
    · exact hsince c hc
    · rcases List.mem_append.mp hc with hc | hc
      · exact .inr (mem_delChars hc)
      · exact .inr (.inr (hv c hc))
  · rw [List.map_append, List.map_append, map_delChars, map_rowOp hv, ht]
    rw [hs] at hshows
    exact hshows.edit

theorem ShowsLine.bell (h : ShowsLine s) (ht : t.line = s.line) (hsent : t.sent = s.sent ++ [.char 0x07]) : ShowsLine t := by
  obtain ⟨before, since, hold, hsince, hshows⟩ := h
  refine ⟨before, since ++ [0x07], ?_, ?_, ?_⟩
  · rw [hsent, hold, List.append_assoc, List.map_append]
    rfl
  · intro c hc
    rcases List.mem_append.mp hc with hc | hc
    · exact hsince c hc
    · exact .inl (List.mem_singleton.mp hc)
  · rw [List.map_append, ht]
    exact hshows.ignored

theorem ShowsLine.same (h : ShowsLine s) (ht : t.line = s.line) (hsent : t.sent = s.sent) : ShowsLine t := by
  unfold ShowsLine at h ⊢
  rwa [hsent, ht]

theorem showsLine_prompt (hs : ∃ old, s.sent = old ++ [.prompt, .char 0x3e]) (hl : s.line = []) : ShowsLine s := by
  obtain ⟨old, hs⟩ := hs
  refine ⟨old, [], hs, by simp, ?_⟩
  rw [hl]
  exact TerminalRow.displays_nil

end row

section silent

/-! The search for a completion sends nothing. -/

theorem getItem_sent {p : ItemPtr} : (cliCmdGetItem lists p).Within (Same CliState.sent) :=
  within_bind (within_modify fun _ => rfl) fun _ => within_pure

theorem getChild_sent : (cliCmdItemGetChild cfg lists).Within (Same CliState.sent) := by
  apply within_get_bind
  intro s
  split
  · exact within_pure
  · exact within_ite within_pure (within_bind (within_modify fun _ => rfl) fun _ => getItem_sent)

theorem getFirst_sent : (cliCmdItemGetFirst lists).Within (Same CliState.sent) := by
  apply within_get_bind
  intro s
  have last : Prog.Within (Same CliState.sent) (Prog.get >>= fun s : CliState => cliCmdGetItem lists (s.tree s.treeIndex)) :=
    within_get_bind fun _ => getItem_sent
  apply within_ite
  · exact within_bind (within_modify fun _ => rfl) fun _ => last
  · apply within_bind getItem_sent
    intro _
    apply within_bind ?_ fun _ => last
    apply within_attempt
    intro s a t h
    obtain ⟨l, -, hl⟩ := Option.map_eq_some_iff.mp h
    rw [Prod.mk.injEq] at hl
    rw [← hl.2]
    rfl

theorem getNext_sent : (cliCmdItemGetNext lists).Within (Same CliState.sent) := by
  apply within_get_bind
  intro s
  exact within_ite within_pure (within_bind (within_modify fun _ => rfl) fun _ => getItem_sent)

theorem nextCyclic_sent : (nextCyclic lists).Within (Same CliState.sent) := by
  apply within_bind getNext_sent
  intro more
  exact within_ite within_pure (within_bind getFirst_sent fun _ => within_pure)

theorem itemName_sent : (itemName lists).Within (Same CliState.sent) := by
  apply within_attempt
  intro s a t h
  obtain ⟨item, -, hi⟩ := Option.map_eq_some_iff.mp h
  rw [Prod.mk.injEq] at hi
  rw [← hi.2]
  rfl

theorem matchRound_sent {name : CString} {x : ℕ × ℕ} : (matchRound cfg lists name x).Within (Same CliState.sent) := by
  apply within_get_bind
  intro s
  refine within_ite ?_ within_pure
  apply within_bind
  · exact within_bind within_check fun _ => within_pure
  intro c
  apply within_ite
  · refine within_ite ?_ within_pure
    apply within_bind getChild_sent
    intro _
    apply within_bind itemName_sent
    intro _
    exact within_bind (within_modify fun _ => rfl) fun _ => within_pure
  · refine within_ite ?_ within_pure
    apply within_bind nextCyclic_sent
    intro _
    exact within_get_bind fun _ => within_pure

theorem findMatch_sent {p : ItemPtr} {i : ℕ} : (findMatch cfg lists p i).Within (Same CliState.sent) := by
  apply within_loop
  intro i
  apply within_bind itemName_sent
  intro name
  apply within_bind (within_loop fun _ => matchRound_sent)
  intro r
  split
  · exact within_pure
  · apply within_get_bind
    intro s
    exact within_ite within_pure (within_ite within_pure within_pure)

end silent

section named

/-- The names that a completion can come from. -/
def IsName (lists : Lists) (name : CString) : Prop := ∃ n, ∃ item ∈ lists n, item.name = name

theorem itemName_named {name : CString} (hr : (itemName lists).Returns s name t) : IsName lists name := by
  unfold itemName at hr
  rw [returns_attempt] at hr
  obtain ⟨item, hi, hn⟩ := Option.map_eq_some_iff.mp hr
  rw [Prod.mk.injEq] at hn
  exact ⟨_, item, List.mem_of_getElem? hi, hn.1⟩

theorem matchRound_named {name : CString} {x : ℕ × ℕ} {r : Option (ℕ × CString × ℕ)} (hn : IsName lists name)
    (hr : (matchRound cfg lists name x).Returns s (.inr r) t) : ∀ y ∈ r, IsName lists y.2.1 := by
  unfold matchRound at hr
  rw [get_bind_returns] at hr
  split at hr
  · obtain ⟨c, u, -, hr⟩ := returns_bind.mp hr
    split at hr
    · split at hr
      · obtain ⟨_, v, -, hr⟩ := returns_bind.mp hr
        obtain ⟨first, w, hw, hr⟩ := returns_bind.mp hr
        rw [modify_bind_returns, returns_pure] at hr
        obtain rfl := Sum.inr.inj hr.1
        rintro y ⟨⟩
        exact itemName_named hw
      · obtain rfl := Sum.inr.inj (returns_pure.mp hr).1
        simp
    · split at hr
      · obtain ⟨_, v, -, hr⟩ := returns_bind.mp hr
        rw [get_bind_returns, returns_pure] at hr
        obtain rfl := Sum.inr.inj hr.1
        rintro y ⟨⟩
        exact hn
      · exact absurd (returns_pure.mp hr).1 (by simp)
  · obtain rfl := Sum.inr.inj (returns_pure.mp hr).1
    rintro y ⟨⟩
    exact hn

theorem findMatch_named {p : ItemPtr} {i : ℕ} {r : Option (ℕ × CString × ℕ)}
    (hr : (findMatch cfg lists p i).Returns s r t) : ∀ y ∈ r, IsName lists y.2.1 := by
  apply loop_partial (I := fun _ _ => True) (Q := fun r _ => ∀ y ∈ r, IsName lists y.2.1) _ _ trivial hr
  · exact fun _ _ _ _ _ _ => trivial
  · rintro i u r v - hv
    obtain ⟨name, w, hw, hv⟩ := returns_bind.mp hv
    obtain ⟨m, z, hm, hv⟩ := returns_bind.mp hv
    have hnamed : ∀ y ∈ m, IsName lists y.2.1 :=
      loop_partial (I := fun _ _ => True) (Q := fun r _ => ∀ y ∈ r, IsName lists y.2.1) (fun _ _ _ _ _ _ => trivial)
        (fun _ _ _ _ _ h => matchRound_named (itemName_named hw) h) trivial hm
    cases m with
    | none =>
      obtain rfl := Sum.inr.inj (returns_pure.mp hv).1
      exact hnamed
    | some y =>
      simp only [get_bind_returns] at hv
      split at hv
      · obtain rfl := Sum.inr.inj (returns_pure.mp hv).1
        exact hnamed
      · split at hv
        · obtain rfl := Sum.inr.inj (returns_pure.mp hv).1
          simp
        · exact absurd (returns_pure.mp hv).1 (by simp)

end named

section keys

theorem shows_backspace (h : ShowsLine s) (hret : (onBackspace lists).Returns s () t) :
    ShowsLine t ∧ ∀ c ∈ t.line, c ∈ s.line := by
  unfold onBackspace at hret
  rw [get_bind_returns] at hret
  split at hret
  · rename_i hpos
    rw [modify_bind_returns, vt100DelChars, modify_bind_returns, reset_returns] at hret
    subst hret
    obtain ⟨n, hn⟩ := Nat.exists_eq_succ_of_ne_zero (Nat.ne_of_gt hpos)
    have hline : s.line = (List.range n).map s.lineBuf ++ [s.lineBuf n] := by
      rw [CliState.line, hn, List.range_succ, List.map_append, List.map_singleton]
    have hshort : CliState.line (resetState { s with
        lineBufIndex := s.lineBufIndex - 1
        sent := s.sent ++ (List.replicate 1 [.char 0x08, .char 0x20, .char 0x08]).flatten }) =
          (List.range n).map s.lineBuf ++ [] := by
      change (List.range (s.lineBufIndex - 1)).map s.lineBuf = _
      rw [hn, Nat.succ_sub_one, List.append_nil]
    refine ⟨h.edit hline hshort (by simp) rfl, ?_⟩
    intro c hc
    rw [hshort, List.append_nil] at hc
    rw [hline]
    exact List.mem_append_left _ hc
  · rw [xputc, send, returns_modify] at hret
    subst hret
    exact ⟨h.bell rfl rfl, fun c hc => hc⟩

theorem shows_other (h : ShowsLine s) (hv : data < 0x7f) (hret : (onOther cfg lists data).Returns s () t) :
    ShowsLine t ∧ ∀ c ∈ t.line, c ∈ s.line ∨ Visible c := by
  by_cases hd : data < 0x20
  · unfold onOther at hret
    rw [get_bind_returns, if_pos hd] at hret
    obtain ⟨-, rfl⟩ := returns_pure.mp hret
    exact ⟨h, fun c hc => .inl hc⟩
  have hvisible : Visible data := ⟨UInt8.not_lt.mp hd, hv⟩
  by_cases hroom : s.lineBufIndex < cfg.lineLengthMax - 1
  · rw [onOther_typed hvisible.1 hroom] at hret
    have hline : t.line = s.line ++ [data] := by rw [hret, line_typed]
    have hold : s.line = s.line ++ [] := (List.append_nil _).symm
    refine ⟨h.edit hold hline ?_ ?_, ?_⟩
    · intro c hc
      rwa [List.mem_singleton.mp hc]
    · rw [hret]
      rfl
    · intro c hc
      rw [hline, List.mem_append, List.mem_singleton] at hc
      rcases hc with hc | rfl
      · exact .inl hc
      · exact .inr hvisible
  · unfold onOther at hret
    rw [get_bind_returns, if_neg hd, if_neg hroom, xputc, send, returns_modify] at hret
    subst hret
    exact ⟨h.bell rfl rfl, fun c hc => .inl hc⟩

theorem shows_recalled {h : History cfg} (hs : ShowsLine s) (hv : ∀ c ∈ h.line, Visible c) :
    ShowsLine (showRecalled s (some h)) := by
  have hold : s.line = [] ++ s.line := rfl
  have hnew : (showRecalled s (some h)).line = [] ++ h.line := showLine_line _
  apply hs.edit hold hnew hv
  change s.sent ++ (List.replicate s.lineBufIndex _).flatten ++ h.line.map .char = _
  rw [delChars_sent, List.append_assoc, ← List.map_append, length_line]

theorem line_put {i : ℕ} {e : List UInt8} :
    CliState.line { put s i e with lineBufIndex := i + e.length } = (List.range i).map s.lineBuf ++ e := by
  apply List.ext_getElem?
  intro j
  have hlen : ((List.range i).map s.lineBuf).length = i := by rw [List.length_map, List.length_range]
  rcases Nat.lt_or_ge j i with hj | hj
  · rw [List.getElem?_append_left (by omega)]
    simp only [CliState.line, put, List.getElem?_map, List.getElem?_range (show j < i + e.length by omega),
      List.getElem?_range hj, Option.map_some, if_neg (Nat.not_le.mpr hj)]
  · rw [List.getElem?_append_right (by omega), hlen]
    rcases Nat.lt_or_ge j (i + e.length) with hlt | hge
    · have hget : e[j - i]? = some e[j - i] := List.getElem?_eq_getElem (by omega)
      simp only [CliState.line, put, List.getElem?_map, List.getElem?_range hlt, Option.map_some, if_pos hj, hget,
        Option.getD_some]
    · rw [List.getElem?_eq_none (show e.length ≤ j - i by omega), List.getElem?_eq_none (by rw [length_line]; exact hge)]

theorem take_line {i : ℕ} (hi : i ≤ s.lineBufIndex) : s.line.take i = (List.range i).map s.lineBuf := by
  rw [CliState.line, ← List.map_take, List.take_range, Nat.min_eq_left hi]

theorem autocomplete_line {done : Bool} (hs : LineSound cfg s) (hret : (cliAutocomplete cfg lists).Returns s done t) :
    t.line = s.line ∧ t.sent = s.sent ∨ ∃ name k, IsName lists name ∧
      t.line = (List.range s.autocompleteEndIndex).map s.lineBuf ++ rest cfg s.autocompleteEndIndex k name ∧
      t.sent = s.sent ++ (delChars ((s.lineBufIndex + 0x100 - s.autocompleteEndIndex) % 0x100) ++
        rest cfg s.autocompleteEndIndex k name).map .char := by
  unfold cliAutocomplete at hret
  rw [get_bind_returns] at hret
  obtain ⟨r, u, hu, hret⟩ := returns_bind.mp hret
  obtain ⟨hsearched, hmatch⟩ := findMatch_searched hs.start_le hs.start_le hu
  have hsent : u.sent = s.sent := (findMatch_sent hu).symm
  have hnamed := findMatch_named hu
  cases r with
  | none =>
    obtain ⟨rfl, rfl⟩ := returns_pure.mp hret
    left
    rw [CliState.line, hsearched.lineBufIndex, hsearched.lineBuf]
    exact ⟨rfl, hsent⟩
  | some x =>
    obtain ⟨i, name, k⟩ := x
    obtain rfl := hmatch i name k rfl
    simp only [get_bind_returns, vt100DelChars, modify_bind_returns, delChars_sent] at hret
    obtain ⟨j, v, hv, hret⟩ := returns_bind.mp hret
    have hk : k ≤ name.chars.length := by
      rcases returns_loop.mp hv with hv | ⟨y, w, hv, -⟩ <;>
      · obtain ⟨c, z, hc, -⟩ := returns_bind.mp hv
        exact (nameChar_returns hc).1
    obtain ⟨rfl, rfl⟩ := (completeName_returns hk).unique hv
    rw [modify_bind_returns] at hret
    obtain ⟨_, w, hw, hret⟩ := returns_bind.mp hret
    obtain ⟨rfl, rfl⟩ := returns_pure.mp hret
    have hcyclic := still_searched nextCyclic_still hw
    have hline : w.line = (List.range u.autocompleteEndIndex).map u.lineBuf ++ rest cfg u.autocompleteEndIndex k name := by
      rw [← line_put, CliState.line, hcyclic.lineBufIndex, hcyclic.lineBuf]
      rfl
    right
    rw [← hsearched.end_eq, ← hsearched.lineBuf, ← hsearched.lineBufIndex, ← hsent]
    refine ⟨name, k, hnamed _ rfl, hline, ?_⟩
    have hw : w.sent = _ := (nextCyclic_sent hw).symm
    rw [hw, List.map_append, ← List.append_assoc]
    rfl

theorem shows_autocomplete {done : Bool} (h : ShowsLine s) (hs : LineSound cfg s)
    (hend : s.autocompleteEndIndex ≤ s.lineBufIndex) (hnames : ∀ name, IsName lists name → ∀ c ∈ name.chars, Visible c)
    (hret : (cliAutocomplete cfg lists).Returns s done t) : ShowsLine t ∧ ∀ c ∈ t.line, c ∈ s.line ∨ Visible c := by
  rcases autocomplete_line hs hret with ⟨hline, hsent⟩ | ⟨name, k, hname, hline, hsent⟩
  · exact ⟨h.same hline hsent, fun c hc => .inl (hline ▸ hc)⟩
  · have hdel : (s.lineBufIndex + 0x100 - s.autocompleteEndIndex) % 0x100 = s.lineBufIndex - s.autocompleteEndIndex := by
      have hindex := hs.index_le
      have hmax := cfg.line_le
      omega
    rw [← take_line hend] at hline
    rw [hdel, ← length_line, ← List.length_drop] at hsent
    have hvisible : ∀ c ∈ rest cfg s.autocompleteEndIndex k name, Visible c :=
      fun c hc => hnames name hname c (List.mem_of_mem_drop (List.mem_of_mem_take hc))
    refine ⟨h.edit (List.take_append_drop _ _).symm hline hvisible hsent, ?_⟩
    intro c hc
    rw [hline, List.mem_append] at hc
    exact hc.imp List.mem_of_mem_take (hvisible c)

theorem shows_tab (h : ShowsLine s) (hs : LineSound cfg s) (hend : s.autocompleteEndIndex ≤ s.lineBufIndex)
    (hnames : ∀ name, IsName lists name → ∀ c ∈ name.chars, Visible c) (hret : (onTab cfg lists).Returns s () t) :
    ShowsLine t ∧ ∀ c ∈ t.line, c ∈ s.line ∨ Visible c := by
  obtain ⟨done, u, hu, hret⟩ := returns_bind.mp hret
  obtain ⟨hshows, hvisible⟩ := shows_autocomplete h hs hend hnames hu
  split at hret
  · obtain ⟨-, rfl⟩ := returns_pure.mp hret
    exact ⟨hshows, hvisible⟩
  · rw [xputc, send, returns_modify] at hret
    subst hret
    exact ⟨hshows.bell rfl rfl, hvisible⟩

theorem prompt_leaves : (send .prompt >>= fun _ => xputc 0x3e).Leaves
    fun t : CliState => ∃ old, t.sent = old ++ [.prompt, .char 0x3e] := by
  intro s a t hr
  rw [send, modify_bind_returns, xputc, send, returns_modify] at hr
  subst hr
  exact ⟨s.sent, by simp⟩

theorem enter_leaves : (onEnter cfg lists).Leaves fun t => ∃ old, t.sent = old ++ [.prompt, .char 0x3e] := by
  apply leaves_bind
  intro _
  apply leaves_ite
  · exact leaves_bind fun _ => leaves_bind fun _ => leaves_bind fun _ => leaves_bind fun _ => prompt_leaves
  · exact leaves_bind fun _ => leaves_bind fun _ => leaves_bind fun _ => prompt_leaves

end keys

section run

variable {startup : Option CString} {h : History cfg}

theorem line_visible (hv : ∀ e ∈ h.lines, ∀ c ∈ e, Visible c) : ∀ c ∈ h.line, Visible c := by
  intro c hc
  unfold History.line at hc
  cases hget : ([] :: h.lines)[h.shown]? with
  | none =>
    rw [hget] at hc
    exact absurd hc List.not_mem_nil
  | some e =>
    rw [hget, Option.getD_some] at hc
    rcases List.mem_cons.mp (List.mem_of_getElem? hget) with rfl | he
    · exact absurd hc List.not_mem_nil
    · exact hv e he c hc

theorem save_visible {hz : 0 ∉ l} {hs : l.length ≤ cfg.lineLengthMax - 1} {hf : l.length + 1 ≤ cfg.historySize}
    (hv : ∀ e ∈ h.lines, ∀ c ∈ e, Visible c) (hl : ∀ c ∈ l, Visible c) :
    ∀ e ∈ (h.save l hz hs hf).lines, ∀ c ∈ e, Visible c := by
  intro e he
  unfold History.save at he
  split at he
  · exact hv e he
  · rcases List.mem_cons.mp he with rfl | he
    · exact hl
    · exact hv e (DelimitedRing.fit_sublist.subset he)

/-- The terminal shows the line, and what it can show next is visible. -/
structure Displayed (cfg : Config) (s : CliState) : Prop where
  sound : LineSound cfg s
  visible : ∀ c ∈ s.line, Visible c
  history : ∃ h : History cfg, (cfg.historySize ≠ 0 → Represents cfg s h) ∧ ∀ e ∈ h.lines, ∀ c ∈ e, Visible c
  shows : ShowsLine s

theorem LineSound.apart (hs : LineSound cfg s) {n : ℕ} {sent : List Output} :
    LineSound cfg { s with vt100State := n, sent := sent } := ⟨hs.index_le, hs.start_le, hs.end_le, hs.nonzero⟩

theorem Displayed.quiet (h : Displayed cfg s) (ht : LineSound cfg t ∧ t.history = s.history ∧
    (s.autocompleteEndIndex ≤ s.lineBufIndex → t.autocompleteEndIndex ≤ t.lineBufIndex))
    (hshows : ShowsLine t) (hv : ∀ c ∈ t.line, c ∈ s.line ∨ Visible c) : Displayed cfg t := by
  obtain ⟨hist, hr, hvisible⟩ := h.history
  refine ⟨ht.1, fun c hc => (hv c hc).elim (h.visible c) id, ⟨hist, fun hH => (hr hH).congr ht.2.1, hvisible⟩, hshows⟩

theorem Displayed.recall {hist : History cfg} (h : Displayed cfg s) (hr : cfg.historySize ≠ 0 → Represents cfg s hist)
    (hvisible : ∀ e ∈ hist.lines, ∀ c ∈ e, Visible c) {r : Option (History cfg)} (hl : ∀ h' ∈ r, h'.lines = hist.lines) :
    Displayed cfg (showRecalled s r) := by
  cases r with
  | none => exact h
  | some h' =>
    have hl' := hl h' rfl
    have hv : ∀ e ∈ h'.lines, ∀ c ∈ e, Visible c := hl' ▸ hvisible
    refine ⟨showRecalled_sound h.sound, ?_, ⟨h', fun hH => showRecalled_represents (hr hH) hl, hv⟩,
      shows_recalled h.shows (line_visible hv)⟩
    have hline : (showRecalled s (some h')).line = h'.line := showLine_line _
    rw [hline]
    exact line_visible hv

theorem Displayed.enter (h : Displayed cfg s) (hret : (onEnter cfg lists).Returns s () t) : Displayed cfg t := by
  obtain ⟨hist, hr, hvisible⟩ := h.history
  obtain ⟨hi, hstart, hend, -, hsave⟩ := onEnter_spec h.sound hr hret
  have hline : t.line = [] := by rw [CliState.line, hi, List.range_zero, List.map_nil]
  refine ⟨⟨by omega, by omega, by omega, fun i hlt => by omega⟩, by simp [hline], ?_,
    showsLine_prompt (enter_leaves hret) hline⟩
  by_cases hH : cfg.historySize = 0
  · exact ⟨hist, fun h0 => absurd hH h0, hvisible⟩
  · exact ⟨_, fun _ => hsave hH, save_visible hvisible h.visible⟩

theorem charNormal_lt (h : keyOf s data = .charNormal) : data < 0x80 := by
  unfold keyOf vt100OnRxChar at h
  split at h
  · split at h
    · cases h
    · split at h
      · cases h
      · rename_i hlt
        exact UInt8.not_le.mp hlt
  · split at h
    · split at h <;> cases h
    · split at h
      · repeat (split at h; cases h)
        cases h
      · cases h

theorem displayed_step (hnames : ∀ n, ∀ item ∈ lists n, ∀ c ∈ item.name.chars, Visible c) (h : Displayed cfg s)
    (hdel : data ≠ 0x7f) (htab : data = 0x09 → s.autocompleteEndIndex ≤ s.lineBufIndex)
    (hret : (cliOnRxChar cfg lists data).Returns s () t) : Displayed cfg t := by
  have hnames' : ∀ name, IsName lists name → ∀ c ∈ name.chars, Visible c := by
    rintro name ⟨n, item, hmem, rfl⟩
    exact hnames n item hmem
  unfold cliOnRxChar at hret
  rw [get_bind_returns, modify_bind_returns] at hret
  obtain ⟨v, hv⟩ : ∃ v, v = { s with vt100State := (vt100OnRxChar s.vt100State data).2 } := ⟨_, rfl⟩
  rw [← hv] at hret
  have h : Displayed cfg v := by
    obtain ⟨hist, hr, hvisible⟩ := h.history
    rw [hv]
    exact ⟨h.sound.apart, h.visible, ⟨hist, fun hH => (hr hH).congr rfl, hvisible⟩, h.shows.same rfl rfl⟩
  have htab : data = 0x09 → v.autocompleteEndIndex ≤ v.lineBufIndex := by
    rw [hv]
    exact htab
  obtain ⟨hist, hr, hvisible⟩ := h.history
  cases hk : (vt100OnRxChar s.vt100State data).1 with
  | charNormal =>
    have hlt : data < 0x7f := by
      have hlt : data < 0x80 := charNormal_lt hk
      rw [UInt8.lt_iff_toNat_lt] at hlt ⊢
      have hne : data.toNat ≠ 0x7f := fun heq => hdel (UInt8.toNat_inj.mp heq)
      change data.toNat < 128 at hlt
      change data.toNat < 127
      omega
    simp only [hk] at hret
    split at hret
    · exact h.enter hret
    · split at hret
      · obtain ⟨hshows, hline⟩ := shows_backspace h.shows hret
        exact h.quiet (onBackspace_spec h.sound hret) hshows fun c hc => .inl (hline c hc)
      · split at hret
        · rename_i heq
          obtain ⟨hshows, hline⟩ := shows_tab h.shows h.sound (htab heq) hnames' hret
          exact h.quiet (onTab_spec h.sound hret) hshows hline
        · obtain ⟨hshows, hline⟩ := shows_other h.shows hlt hret
          exact h.quiet (onOther_spec h.sound hret) hshows hline
  | arrowUp =>
    by_cases hH : cfg.historySize = 0
    · simp only [hk, hH, ne_eq, not_true_eq_false, if_false] at hret
      obtain ⟨-, rfl⟩ := returns_pure.mp hret
      exact h
    · simp only [hk, ne_eq, hH, not_false_eq_true, if_true] at hret
      obtain ⟨-, rfl⟩ := hret.unique (older_returns (hr hH) (Nat.pos_of_ne_zero hH))
      exact h.recall hr hvisible fun _ => older_lines
  | arrowDn =>
    by_cases hH : cfg.historySize = 0
    · simp only [hk, hH, ne_eq, not_true_eq_false, if_false] at hret
      obtain ⟨-, rfl⟩ := returns_pure.mp hret
      exact h
    · simp only [hk, ne_eq, hH, not_false_eq_true, if_true] at hret
      obtain ⟨-, rfl⟩ := hret.unique (newer_returns (hr hH) (Nat.pos_of_ne_zero hH))
      apply h.recall hr hvisible
      rintro _ ⟨⟩
      rfl
  | _ =>
    simp only [hk] at hret
    obtain ⟨-, rfl⟩ := returns_pure.mp hret
    exact h

theorem init_leaves : (cliInit cfg lists startup).Leaves fun t => ∃ old, t.sent = old ++ [.prompt, .char 0x3e] := by
  intro s _ t hret
  unfold cliInit at hret
  by_cases hH : cfg.historySize = 0
  · cases startup <;>
    · simp only [hH, ne_eq, not_true_eq_false, if_false, modify_bind_returns, reset_bind_returns, vt100Init, send, xputc,
        returns_modify] at hret
      subst hret
      exact ⟨_, List.append_assoc _ _ _⟩
  · cases startup <;>
    · simp only [hH, ne_eq, not_false_eq_true, if_true, modify_bind_returns, reset_bind_returns, vt100Init, send, xputc,
        returns_modify] at hret
      subst hret
      exact ⟨_, List.append_assoc _ _ _⟩

theorem displayed_init (hinit : Reached cfg lists startup [] s) : Displayed cfg s := by
  obtain ⟨boot, hret⟩ := hinit.initial
  obtain ⟨hi, hstart, hend, -, hrep⟩ := init_spec hret
  have hline : s.line = [] := by rw [CliState.line, hi, List.range_zero, List.map_nil]
  exact ⟨⟨by omega, by omega, by omega, fun i hlt => by omega⟩, by simp [hline],
    ⟨History.empty cfg, fun hH => hrep (Nat.pos_of_ne_zero hH), by simp [History.empty]⟩,
    showsLine_prompt (init_leaves hret) hline⟩

/-- On a terminal the row of the last prompt shows the line that is in the line buffer, as long as TAB is only pressed with
the part to be completed within the line. -/
theorem terminal_shows_line (hinit : Reached cfg lists startup [] s)
    (hnames : ∀ n, ∀ item ∈ lists n, ∀ c ∈ item.name.chars, Visible c) (hdel : 0x7f ∉ l)
    (htab : ∀ l' u, l' ++ [0x09] <+: l → (feed cfg lists l').Returns s () u → u.autocompleteEndIndex ≤ u.lineBufIndex)
    (hf : (feed cfg lists l).Returns s () t) : ShowsLine t := by
  suffices hrun : ∀ l' u, l' <+: l → (feed cfg lists l').Returns s () u → Displayed cfg u from
    (hrun l t List.prefix_rfl hf).shows
  intro l'
  induction l' using List.reverseRecOn with
  | nil =>
    intro u _ hu
    obtain ⟨-, rfl⟩ := returns_pure.mp hu
    exact displayed_init hinit
  | append_singleton l' data ih =>
    intro u hpre hu
    obtain ⟨v, hv, hu⟩ := feed_append.mp hu
    obtain ⟨_, w, hw, hu⟩ := returns_bind.mp hu
    obtain ⟨-, rfl⟩ := returns_pure.mp hu
    apply displayed_step hnames (ih v ((List.prefix_append _ _).trans hpre) hv) _ _ hw
    · rintro rfl
      exact hdel (hpre.subset (by simp))
    · rintro rfl
      exact htab l' v hpre hv

/-- A line is entered, another one is begun, the first one is recalled in its place, and its last character is deleted. -/
theorem terminal_shows_recalled : ∃ s t, Reached smallConsole (fun _ => []) none [] s ∧
    (feed smallConsole (fun _ => []) [0x61, 0x62, 0x0d, 0x78, 0x1b, 0x5b, 0x41, 0x08]).Returns s () t ∧
    t.line = [0x61] ∧ ShowsLine t := by
  obtain ⟨s, t, hs, hf, hl⟩ := @exists_run smallConsole (fun _ => [])
    [0x61, 0x62, 0x0d, 0x78, 0x1b, 0x5b, 0x41, 0x08] none 20 (fun t => decide (t.line = [0x61])) (by decide)
  refine ⟨s, t, hs, hf, of_decide_eq_true hl, terminal_shows_line hs (by simp) (by decide) ?_ hf⟩
  intro l' u hpre
  exact absurd (hpre.subset (List.mem_append_right _ (List.mem_singleton_self _))) (by decide)

end run

end Lpc1788Libraries.Cli

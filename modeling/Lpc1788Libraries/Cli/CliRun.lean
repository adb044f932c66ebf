import Lpc1788Libraries.Cli.CliEditor

namespace Lpc1788Libraries.Cli

open Lpc1788Libraries.Support BoundedProgram BoundedProgram.Prog DelimitedRing

variable {cfg : Config} {lists : Lists} {s t u : CliState} {h : History cfg} {l : List UInt8}

/-- The states after `cli_init` and calls of `cli_on_rx_char` that have come back. -/
inductive Reached (cfg : Config) (lists : Lists) (startup : Option CString) : List UInt8 → CliState → Prop
  | init {s t : CliState} (h : (cliInit cfg lists startup).Returns s () t) : Reached cfg lists startup [] t
  | char {l : List UInt8} {s t : CliState} {data : UInt8} (hs : Reached cfg lists startup l s)
      (h : (cliOnRxChar cfg lists data).Returns s () t) : Reached cfg lists startup (l ++ [data]) t

/-- The characters, one after the other. -/
def feed (cfg : Config) (lists : Lists) : List UInt8 → CliM Unit
  | [] => pure ()
  | data :: l => do
    cliOnRxChar cfg lists data
    feed cfg lists l

/-- The key that a character completes. -/
def keyOf (s : CliState) (data : UInt8) : Vt100 := (vt100OnRxChar s.vt100State data).1

namespace History

/-- What UP shows. -/
def older (h : History cfg) : Option (History cfg) :=
  if hlt : h.shown < h.lines.length then
    if h.shown = 0 ∧ (h.lines[h.shown]).length = 1 then none else some (h.back hlt)
  else none

/-- What a key shows, where there is a history. -/
def recalled (h : History cfg) (key : Vt100) : Option (History cfg) :=
  if cfg.historySize = 0 then none
  else
    match key with
    | .arrowUp => h.older
    | .arrowDn => some h.forth
    | _ => none

/-- What ENTER leaves of the history. -/
def save (h : History cfg) (l : List UInt8) (hz : 0 ∉ l) (hs : l.length ≤ cfg.lineLengthMax - 1)
    (hf : l.length + 1 ≤ cfg.historySize) : History cfg :=
  if hd : l <:+ h.lines.headD [] then h.unshown
  else h.push l (fun hl => hd (hl ▸ List.nil_suffix)) hz hs hf

end History

namespace Represents

theorem congr (hr : Represents cfg s h) (he : t.history = s.history) : Represents cfg t h := by
  have hb : t.histCircBuf = s.histCircBuf := congrArg Prod.fst he
  have hl : t.histIndexLast = s.histIndexLast := congrArg (fun x => x.2.1) he
  have hn : t.histIndexNow = s.histIndexNow := congrArg (fun x => x.2.2) he
  refine ⟨hl ▸ hr.last_mem, ?_, ?_⟩
  · rw [hb, hl]
    exact hr.held
  · rw [hn, hl]
    exact hr.now_eq

theorem move (hr : Represents cfg s h) {h' : History cfg} (hl : h'.lines = h.lines) :
    Represents cfg { s with histIndexNow := h'.place s.histIndexLast } h' :=
  ⟨hr.last_mem, hl ▸ hr.held, rfl⟩

end Represents

section line

theorem LineSound.line_nonzero (hs : LineSound cfg s) : 0 ∉ s.line := by
  intro hm
  obtain ⟨i, hi, h0⟩ := List.mem_map.mp hm
  exact hs.nonzero i (.inl (List.mem_range.mp hi)) h0

theorem LineSound.line_short (hs : LineSound cfg s) : s.line.length ≤ cfg.lineLengthMax - 1 := by
  rw [length_line]
  exact hs.index_le

theorem LineSound.line_fits (hs : LineSound cfg s) (hLH : cfg.lineLengthMax ≤ cfg.historySize) :
    s.line.length + 1 ≤ cfg.historySize := by
  have := hs.line_short
  have := cfg.line_pos
  omega

/-- The start of the search for a completion. -/
def resetState (s : CliState) : CliState := { s with
  autocompleteStartIndex := 0
  autocompleteEndIndex := s.lineBufIndex
  treeIndex := 0
  tree := Function.update s.tree 0 ⟨0, 0⟩
  cmdListItem := ⟨0, 0⟩ }

theorem reset_returns : (cliAutocompleteReset lists).Returns s () t ↔ t = resetState s := by
  unfold cliAutocompleteReset cliCmdItemGetRoot cliCmdGetItem
  simp only [bind_assoc, modify_bind_returns, pure_bind_returns, returns_pure, true_and]
  exact eq_comm

theorem reset_bind_returns {α : Type} {f : Unit → CliM α} {a : α} :
    (cliAutocompleteReset lists >>= f).Returns s a t ↔ (f ()).Returns (resetState s) a t :=
  Returns.bind_iff (reset_returns.mpr rfl)

theorem resetState_sound (hi : s.lineBufIndex ≤ cfg.lineLengthMax - 1)
    (hnz : ∀ i < s.lineBufIndex, s.lineBuf i ≠ 0) : LineSound cfg (resetState s) :=
  ⟨hi, Nat.zero_le _, hi, fun i h => hnz i (h.elim id id)⟩

theorem showLine_sound (hs : LineSound cfg s) {e : List UInt8} (hz : 0 ∉ e) (he : e.length ≤ cfg.lineLengthMax - 1) :
    LineSound cfg (showLine s e) := by
  refine ⟨he, hs.start_le, hs.end_le, ?_⟩
  intro i hi
  by_cases hlt : i < e.length
  · simp only [showLine, List.getElem?_eq_getElem hlt, Option.getD_some]
    exact fun h0 => hz (h0 ▸ List.getElem_mem hlt)
  · simp only [showLine, List.getElem?_eq_none (Nat.le_of_not_lt hlt), Option.getD_none]
    apply hs.nonzero i (hi.imp (fun h => absurd h hlt) id)

end line

section keys

/-- The line with what an arrow key shows of the history. -/
def showRecalled (s : CliState) : Option (History cfg) → CliState
  | none => s
  | some h => showLine { s with histIndexNow := h.place s.histIndexLast } h.line

theorem older_returns (hr : Represents cfg s h) (hH : 0 < cfg.historySize) :
    (cliHistLoadOlderCmd cfg).Returns s () (showRecalled s h.older) := by
  unfold History.older
  split
  · rename_i hlt
    split
    · rename_i hone
      have hl : h.lines = h.lines[h.shown] :: h.lines.drop 1 := by
        have hget := List.cons_getElem_drop_succ (l := h.lines) (n := 0) (h := by omega)
        simp only [hone.1]
        exact hget.symm
      exact hr.older_single hH hone.1 hl hone.2
    · rename_i hone
      exact hr.older_found hH hlt fun h0 h1 => hone ⟨h0, h1⟩
  · have := h.shown_le
    exact hr.older_oldest hH (by omega)

theorem newer_returns (hr : Represents cfg s h) (hH : 0 < cfg.historySize) :
    (cliHistLoadNewerCmd cfg).Returns s () (showRecalled s (some h.forth)) := hr.newer_shown hH

theorem older_lines {h' : History cfg} (he : h.older = some h') : h'.lines = h.lines := by
  unfold History.older at he
  split at he
  · split at he
    · cases he
    · cases he
      rfl
  · cases he

theorem showRecalled_represents (hr : Represents cfg s h) {r : Option (History cfg)}
    (hl : ∀ h' ∈ r, h'.lines = h.lines) : Represents cfg (showRecalled s r) (r.getD h) := by
  cases r with
  | none => exact hr
  | some h' => exact (hr.move (hl h' rfl)).congr rfl

theorem showRecalled_sound (hs : LineSound cfg s) {r : Option (History cfg)} : LineSound cfg (showRecalled s r) := by
  cases r with
  | none => exact hs
  | some h' =>
    exact @showLine_sound cfg { s with histIndexNow := h'.place s.histIndexLast }
      ⟨hs.index_le, hs.start_le, hs.end_le, hs.nonzero⟩ _ h'.line_nonzero h'.length_line_le

theorem save_returns (hs : LineSound cfg s) (hr : Represents cfg s h) (hLH : cfg.lineLengthMax ≤ cfg.historySize) :
    ∃ t, (cliHistSaveCmd cfg).Returns s () t ∧ t.text = s.text ∧ t.vt100State = s.vt100State ∧
      Represents cfg t (h.save s.line hs.line_nonzero hs.line_short (hs.line_fits hLH)) := by
  have hfit := hs.line_fits hLH
  rw [length_line] at hfit
  unfold History.save
  split
  · rename_i hd
    refine ⟨_, cliHistSaveCmd_duplicate hr hfit hs.line_nonzero hd, rfl, rfl, hr.last_mem, hr.held, ?_⟩
    exact (History.place_zero hr.last_mem rfl).symm
  · rename_i hd
    obtain ⟨b, last, hret, _, _, _, hrep⟩ := cliHistSaveCmd_new hr hfit hs.line_nonzero hs.index_le hd
    exact ⟨_, hret, rfl, rfl, hrep⟩

theorem onEnter_spec (hs : LineSound cfg s) (hr : cfg.historySize ≠ 0 → Represents cfg s h)
    (hret : (onEnter cfg lists).Returns s () t) : t.lineBufIndex = 0 ∧ t.autocompleteStartIndex = 0 ∧
      t.autocompleteEndIndex = 0 ∧ t.vt100State = s.vt100State ∧ ∀ hH : cfg.historySize ≠ 0, Represents cfg t
        (h.save s.line hs.line_nonzero hs.line_short (hs.line_fits (cfg.history_ge hH))) := by
  -- what is left after the history has been written
  have rest : ∀ u : CliState, u.vt100State = s.vt100State → (do
      cliCmdExe cfg lists
      Prog.modify fun s : CliState => { s with lineBufIndex := 0 }
      cliAutocompleteReset lists
      send .prompt
      xputc 0x3e : CliM Unit).Returns u () t → t.lineBufIndex = 0 ∧ t.autocompleteStartIndex = 0 ∧
        t.autocompleteEndIndex = 0 ∧ t.vt100State = s.vt100State ∧ t.history = u.history := by
    intro u hu hret
    obtain ⟨_, v, hv, hret⟩ := returns_bind.mp hret
    have hkept := cmdExe_kept hv
    rw [modify_bind_returns, reset_bind_returns, send, modify_bind_returns, xputc, send, returns_modify] at hret
    subst hret
    have hvu : v.vt100State = u.vt100State := congrArg (fun x => x.2.2) hkept.symm
    exact ⟨rfl, rfl, rfl, hvu.trans hu, congrArg Prod.fst hkept.symm⟩
  unfold onEnter at hret
  rw [xputc, send, modify_bind_returns] at hret
  by_cases hH : cfg.historySize = 0
  · simp only [hH, ne_eq, not_true_eq_false, if_false] at hret
    obtain ⟨hi, hst, hen, hv, -⟩ := rest _ (by rfl) hret
    exact ⟨hi, hst, hen, hv, fun hne => absurd hH hne⟩
  · obtain ⟨u, hu, htext, hvt, hrep⟩ := save_returns
      (s := { s with sent := s.sent ++ [.char 0x0a] }) ⟨hs.index_le, hs.start_le, hs.end_le, hs.nonzero⟩
      ((hr hH).congr rfl) (cfg.history_ge hH)
    simp only [ne_eq, hH, not_false_eq_true, if_true] at hret
    rw [hu.bind_iff] at hret
    obtain ⟨hi, hst, hen, hv, hhist⟩ := rest u hvt hret
    exact ⟨hi, hst, hen, hv, fun _ => hrep.congr hhist⟩

theorem onBackspace_spec (hs : LineSound cfg s) (hret : (onBackspace lists).Returns s () t) :
    LineSound cfg t ∧ t.history = s.history ∧
      (s.autocompleteEndIndex ≤ s.lineBufIndex → t.autocompleteEndIndex ≤ t.lineBufIndex) := by
  unfold onBackspace at hret
  rw [get_bind_returns] at hret
  split at hret
  · rw [modify_bind_returns, vt100DelChars, modify_bind_returns, reset_returns] at hret
    subst hret
    refine ⟨resetState_sound ?_ ?_, rfl, fun _ => Nat.le_refl _⟩
    · exact Nat.le_trans (Nat.sub_le _ _) hs.index_le
    · intro i hi
      have hi' : i < s.lineBufIndex - 1 := hi
      exact hs.nonzero i (.inl (by omega))
  · rw [xputc, send, returns_modify] at hret
    subst hret
    exact ⟨⟨hs.index_le, hs.start_le, hs.end_le, hs.nonzero⟩, rfl, id⟩

theorem onTab_spec (hs : LineSound cfg s) (hret : (onTab cfg lists).Returns s () t) :
    LineSound cfg t ∧ t.history = s.history ∧
      (s.autocompleteEndIndex ≤ s.lineBufIndex → t.autocompleteEndIndex ≤ t.lineBufIndex) := by
  obtain ⟨done, u, hu, hret⟩ := returns_bind.mp hret
  have hc := autocomplete_completed hs hu
  have hsu := hc.sound
  have hend := hc.end_eq
  have hindex := hc.index_le
  have hle : s.autocompleteEndIndex ≤ s.lineBufIndex → u.autocompleteEndIndex ≤ u.lineBufIndex := by omega
  split at hret
  · obtain ⟨_, rfl⟩ := returns_pure.mp hret
    exact ⟨hsu, hc.history, hle⟩
  · rw [xputc, send, returns_modify] at hret
    subst hret
    exact ⟨⟨hsu.index_le, hsu.start_le, hsu.end_le, hsu.nonzero⟩, hc.history, hle⟩

theorem onOther_typed {data : UInt8} (hd : 0x20 ≤ data) (hroom : s.lineBufIndex < cfg.lineLengthMax - 1) :
    (onOther cfg lists data).Returns s () t ↔ t = { resetState { s with
      lineBuf := Function.update s.lineBuf s.lineBufIndex data
      lineBufIndex := s.lineBufIndex + 1 } with sent := s.sent ++ [.char data] } := by
  unfold onOther
  rw [get_bind_returns, if_neg (by simpa using hd), if_pos hroom, setLine, bind_assoc, check_bind_returns,
    modify_bind_returns, modify_bind_returns]
  have hlt : s.lineBufIndex < cfg.lineLengthMax := by omega
  simp only [hlt, true_and]
  rw [Returns.bind_iff (reset_returns.mpr rfl), xputc, send, returns_modify]
  exact eq_comm

theorem onOther_spec {data : UInt8} (hs : LineSound cfg s) (hret : (onOther cfg lists data).Returns s () t) :
    LineSound cfg t ∧ t.history = s.history ∧
      (s.autocompleteEndIndex ≤ s.lineBufIndex → t.autocompleteEndIndex ≤ t.lineBufIndex) := by
  by_cases hd : data < 0x20
  · unfold onOther at hret
    rw [get_bind_returns, if_pos hd] at hret
    obtain ⟨_, rfl⟩ := returns_pure.mp hret
    exact ⟨hs, rfl, id⟩
  · by_cases hroom : s.lineBufIndex < cfg.lineLengthMax - 1
    · rw [onOther_typed (by simpa using hd) hroom] at hret
      subst hret
      have hd0 : data ≠ 0 := by
        rintro rfl
        exact hd (by decide)
      have hbuf : ∀ i < s.lineBufIndex + 1, Function.update s.lineBuf s.lineBufIndex data i ≠ 0 := by
        intro i hi
        rw [Function.update_apply]
        split
        · exact hd0
        · exact hs.nonzero i (.inl (by omega))
      refine ⟨⟨hroom, Nat.zero_le _, hroom, ?_⟩, rfl, fun _ => Nat.le_refl _⟩
      exact fun i hi => hbuf i (hi.elim id id)
    · unfold onOther at hret
      rw [get_bind_returns, if_neg hd, if_neg hroom, xputc, send, returns_modify] at hret
      subst hret
      exact ⟨⟨hs.index_le, hs.start_le, hs.end_le, hs.nonzero⟩, rfl, id⟩

theorem vt100State_zero (hv : s.vt100State = 0) : { s with vt100State := 0 } = s := by
  cases s
  cases hv
  rfl

theorem typed_char {c : UInt8} (hc : 0x20 ≤ c ∧ c < 0x80) (hv : s.vt100State = 0)
    (hroom : s.lineBufIndex < cfg.lineLengthMax - 1) :
    (cliOnRxChar cfg lists c).Returns s () t ↔ t = { resetState { s with
      lineBuf := Function.update s.lineBuf s.lineBufIndex c
      lineBufIndex := s.lineBufIndex + 1 } with sent := s.sent ++ [.char c] } := by
  have hesc : c ≠ 0x1b := by
    rintro rfl
    exact absurd hc.1 (by decide)
  have hcr : c ≠ 0x0d := by
    rintro rfl
    exact absurd hc.1 (by decide)
  have hbs : c ≠ 0x08 := by
    rintro rfl
    exact absurd hc.1 (by decide)
  have htab : c ≠ 0x09 := by
    rintro rfl
    exact absurd hc.1 (by decide)
  have hkey : vt100OnRxChar s.vt100State c = (.charNormal, 0) := by
    simp only [vt100OnRxChar, hv, if_true, hesc, if_false, if_neg (UInt8.not_le.mpr hc.2)]
  unfold cliOnRxChar
  rw [get_bind_returns, modify_bind_returns, hkey]
  simp only [hcr, hbs, htab, if_false]
  rw [vt100State_zero hv, onOther_typed hc.1 hroom]

theorem line_typed {c : UInt8} : CliState.line { resetState { s with
    lineBuf := Function.update s.lineBuf s.lineBufIndex c
    lineBufIndex := s.lineBufIndex + 1 } with sent := s.sent ++ [.char c] } = s.line ++ [c] := by
  have hmap : (List.range s.lineBufIndex).map (Function.update s.lineBuf s.lineBufIndex c) =
      (List.range s.lineBufIndex).map s.lineBuf := by
    apply List.map_congr_left
    intro i hi
    exact Function.update_of_ne (Nat.ne_of_lt (List.mem_range.mp hi)) _ _
  change (List.range (s.lineBufIndex + 1)).map (Function.update s.lineBuf s.lineBufIndex c) = _
  rw [List.range_succ, List.map_append, hmap, List.map_singleton, Function.update_self]
  rfl

end keys

section run

/-- What a character makes of the indices: it keeps their order, or it recalls a line. -/
structure Received (cfg : Config) (s t : CliState) (r : Option (History cfg)) : Prop where
  sound : LineSound cfg t
  represented : cfg.historySize ≠ 0 → ∃ h' : History cfg, Represents cfg t h'
  order : r = none → s.autocompleteEndIndex ≤ s.lineBufIndex → t.autocompleteEndIndex ≤ t.lineBufIndex
  shown : ∀ h' ∈ r, t.lineBufIndex = h'.line.length ∧ t.autocompleteEndIndex = s.autocompleteEndIndex

theorem received_of_quiet (hr : cfg.historySize ≠ 0 → Represents cfg s h) (ht : LineSound cfg t ∧
    t.history = s.history ∧ (s.autocompleteEndIndex ≤ s.lineBufIndex → t.autocompleteEndIndex ≤ t.lineBufIndex)) :
    Received cfg s t none :=
  ⟨ht.1, fun hH => ⟨h, (hr hH).congr ht.2.1⟩, fun _ => ht.2.2, by simp⟩

theorem received_recall (hs : LineSound cfg s) (hr : Represents cfg s h) {r : Option (History cfg)}
    (hl : ∀ h' ∈ r, h'.lines = h.lines) : Received cfg s (showRecalled s r) r := by
  refine ⟨showRecalled_sound hs, fun _ => ⟨_, showRecalled_represents hr hl⟩, ?_, ?_⟩
  · rintro rfl
    exact id
  · rintro h' hh
    obtain rfl := Option.mem_def.mp hh
    exact ⟨rfl, rfl⟩

theorem onRxChar_received {data : UInt8} (hs : LineSound cfg s) (hr : cfg.historySize ≠ 0 → Represents cfg s h)
    (hret : (cliOnRxChar cfg lists data).Returns s () t) : Received cfg s t (h.recalled (keyOf s data)) := by
  unfold cliOnRxChar at hret
  rw [get_bind_returns, modify_bind_returns] at hret
  obtain ⟨v, hv⟩ : ∃ v, v = { s with vt100State := (vt100OnRxChar s.vt100State data).2 } := ⟨_, rfl⟩
  rw [← hv] at hret
  have hsv : LineSound cfg v := hv ▸ ⟨hs.index_le, hs.start_le, hs.end_le, hs.nonzero⟩
  have hrv : cfg.historySize ≠ 0 → Represents cfg v h := fun hH => hv ▸ (hr hH).congr rfl
  suffices hrec : Received cfg v t (h.recalled (keyOf s data)) by
    subst hv
    exact ⟨hrec.sound, hrec.represented, hrec.order, hrec.shown⟩
  unfold keyOf History.recalled
  cases hk : (vt100OnRxChar s.vt100State data).1 with
  | charNormal =>
    simp only [hk] at hret
    rw [ite_self]
    split at hret
    · obtain ⟨hi, hst, hen, -, hrep⟩ := onEnter_spec hsv hrv hret
      refine ⟨⟨?_, ?_, ?_, ?_⟩, fun hH => ⟨_, hrep hH⟩, fun _ _ => ?_, by simp⟩
      · omega
      · omega
      · omega
      · intro i hlt
        omega
      · omega
    · split at hret
      · exact received_of_quiet hrv (onBackspace_spec hsv hret)
      · split at hret
        · exact received_of_quiet hrv (onTab_spec hsv hret)
        · exact received_of_quiet hrv (onOther_spec hsv hret)
  | arrowUp =>
    by_cases hH : cfg.historySize = 0
    · simp only [hk, hH, ne_eq, not_true_eq_false, if_false] at hret
      obtain ⟨-, rfl⟩ := returns_pure.mp hret
      rw [if_pos hH]
      exact received_of_quiet hrv ⟨hsv, rfl, id⟩
    · simp only [hk, ne_eq, hH, not_false_eq_true, if_true] at hret
      obtain ⟨-, rfl⟩ := hret.unique (older_returns (hrv hH) (Nat.pos_of_ne_zero hH))
      rw [if_neg hH]
      exact received_recall hsv (hrv hH) fun _ => older_lines
  | arrowDn =>
    by_cases hH : cfg.historySize = 0
    · simp only [hk, hH, ne_eq, not_true_eq_false, if_false] at hret
      obtain ⟨-, rfl⟩ := returns_pure.mp hret
      rw [if_pos hH]
      exact received_of_quiet hrv ⟨hsv, rfl, id⟩
    · simp only [hk, ne_eq, hH, not_false_eq_true, if_true] at hret
      obtain ⟨-, rfl⟩ := hret.unique (newer_returns (hrv hH) (Nat.pos_of_ne_zero hH))
      rw [if_neg hH]
      refine received_recall hsv (hrv hH) ?_
      rintro _ ⟨⟩
      rfl
  | _ =>
    simp only [hk] at hret
    rw [ite_self]
    obtain ⟨-, rfl⟩ := returns_pure.mp hret
    exact received_of_quiet hrv ⟨hsv, rfl, id⟩

theorem represents_cleared {b : ℕ → UInt8} (hv : s.history = (fun i => if i < cfg.historySize then 0 else b i, 0, 0))
    (hH : 0 < cfg.historySize) : Represents cfg s (History.empty cfg) := by
  have hb : s.histCircBuf = fun i => if i < cfg.historySize then 0 else b i := congrArg Prod.fst hv
  have hl : s.histIndexLast = 0 := congrArg (fun x => x.2.1) hv
  have hn : s.histIndexNow = 0 := congrArg (fun x => x.2.2) hv
  have hm : cfg.ring.Mem 0 := PageRing.lo_mem
  refine ⟨hl ▸ hm, ?_, ?_⟩
  · apply List.ext_getElem?
    intro i
    by_cases hi : i < cfg.ring.size
    · have hmem := (@PageRing.step_mem cfg.ring (cfg.ring.step s.histIndexLast 1) i).2
      have hlt : cfg.ring.step (cfg.ring.step s.histIndexLast 1) i < cfg.historySize := by
        have hhi : cfg.ring.hi = cfg.historySize - 1 := rfl
        omega
      rw [getElem?_window hi, hb]
      simp only [History.empty, content, List.getElem?_replicate, hi, hlt, if_true]
    · rw [List.getElem?_eq_none (by simpa using hi), List.getElem?_eq_none (by simpa [History.empty, content] using hi)]
  · rw [hn, hl]
    exact (History.place_zero hm rfl).symm

theorem init_spec {startup : Option CString} (hret : (cliInit cfg lists startup).Returns s () t) :
    t.lineBufIndex = 0 ∧ t.autocompleteStartIndex = 0 ∧ t.autocompleteEndIndex = 0 ∧ t.vt100State = 0 ∧
      (0 < cfg.historySize → Represents cfg t (History.empty cfg)) := by
  unfold cliInit at hret
  by_cases hH : cfg.historySize = 0
  · cases startup <;>
    · simp only [hH, ne_eq, not_true_eq_false, if_false, modify_bind_returns, reset_bind_returns,
        vt100Init, send, xputc, returns_modify] at hret
      subst hret
      exact ⟨rfl, rfl, rfl, rfl, fun h0 => absurd hH (Nat.ne_of_gt h0)⟩
  · cases startup <;>
    · simp only [hH, ne_eq, not_false_eq_true, if_true, modify_bind_returns, reset_bind_returns, vt100Init, send,
        xputc, returns_modify] at hret
      subst hret
      exact ⟨rfl, rfl, rfl, rfl, represents_cleared rfl⟩

theorem Reached.initial {startup : Option CString} (hs : Reached cfg lists startup [] s) :
    ∃ boot, (cliInit cfg lists startup).Returns boot () s := by
  generalize hnil : ([] : List UInt8) = l at hs
  cases hs with
  | init hret => exact ⟨_, hret⟩
  | char _ _ => simp at hnil

theorem Reached.sound {startup : Option CString} (hs : Reached cfg lists startup l s) :
    LineSound cfg s ∧ (cfg.historySize ≠ 0 → ∃ h : History cfg, Represents cfg s h) := by
  induction hs with
  | init hret =>
    obtain ⟨hi, hst, hen, -, hrep⟩ := init_spec hret
    refine ⟨⟨by omega, by omega, by omega, ?_⟩, fun hH => ⟨_, hrep (Nat.pos_of_ne_zero hH)⟩⟩
    intro i hlt
    omega
  | @char l s t data _ hret ih =>
    obtain ⟨hs, hr⟩ := ih
    obtain ⟨h, hr⟩ : ∃ h : History cfg, cfg.historySize ≠ 0 → Represents cfg s h := by
      by_cases hH : cfg.historySize = 0
      · exact ⟨History.empty cfg, fun hne => absurd hH hne⟩
      · obtain ⟨h, hr⟩ := hr hH
        exact ⟨h, fun _ => hr⟩
    have hrec := onRxChar_received hs hr hret
    exact ⟨hrec.sound, hrec.represented⟩

theorem feed_append {l' : List UInt8} :
    (feed cfg lists (l ++ l')).Returns s () u ↔
      ∃ t, (feed cfg lists l).Returns s () t ∧ (feed cfg lists l').Returns t () u := by
  induction l generalizing s with
  | nil => simp [feed]
  | cons c l ih =>
    simp only [List.cons_append, feed, returns_bind, ih]
    constructor
    · rintro ⟨_, v, hv, t, ht, hu⟩
      exact ⟨t, ⟨(), v, hv, ht⟩, hu⟩
    · rintro ⟨t, ⟨_, v, hv, ht⟩, hu⟩
      exact ⟨(), v, hv, t, ht, hu⟩

theorem reached_feed {startup : Option CString} {l' : List UInt8} (hs : Reached cfg lists startup l s)
    (hf : (feed cfg lists l').Returns s () t) : Reached cfg lists startup (l ++ l') t := by
  induction l' generalizing l s with
  | nil =>
    obtain ⟨-, rfl⟩ := returns_pure.mp hf
    rwa [List.append_nil]
  | cons c l' ih =>
    obtain ⟨_, v, hv, hf⟩ := returns_bind.mp hf
    rw [List.append_cons]
    exact ih (hs.char hv) hf

/-- The console from a memory of zeros on, with a bound on the rounds of each loop. -/
def consoleRun (cfg : Config) (lists : Lists) (startup : Option CString) (rounds : ℕ) (l : List UInt8) :
    Option (Unit × CliState) :=
  (do
    cliInit cfg lists startup
    feed cfg lists l).run rounds
    ⟨fun _ => 0, 0, 0, 0, fun _ => 0, 0, 0, fun _ => 0, fun _ => ⟨0, 0⟩, 0, ⟨0, 0⟩, 0, []⟩

theorem exists_run {startup : Option CString} {rounds : ℕ} {p : CliState → Bool}
    (hrun : (consoleRun cfg lists startup rounds l).any fun r => p r.2) :
    ∃ s t, Reached cfg lists startup [] s ∧ (feed cfg lists l).Returns s () t ∧ p t := by
  obtain ⟨⟨_, t⟩, ht, hp⟩ := (Option.any_eq_true _ _).mp hrun
  obtain ⟨_, s, hs, hf⟩ := returns_bind.mp ⟨rounds, ht⟩
  exact ⟨s, t, .init hs, hf, hp⟩

end run

end Lpc1788Libraries.Cli

import Lpc1788Libraries.Cli.CliDispatch
import Lpc1788Libraries.Cli.CliTerminal

namespace Lpc1788Libraries.Cli

open Lpc1788Libraries.Support BoundedProgram BoundedProgram.Prog

variable {cfg : Config} {lists : Lists} {s t u : CliState} {l : List UInt8} {data : UInt8}

def Output.isChar : Output → Bool
  | .char _ => true
  | _ => false

/-- What has been sent apart from single characters. -/
def answers (l : List Output) : List Output := l.filter fun o => !o.isChar

/-- The answer to a line. -/
def answerTo (cfg : Config) (lists : Lists) (line : List UInt8) : List Output :=
  match (splitArgs false line).take cfg.argvMax with
  | [] => []
  | w :: ws => if w.head? = some 0x23 then [] else reply (lookIn lists (lists 0) (w :: ws))

/-- The console as it is to its user. -/
structure Shell (cfg : Config) where
  line : List UInt8
  nonzero : 0 ∉ line
  short : line.length ≤ cfg.lineLengthMax - 1
  /-- How much of the line TAB keeps. -/
  mark : ℕ
  history : History cfg
  escape : ℕ
  said : List Output

namespace Shell

theorem nil_nonzero : 0 ∉ ([] : List UInt8) := List.not_mem_nil

theorem nil_short : ([] : List UInt8).length ≤ cfg.lineLengthMax - 1 := by simp

def boot (said : List Output) : Shell cfg := ⟨[], nil_nonzero, nil_short, 0, .empty cfg, 0, said⟩

/-- The line, and all of it is kept. -/
def set (sh : Shell cfg) (line : List UInt8) (nonzero : 0 ∉ line) (short : line.length ≤ cfg.lineLengthMax - 1) : Shell cfg :=
  { sh with line, nonzero, short, mark := line.length }

def type (sh : Shell cfg) (data : UInt8) : Shell cfg :=
  if h : 0x20 ≤ data ∧ sh.line.length < cfg.lineLengthMax - 1 then
    sh.set (sh.line ++ [data])
      (by
        rw [List.mem_append, List.mem_singleton]
        rintro (hm | rfl)
        · exact sh.nonzero hm
        · exact absurd h.1 (by decide))
      (by
        rw [List.length_append]
        exact h.2)
  else sh

def erase (sh : Shell cfg) : Shell cfg :=
  if sh.line = [] then sh
  else sh.set sh.line.dropLast (fun h => sh.nonzero (List.dropLast_subset _ h))
    (Nat.le_trans (List.dropLast_sublist _).length_le sh.short)

/-- A line of the history is shown in the place of the one typed. -/
def recalled (sh : Shell cfg) : Option (History cfg) → Shell cfg
  | none => sh
  | some h => { sh with line := h.line, nonzero := h.line_nonzero, short := h.length_line_le, history := h }

def saved (sh : Shell cfg) : History cfg :=
  if hH : cfg.historySize = 0 then sh.history
  else sh.history.save sh.line sh.nonzero sh.short (by
    have := cfg.history_ge hH
    have := cfg.line_pos
    have := sh.short
    omega)

def enter (lists : Lists) (sh : Shell cfg) : Shell cfg :=
  { boot (sh.said ++ (answers (answerTo cfg lists sh.line) ++ [.prompt])) with history := sh.saved, escape := sh.escape }

/-- What a character does; for TAB it is what comes of it where there is no completion. -/
def receive (lists : Lists) (sh : Shell cfg) (data : UInt8) : Shell cfg :=
  let key := vt100OnRxChar sh.escape data
  let sh := { sh with escape := key.2 }
  match key.1 with
  | .charNormal => if data = 0x0d then sh.enter lists else if data = 0x08 then sh.erase else sh.type data
  | key => sh.recalled (sh.history.recalled key)

/-- The line behind the part that is kept has become the end of a name. -/
def Completes (lists : Lists) (sh sh' : Shell cfg) : Prop :=
  sh' = { sh with line := sh'.line, nonzero := sh'.nonzero, short := sh'.short } ∧
    ∃ kept name k, IsName lists name ∧ kept.length = sh.mark ∧ sh.line.take sh.mark <+: kept ∧
      sh'.line = kept ++ rest cfg sh.mark k name

inductive Receives (lists : Lists) : Shell cfg → UInt8 → Shell cfg → Prop
  | key {sh : Shell cfg} {data : UInt8} : Receives lists sh data (sh.receive lists data)
  | tab {sh sh' : Shell cfg} (h : sh.escape = 0) (hc : Completes lists sh sh') : Receives lists sh 0x09 sh'

inductive Run (lists : Lists) : Shell cfg → List UInt8 → Shell cfg → Prop
  | nil {sh : Shell cfg} : Run lists sh [] sh
  | cons {sh sh' sh'' : Shell cfg} {data : UInt8} {l : List UInt8} (h : Receives lists sh data sh')
      (hrun : Run lists sh' l sh'') : Run lists sh (data :: l) sh''

end Shell

/-- The console presents the shell. -/
structure Presents (cfg : Config) (s : CliState) (sh : Shell cfg) : Prop where
  sound : LineSound cfg s
  line : s.line = sh.line
  mark : s.autocompleteEndIndex = sh.mark
  history : cfg.historySize ≠ 0 → Represents cfg s sh.history
  escape : s.vt100State = sh.escape
  said : answers s.sent = sh.said

variable {sh : Shell cfg}

section answers

theorem answers_append {l l' : List Output} : answers (l ++ l') = answers l ++ answers l' := List.filter_append ..

theorem answers_chars {l : List UInt8} : answers (l.map .char) = [] := by
  apply List.filter_eq_nil_iff.mpr
  intro o ho
  obtain ⟨c, -, rfl⟩ := List.mem_map.mp ho
  simp [Output.isChar]

theorem answers_echo {l : List Output} {l' : List UInt8} : answers (l ++ l'.map .char) = answers l := by
  rw [answers_append, answers_chars, List.append_nil]

theorem answers_char {l : List Output} {c : UInt8} : answers (l ++ [.char c]) = answers l := @answers_echo l [c]

theorem splitArgs_head {w : List UInt8} {ws : List (List UInt8)} (hw : (splitArgs false s.line).take cfg.argvMax = w :: ws)
    (hline : LineAt cfg u (u.argv 0) w) : u.lineBuf (u.argv 0) = 0x23 ↔ w.head? = some 0x23 := by
  cases w with
  | nil =>
    rw [hline.nil]
    simp
  | cons c l =>
    rw [hline.head]
    simp

theorem cmdExe_answers (hdepth : TreeDepth lists (cfg.treeDepthMax - 1) 0) (hlen : s.line.length < cfg.lineLengthMax)
    (hz : 0 ∉ s.line) : ∃ t, (cliCmdExe cfg lists).Returns s () t ∧ t.sent = s.sent ++ answerTo cfg lists s.line := by
  obtain ⟨u, hret, hstate, hlines⟩ := lineToArgs_returns rfl hlen hz
  have hsent : u.sent = s.sent := by rw [hstate]
  unfold answerTo cliCmdExe
  cases hw : (splitArgs false s.line).take cfg.argvMax with
  | nil =>
    rw [hw] at hret
    refine ⟨u, ?_, by rw [hsent, List.append_nil]⟩
    rw [hret.bind_iff, get_bind_returns]
    exact returns_pure.mpr ⟨rfl, rfl⟩
  | cons w ws =>
    rw [hw] at hret hlines
    have hhash := splitArgs_head hw (hlines 0 (Nat.succ_pos _))
    have hlength : (w :: ws).length ≠ 0 := Nat.succ_ne_zero _
    simp only [hret.bind_iff, get_bind_returns, if_neg hlength, hhash]
    by_cases hcomment : w.head? = some 0x23
    · rw [if_pos hcomment, if_pos hcomment]
      exact ⟨u, returns_pure.mpr ⟨rfl, rfl⟩, by rw [hsent, List.append_nil]⟩
    · rw [if_neg hcomment, if_neg hcomment]
      have hargs : Args cfg u (w :: ws) := fun i hi => (hlines i hi).string
      obtain ⟨v, hfind, hlooked⟩ := findCommand_returns hargs hdepth
      have hsaid := hlooked.sent
      cases hr : lookIn lists (lists 0) (w :: ws) with
      | none =>
        rw [hr] at hsaid hfind
        refine ⟨v, ?_, by rw [hsaid, hsent]; rfl⟩
        rw [hfind.bind_iff]
        exact returns_pure.mpr ⟨rfl, rfl⟩
      | some x =>
        obtain ⟨handler, cmd, args⟩ := x
        rw [hr] at hsaid hfind
        obtain ⟨hlt, hrest⟩ := hlooked.rest _ hr
        have hargs' : Args cfg v (w :: ws) := by
          intro i hi
          unfold stringAt
          rw [hlooked.argv, hlooked.lineBuf]
          exact hargs i hi
        obtain ⟨t, hcall, hsent', -⟩ := @callHandler_returns cfg v _ handler cmd hargs' args hlt hrest
        refine ⟨t, ?_, ?_⟩
        · rw [hfind.bind_iff]
          exact hcall
        · rw [hsent', hsaid, hsent, List.append_assoc]
          rfl

end answers

section keys

theorem Presents.echo (h : Presents cfg s sh) {sent : List Output} (hsent : answers sent = answers s.sent) :
    Presents cfg { s with sent := sent } sh :=
  ⟨h.sound.apart, h.line, h.mark, fun hH => (h.history hH).congr rfl, h.escape, hsent.trans h.said⟩

theorem Presents.edited (h : Presents cfg s sh) {hz : 0 ∉ l} {hs : l.length ≤ cfg.lineLengthMax - 1} (hsound : LineSound cfg t)
    (hhist : t.history = s.history) (hline : t.line = l) (hmark : t.autocompleteEndIndex = l.length)
    (hescape : t.vt100State = s.vt100State) (hsaid : answers t.sent = answers s.sent) : Presents cfg t (sh.set l hz hs) :=
  ⟨hsound, hline, hmark, fun hH => (h.history hH).congr hhist, hescape.trans h.escape, hsaid.trans h.said⟩

theorem presents_type (h : Presents cfg s sh) :
    ∃ t, (onOther cfg lists data).Returns s () t ∧ Presents cfg t (sh.type data) := by
  have hlen : sh.line.length = s.lineBufIndex := by rw [← h.line, length_line]
  unfold Shell.type
  by_cases hd : 0x20 ≤ data
  · by_cases hroom : s.lineBufIndex < cfg.lineLengthMax - 1
    · rw [dif_pos ⟨hd, hlen ▸ hroom⟩]
      obtain ⟨t, ht⟩ : ∃ t : CliState, t = { resetState { s with
          lineBuf := Function.update s.lineBuf s.lineBufIndex data
          lineBufIndex := s.lineBufIndex + 1 } with sent := s.sent ++ [.char data] } := ⟨_, rfl⟩
      have hret : (onOther cfg lists data).Returns s () t := (onOther_typed hd hroom).mpr ht
      obtain ⟨hsound, hhist, -⟩ := onOther_spec h.sound hret
      refine ⟨t, hret, h.edited hsound hhist ?_ ?_ ?_ ?_⟩
      · rw [ht, line_typed, h.line]
      · rw [ht, List.length_append, hlen]
        rfl
      · rw [ht]
        rfl
      · rw [ht]
        exact answers_char
    · rw [dif_neg fun hc => hroom (hlen ▸ hc.2)]
      refine ⟨_, ?_, h.echo (answers_char (c := 0x07))⟩
      unfold onOther
      rw [get_bind_returns, if_neg (UInt8.not_lt.mpr hd), if_neg hroom, xputc, send, returns_modify]
  · rw [dif_neg fun hc => hd hc.1]
    refine ⟨s, ?_, h⟩
    unfold onOther
    rw [get_bind_returns, if_pos (UInt8.not_le.mp hd)]
    exact returns_pure.mpr ⟨rfl, rfl⟩

theorem presents_erase (h : Presents cfg s sh) :
    ∃ t, (onBackspace lists).Returns s () t ∧ Presents cfg t sh.erase := by
  have hlen : sh.line.length = s.lineBufIndex := by rw [← h.line, length_line]
  unfold Shell.erase
  by_cases hpos : 0 < s.lineBufIndex
  · obtain ⟨t, ht⟩ : ∃ t : CliState, t = resetState { s with
        lineBufIndex := s.lineBufIndex - 1
        sent := s.sent ++ (delChars 1).map .char } := ⟨_, rfl⟩
    have hret : (onBackspace lists).Returns s () t := by
      unfold onBackspace
      rw [get_bind_returns, if_pos hpos, modify_bind_returns, vt100DelChars, modify_bind_returns, reset_returns, delChars_sent]
      exact ht
    obtain ⟨hsound, hhist, -⟩ := onBackspace_spec h.sound hret
    have hne : sh.line ≠ [] := fun hnil => by simp [hnil] at hlen; omega
    rw [if_neg hne]
    refine ⟨t, hret, h.edited hsound hhist ?_ ?_ ?_ ?_⟩
    · rw [ht, ← h.line, List.dropLast_eq_take, length_line, take_line (Nat.sub_le _ _)]
      rfl
    · rw [ht, List.length_dropLast, hlen]
      rfl
    · rw [ht]
      rfl
    · rw [ht]
      exact answers_echo
  · rw [if_pos (List.eq_nil_of_length_eq_zero (by omega))]
    refine ⟨_, ?_, h.echo (answers_char (c := 0x07))⟩
    unfold onBackspace
    rw [get_bind_returns, if_neg hpos, xputc, send, returns_modify]

theorem saveCmd_sent {hist : History cfg} (hs : LineSound cfg s) (hr : Represents cfg s hist)
    (hLH : cfg.lineLengthMax ≤ cfg.historySize) (hret : (cliHistSaveCmd cfg).Returns s () t) : t.sent = s.sent := by
  have hfit := hs.line_fits hLH
  rw [length_line] at hfit
  by_cases hd : s.line <:+ hist.lines.headD []
  · obtain ⟨-, rfl⟩ := hret.unique (cliHistSaveCmd_duplicate hr hfit hs.line_nonzero hd)
    rfl
  · obtain ⟨b, last, hnew, -⟩ := cliHistSaveCmd_new hr hfit hs.line_nonzero hs.index_le hd
    obtain ⟨-, rfl⟩ := hret.unique hnew
    rfl

theorem line_congr (h : t.text = s.text) : t.line = s.line := by
  have hbuf : t.lineBuf = s.lineBuf := congrArg Prod.fst h
  have hindex : t.lineBufIndex = s.lineBufIndex := congrArg (fun x => x.2.1) h
  rw [CliState.line, hbuf, hindex, CliState.line]

theorem enter_returns (hdepth : TreeDepth lists (cfg.treeDepthMax - 1) 0) (h : Presents cfg s sh) :
    ∃ t, (onEnter cfg lists).Returns s () t ∧
      t.sent = s.sent ++ [.char 0x0a] ++ answerTo cfg lists sh.line ++ [.prompt] ++ [.char 0x3e] := by
  have h := h.echo (answers_char (c := 0x0a))
  -- what is left after the history has been written
  have rest : ∀ u : CliState, u.line = sh.line → ∃ t, (do
      cliCmdExe cfg lists
      Prog.modify fun s : CliState => { s with lineBufIndex := 0 }
      cliAutocompleteReset lists
      send .prompt
      xputc 0x3e : CliM Unit).Returns u () t ∧
        t.sent = u.sent ++ answerTo cfg lists sh.line ++ [.prompt] ++ [.char 0x3e] := by
    intro u hu
    have hlen : u.line.length < cfg.lineLengthMax := by
      have := sh.short
      have := cfg.line_pos
      rw [hu]
      omega
    obtain ⟨v, hexe, hsaid⟩ := cmdExe_answers hdepth hlen (hu ▸ sh.nonzero)
    rw [hu] at hsaid
    rw [← hsaid]
    simp only [hexe.bind_iff, modify_bind_returns, reset_bind_returns, send, xputc, returns_modify]
    exact ⟨_, rfl, rfl⟩
  unfold onEnter
  simp only [xputc, send, modify_bind_returns]
  by_cases hH : cfg.historySize = 0
  · simp only [hH, ne_eq, not_true_eq_false, if_false]
    exact rest _ h.line
  · obtain ⟨u, hsave, htext, -⟩ := save_returns h.sound (h.history hH) (cfg.history_ge hH)
    obtain ⟨t, hret, hsent⟩ := rest u ((line_congr htext).trans h.line)
    rw [saveCmd_sent h.sound (h.history hH) (cfg.history_ge hH) hsave] at hsent
    refine ⟨t, ?_, hsent⟩
    simp only [hH, ne_eq, not_false_eq_true, if_true]
    exact hsave.bind hret

theorem presents_enter (hdepth : TreeDepth lists (cfg.treeDepthMax - 1) 0) (h : Presents cfg s sh) :
    ∃ t, (onEnter cfg lists).Returns s () t ∧ Presents cfg t (sh.enter lists) := by
  obtain ⟨t, hret, hsent⟩ := enter_returns hdepth h
  obtain ⟨hi, hstart, hend, hescape, hhist⟩ := onEnter_spec h.sound h.history hret
  refine ⟨t, hret, ⟨by omega, by omega, by omega, fun i hlt => by omega⟩, ?_, hend, ?_, hescape.trans h.escape, ?_⟩
  · rw [CliState.line, hi]
    rfl
  · intro hH
    have hsaved : sh.saved = sh.history.save s.line h.sound.line_nonzero h.sound.line_short
        (h.sound.line_fits (cfg.history_ge hH)) := by
      unfold Shell.saved
      rw [dif_neg hH]
      congr 1
      exact h.line.symm
    change Represents cfg t sh.saved
    rw [hsaved]
    exact hhist hH
  · rw [hsent, answers_char, List.append_assoc, answers_append, answers_char, h.said, answers_append]
    rfl

theorem presents_recall (h : Presents cfg s sh) {r : Option (History cfg)}
    (hl : ∀ hist ∈ r, hist.lines = sh.history.lines) : Presents cfg (showRecalled s r) (sh.recalled r) := by
  cases r with
  | none => exact h
  | some hist =>
    refine ⟨showRecalled_sound h.sound, showLine_line _, h.mark, fun hH => showRecalled_represents (h.history hH) hl, h.escape, ?_⟩
    change answers (s.sent ++ (List.replicate s.lineBufIndex _).flatten ++ hist.line.map .char) = _
    rw [delChars_sent, answers_echo, answers_echo]
    exact h.said

theorem presents_arrow (h : Presents cfg s sh) {load : CliM Unit} {r : Option (History cfg)}
    (hload : cfg.historySize ≠ 0 → load.Returns s () (showRecalled s r) ∧ ∀ hist ∈ r, hist.lines = sh.history.lines) :
    ∃ t, (if cfg.historySize ≠ 0 then load else pure () : CliM Unit).Returns s () t ∧
      Presents cfg t (sh.recalled (if cfg.historySize = 0 then none else r)) := by
  by_cases hH : cfg.historySize = 0
  · rw [if_neg (not_not.mpr hH), if_pos hH]
    exact ⟨s, returns_pure.mpr ⟨rfl, rfl⟩, h⟩
  · rw [if_pos hH, if_neg hH]
    exact ⟨_, (hload hH).1, presents_recall h (hload hH).2⟩

theorem prefix_of_ranges {i n : ℕ} (h : i ≤ n) : List.range i <+: List.range n := by
  rw [← Nat.min_eq_left h, ← List.take_range]
  exact List.take_prefix _ _

theorem presents_tab (h : Presents cfg s sh) (hret : (onTab cfg lists).Returns s () t) :
    Presents cfg t sh ∨ ∃ sh', Shell.Completes lists sh sh' ∧ Presents cfg t sh' := by
  obtain ⟨done, u, hu, hret⟩ := returns_bind.mp hret
  have hcompleted := autocomplete_completed h.sound hu
  obtain ⟨sent, ht, hbell⟩ : ∃ sent, t = { u with sent := sent } ∧ answers sent = answers u.sent := by
    split at hret
    · obtain ⟨-, rfl⟩ := returns_pure.mp hret
      exact ⟨_, rfl, rfl⟩
    · rw [xputc, send, returns_modify] at hret
      exact ⟨_, hret.symm, answers_char⟩
  have hmark : u.autocompleteEndIndex = sh.mark := hcompleted.end_eq.trans h.mark
  have hhist : cfg.historySize ≠ 0 → Represents cfg u sh.history := fun hH => (h.history hH).congr hcompleted.history
  have hescape : u.vt100State = sh.escape := hcompleted.vt100State.trans h.escape
  rw [ht]
  rcases autocomplete_line h.sound hu with ⟨hline, hsent⟩ | ⟨name, k, hname, hline, hsent⟩
  · left
    have hu : Presents cfg u sh := ⟨hcompleted.sound, hline.trans h.line, hmark, hhist, hescape, hsent ▸ h.said⟩
    exact hu.echo hbell
  · right
    have hkept : sh.line.take sh.mark <+: (List.range sh.mark).map s.lineBuf := by
      rw [← h.line, CliState.line, ← List.map_take, List.take_range]
      exact (prefix_of_ranges (Nat.min_le_left _ _)).map _
    have hu : Presents cfg u { sh with
        line := u.line
        nonzero := hcompleted.sound.line_nonzero
        short := hcompleted.sound.line_short } := by
      refine ⟨hcompleted.sound, rfl, hmark, hhist, hescape, ?_⟩
      rw [hsent, answers_echo]
      exact h.said
    refine ⟨_, ⟨rfl, _, name, k, hname, ?_, hkept, ?_⟩, hu.echo hbell⟩
    · rw [List.length_map, List.length_range]
    · rw [← h.mark]
      exact hline

end keys

section run

theorem Presents.escaped (h : Presents cfg s sh) {n : ℕ} :
    Presents cfg { s with vt100State := n } { sh with escape := n } :=
  ⟨h.sound.apart, h.line, h.mark, fun hH => (h.history hH).congr rfl, rfl, h.said⟩

theorem charNormal_state {n : ℕ} (h : (vt100OnRxChar n data).1 = .charNormal) : n = 0 := by
  by_contra hn
  unfold vt100OnRxChar at h
  rw [if_neg hn] at h
  split at h
  · split at h <;> cases h
  · split at h
    · repeat' split at h
      all_goals cases h
    · cases h

theorem presents_receive (hdepth : TreeDepth lists (cfg.treeDepthMax - 1) 0) (h : Presents cfg s sh)
    (htab : data = 0x09 → sh.escape ≠ 0) :
    ∃ t, (cliOnRxChar cfg lists data).Returns s () t ∧ Presents cfg t (sh.receive lists data) := by
  have hv := h.escaped (n := (vt100OnRxChar s.vt100State data).2)
  unfold cliOnRxChar Shell.receive
  rw [← h.escape] at htab ⊢
  simp only [get_bind_returns, modify_bind_returns]
  cases hk : (vt100OnRxChar s.vt100State data).1 with
  | charNormal =>
    have hnot : data ≠ 0x09 := fun heq => htab heq (charNormal_state hk)
    by_cases hcr : data = 0x0d
    · simp only [if_pos hcr]
      exact presents_enter hdepth hv
    · by_cases hbs : data = 0x08
      · simp only [if_neg hcr, if_pos hbs]
        exact presents_erase hv
      · simp only [if_neg hcr, if_neg hbs, if_neg hnot]
        exact presents_type hv
  | arrowUp => exact presents_arrow hv fun hH => ⟨older_returns (hv.history hH) (Nat.pos_of_ne_zero hH), fun _ => older_lines⟩
  | arrowDn =>
    apply presents_arrow hv
    intro hH
    refine ⟨newer_returns (hv.history hH) (Nat.pos_of_ne_zero hH), ?_⟩
    rintro _ ⟨⟩
    rfl
  | _ =>
    simp only [History.recalled, ite_self]
    exact ⟨_, returns_pure.mpr ⟨rfl, rfl⟩, hv⟩

theorem Shell.receive_tab (h : sh.escape = 0) : sh.receive lists 0x09 = sh := by
  have hkey : vt100OnRxChar sh.escape 0x09 = (.charNormal, 0) := by
    rw [h]
    rfl
  have hignored : ∀ sh : Shell cfg, sh.type 0x09 = sh := fun sh => dif_neg fun hc => absurd hc.1 (by decide)
  unfold Shell.receive
  simp only [hkey]
  rw [if_neg (by decide), if_neg (by decide), hignored, ← h]

theorem Presents.receives (hdepth : TreeDepth lists (cfg.treeDepthMax - 1) 0) (h : Presents cfg s sh)
    (hret : (cliOnRxChar cfg lists data).Returns s () t) : ∃ sh', Shell.Receives lists sh data sh' ∧ Presents cfg t sh' := by
  by_cases htab : data = 0x09 → sh.escape ≠ 0
  · obtain ⟨u, hu, hpresents⟩ := presents_receive hdepth h htab
    obtain ⟨-, rfl⟩ := hret.unique hu
    exact ⟨_, .key, hpresents⟩
  · obtain ⟨rfl, h0⟩ := Classical.not_imp.mp htab
    have h0 : sh.escape = 0 := not_not.mp h0
    unfold cliOnRxChar at hret
    rw [get_bind_returns, modify_bind_returns, h.escape, h0] at hret
    have hv := h.escaped (n := 0)
    have hsame : ({ sh with escape := 0 } : Shell cfg) = sh := by rw [← h0]
    rw [hsame] at hv
    rcases presents_tab hv hret with ht | ⟨sh', hcompletes, ht⟩
    · refine ⟨_, .key, ?_⟩
      rwa [Shell.receive_tab h0]
    · exact ⟨sh', .tab h0 hcompletes, ht⟩

theorem Presents.run (hdepth : TreeDepth lists (cfg.treeDepthMax - 1) 0) (h : Presents cfg s sh)
    (hf : (feed cfg lists l).Returns s () t) : ∃ sh', Shell.Run lists sh l sh' ∧ Presents cfg t sh' := by
  induction l generalizing s sh with
  | nil =>
    obtain ⟨-, rfl⟩ := returns_pure.mp hf
    exact ⟨sh, .nil, h⟩
  | cons data l ih =>
    obtain ⟨_, u, hu, hf⟩ := returns_bind.mp hf
    obtain ⟨sh', hreceives, hpresents⟩ := h.receives hdepth hu
    obtain ⟨sh'', hrun, ht⟩ := ih hpresents hf
    exact ⟨sh'', .cons hreceives hrun, ht⟩

theorem Presents.feed (hdepth : TreeDepth lists (cfg.treeDepthMax - 1) 0) (h : Presents cfg s sh) (htab : 0x09 ∉ l) :
    ∃ t, (feed cfg lists l).Returns s () t ∧ Presents cfg t (l.foldl (Shell.receive lists) sh) := by
  induction l generalizing s sh with
  | nil => exact ⟨s, returns_pure.mpr ⟨rfl, rfl⟩, h⟩
  | cons data l ih =>
    rw [List.mem_cons, not_or] at htab
    obtain ⟨u, hu, hpresents⟩ := presents_receive hdepth h fun heq => absurd heq.symm htab.1
    obtain ⟨t, ht, hpresents⟩ := ih hpresents htab.2
    exact ⟨t, hu.bind ht, hpresents⟩

theorem presents_boot {startup : Option CString} (hinit : Reached cfg lists startup [] s) :
    Presents cfg s (.boot (answers s.sent)) := by
  obtain ⟨boot, hret⟩ := hinit.initial
  obtain ⟨hi, hstart, hend, hescape, hrep⟩ := init_spec hret
  refine ⟨hinit.sound.1, ?_, hend, fun hH => hrep (Nat.pos_of_ne_zero hH), hescape, rfl⟩
  rw [CliState.line, hi]
  rfl

/-- `cli.c` is a shell: in every run the console is in a state that the shell comes to as well, and without TAB it comes to the
state of the shell. -/
theorem console_is_shell {startup : Option CString} (hdepth : TreeDepth lists (cfg.treeDepthMax - 1) 0)
    (hinit : Reached cfg lists startup [] s) :
    (∀ l t, (feed cfg lists l).Returns s () t → ∃ sh, Shell.Run lists (.boot (answers s.sent)) l sh ∧ Presents cfg t sh) ∧
    ∀ l, 0x09 ∉ l → ∃ t, (feed cfg lists l).Returns s () t ∧
      Presents cfg t (l.foldl (Shell.receive lists) (.boot (answers s.sent))) := by
  constructor
  · intro l t hf
    exact (presents_boot hinit).run hdepth hf
  · intro l htab
    exact (presents_boot hinit).feed hdepth htab

theorem switch_nonzero : 0 ∉ ([0x6f, 0x6e] : List UInt8) := by simp

/-- One command `on`. -/
def switchTree : Lists
  | 0 => [.cmd ⟨fun _ b => b, fun _ => none⟩ ⟨⟨[0x6f, 0x6e], switch_nonzero⟩, 0, 0⟩]
  | _ => []

theorem switchTree_depth : TreeDepth switchTree (smallConsole.treeDepthMax - 1) 0 := by
  change TreeDepth switchTree 0 0
  simp [TreeDepth, switchTree]

/-- The command is entered, recalled and entered again. -/
theorem console_is_shell_twice : ∃ s t, Reached smallConsole switchTree none [] s ∧
    (feed smallConsole switchTree [0x6f, 0x6e, 0x0d, 0x1b, 0x5b, 0x41, 0x0d]).Returns s () t ∧
    calls t.sent = [([0x6f, 0x6e], []), ([0x6f, 0x6e], [])] ∧
    ∃ sh, Shell.Run switchTree (.boot (answers s.sent)) [0x6f, 0x6e, 0x0d, 0x1b, 0x5b, 0x41, 0x0d] sh ∧ Presents smallConsole t sh := by
  obtain ⟨s, t, hs, hf, hl⟩ := @exists_run smallConsole switchTree [0x6f, 0x6e, 0x0d, 0x1b, 0x5b, 0x41, 0x0d] none 20
    (fun t => decide (calls t.sent = [([0x6f, 0x6e], []), ([0x6f, 0x6e], [])])) (by decide)
  exact ⟨s, t, hs, hf, of_decide_eq_true hl, (console_is_shell switchTree_depth hs).1 _ t hf⟩

end run

end Lpc1788Libraries.Cli

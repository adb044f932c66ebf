import Lpc1788Libraries.Cli.CliArguments
import Lpc1788Libraries.Cli.CliSearch

namespace Lpc1788Libraries.Cli

open Lpc1788Libraries.Support BoundedProgram BoundedProgram.Prog

/-- The lists below list `n` are nested at most `d` deep. -/
def TreeDepth (lists : Lists) : ℕ → ℕ → Prop
  | 0, n => ∀ name m, .group name m ∉ lists n
  | d + 1, n => ∀ name m, .group name m ∈ lists n → TreeDepth lists d m

/-- The command that the words name, from one list of items on, with the words behind its name. -/
def lookIn (lists : Lists) (items : List ListItem) : List (List UInt8) → Option (Handler × Cmd × List (List UInt8))
  | [] => none
  | w :: ws =>
    match items.find? fun item => item.name.chars = w with
    | none => none
    | some (.cmd handler cmd) => some (handler, cmd, ws)
    | some (.group _ m) => lookIn lists (lists m) ws

variable {cfg : Config} {lists : Lists} {s t u : CliState} {n a d m : ℕ} {words ws : List (List UInt8)} {w : List UInt8}
  {items : List ListItem} {item : ListItem} {handler : Handler} {cmd : Cmd} {name : CString}

theorem TreeDepth.group (h : TreeDepth lists d n) (hm : .group name m ∈ lists n) :
    ∃ k, d = k + 1 ∧ TreeDepth lists k m := by
  cases d with
  | zero => exact absurd hm (h name m)
  | succ k => exact ⟨k, rfl, h name m hm⟩

section lookup

theorem lookIn_skip (h : item.name.chars ≠ w) : lookIn lists (item :: items) (w :: ws) = lookIn lists items (w :: ws) := by
  simp only [lookIn]
  rw [List.find?_cons_of_neg (by simpa using h)]

theorem lookIn_cmd (h : cmd.name.chars = w) : lookIn lists (.cmd handler cmd :: items) (w :: ws) = some (handler, cmd, ws) := by
  have hp : decide ((ListItem.cmd handler cmd).name.chars = w) = true := decide_eq_true h
  simp only [lookIn, List.find?_cons, hp]

theorem lookIn_group (h : name.chars = w) : lookIn lists (.group name m :: items) (w :: ws) = lookIn lists (lists m) ws := by
  have hp : decide ((ListItem.group name m).name.chars = w) = true := decide_eq_true h
  simp only [lookIn, List.find?_cons, hp]

end lookup

section rounds

def lookRound (cfg : Config) (lists : Lists) (argc : ℕ) (_ : Unit) : CliM (Unit ⊕ Option (Handler × Cmd)) := do
  let s ← Prog.get
  match s.cmdListItem.deref lists with
  | none =>
    send (.text "Error! Command not found\n")
    pure (.inr none)
  | some item =>
    if argc ≤ s.treeIndex then
      send (.text "Error! Command not found\n")
      pure (.inr none)
    else if stringAt cfg s (s.argv s.treeIndex) = item.name.chars then
      match item with
      | .cmd handler cmd =>
        send (.text " OK\n")
        pure (.inr (some (handler, cmd)))
      | .group _ _ =>
        let _ ← cliCmdItemGetChild cfg lists
        pure (.inl ())
    else
      let _ ← cliCmdItemGetNext lists
      pure (.inl ())

theorem findCommand_eq {argc : ℕ} : findCommand cfg lists argc =
    cliCmdItemGetRoot lists >>= fun _ => Prog.loop (lookRound cfg lists argc) () := rfl

def say (s : CliState) (l : List Output) : CliState := { s with sent := s.sent ++ l }

theorem send_returns {o : Output} : (send o).Returns s () (say s [o]) := returns_modify.mpr rfl

theorem lookRound_end {argc : ℕ} (h : s.cmdListItem.deref lists = none ∨ argc ≤ s.treeIndex) :
    (lookRound cfg lists argc ()).Returns s (.inr none) (say s [.text "Error! Command not found\n"]) := by
  have hsend : (do
      send (.text "Error! Command not found\n")
      pure (.inr none) : CliM (Unit ⊕ Option (Handler × Cmd))).Returns s (.inr none)
        (say s [.text "Error! Command not found\n"]) :=
    send_returns.bind (returns_pure.mpr ⟨rfl, rfl⟩)
  unfold lookRound
  rw [get_bind_returns]
  cases hi : s.cmdListItem.deref lists with
  | none => exact hsend
  | some item =>
    rw [hi] at h
    have hlt := h.resolve_left (by simp)
    simp only [if_pos hlt]
    exact hsend

theorem lookRound_next {argc : ℕ} (hat : AtItem lists s n a) (hi : (lists n)[a]? = some item) (hlt : s.treeIndex < argc)
    (hne : stringAt cfg s (s.argv s.treeIndex) ≠ item.name.chars) :
    (lookRound cfg lists argc ()).Returns s (.inl ()) (seat s ⟨n, a + 1⟩) := by
  unfold lookRound
  rw [get_bind_returns, hat.deref, hi]
  simp only [if_neg (Nat.not_le.mpr hlt), if_neg hne]
  exact (getNext_returns hat).bind (returns_pure.mpr ⟨rfl, rfl⟩)

theorem lookRound_cmd {argc : ℕ} (hat : AtItem lists s n a) (hi : (lists n)[a]? = some (.cmd handler cmd))
    (hlt : s.treeIndex < argc) (heq : stringAt cfg s (s.argv s.treeIndex) = cmd.name.chars) :
    (lookRound cfg lists argc ()).Returns s (.inr (some (handler, cmd))) (say s [.text " OK\n"]) := by
  unfold lookRound
  rw [get_bind_returns, hat.deref, hi]
  simp only [if_neg (Nat.not_le.mpr hlt)]
  have hname : stringAt cfg s (s.argv s.treeIndex) = (ListItem.cmd handler cmd).name.chars := heq
  rw [if_pos hname]
  exact send_returns.bind (returns_pure.mpr ⟨rfl, rfl⟩)

theorem lookRound_group {argc : ℕ} (hat : AtItem lists s n a) (hi : (lists n)[a]? = some (.group name m))
    (hlt : s.treeIndex < argc) (heq : stringAt cfg s (s.argv s.treeIndex) = name.chars)
    (hdepth : s.treeIndex < cfg.treeDepthMax - 1) :
    (lookRound cfg lists argc ()).Returns s (.inl ()) (descend s m) := by
  unfold lookRound
  rw [get_bind_returns, hat.deref, hi]
  simp only [if_neg (Nat.not_le.mpr hlt)]
  have hname : stringAt cfg s (s.argv s.treeIndex) = (ListItem.group name m).name.chars := heq
  rw [if_pos hname]
  exact (getChild_returns hat hi hdepth).bind (returns_pure.mpr ⟨rfl, rfl⟩)

end rounds

section search

/-- The arguments are these words. -/
def Args (cfg : Config) (s : CliState) (words : List (List UInt8)) : Prop :=
  ∀ i (hi : i < words.length), stringAt cfg s (s.argv i) = words[i]

/-- What the search for a command has found and said. -/
structure Looked (s t : CliState) (words : List (List UInt8)) (r : Option (Handler × Cmd × List (List UInt8))) : Prop where
  lineBuf : t.lineBuf = s.lineBuf
  argv : t.argv = s.argv
  sent : t.sent = s.sent ++ [.text (if r.isSome then " OK\n" else "Error! Command not found\n")]
  rest : ∀ x ∈ r, t.treeIndex < words.length ∧ x.2.2 = words.drop (t.treeIndex + 1)

theorem looked_trans {r : Option (Handler × Cmd × List (List UInt8))} (hbuf : u.lineBuf = s.lineBuf) (hargv : u.argv = s.argv)
    (hsent : u.sent = s.sent) (h : Looked u t words r) : Looked s t words r :=
  ⟨h.lineBuf.trans hbuf, h.argv.trans hargv, hsent ▸ h.sent, h.rest⟩

theorem lookLoop_returns (hargs : Args cfg s words) (hitem : s.cmdListItem = ⟨n, a⟩)
    (hat : a < (lists n).length → AtItem lists s n a) (hdepth : TreeDepth lists d n)
    (hd : s.treeIndex + d ≤ cfg.treeDepthMax - 1) (hitems : (lists n).drop a = items) (hws : words.drop s.treeIndex = ws) :
    ∃ t, (Prog.loop (lookRound cfg lists words.length) ()).Returns s ((lookIn lists items ws).map fun r => (r.1, r.2.1)) t ∧
      Looked s t words (lookIn lists items ws) := by
  induction ws generalizing s n a d items with
  | nil =>
    have hend := List.drop_eq_nil_iff.mp hws
    exact ⟨_, loop_inr (lookRound_end (.inr hend)), rfl, rfl, rfl, by simp [lookIn]⟩
  | cons w ws ih =>
    have hlt : s.treeIndex < words.length := by
      by_contra hge
      rw [List.drop_eq_nil_of_le (Nat.not_lt.mp hge)] at hws
      exact absurd hws (by simp)
    rw [List.drop_eq_getElem_cons hlt, List.cons.injEq] at hws
    obtain ⟨hw, hws⟩ := hws
    induction items generalizing s a with
    | nil =>
      have hnone : s.cmdListItem.deref lists = none := by
        rw [hitem]
        exact List.getElem?_eq_none (List.drop_eq_nil_iff.mp hitems)
      exact ⟨_, loop_inr (lookRound_end (.inl hnone)), rfl, rfl, rfl, by simp [lookIn]⟩
    | cons item items ih' =>
      have ha : a < (lists n).length := by
        by_contra hge
        rw [List.drop_eq_nil_of_le (Nat.not_lt.mp hge)] at hitems
        exact absurd hitems (by simp)
      rw [List.drop_eq_getElem_cons ha, List.cons.injEq] at hitems
      obtain ⟨hhead, hitems⟩ := hitems
      have hi : (lists n)[a]? = some item := by rw [List.getElem?_eq_getElem ha, hhead]
      have hstring : stringAt cfg s (s.argv s.treeIndex) = w := (hargs _ hlt).trans hw
      by_cases heq : item.name.chars = w
      · cases item with
        | cmd handler cmd =>
          have heq : cmd.name.chars = w := heq
          rw [lookIn_cmd heq]
          refine ⟨_, loop_inr (lookRound_cmd (hat ha) hi hlt (hstring.trans heq.symm)), rfl, rfl, rfl, ?_⟩
          rintro _ ⟨⟩
          exact ⟨hlt, hws.symm⟩
        | group name m =>
          have heq : name.chars = w := heq
          rw [lookIn_group heq]
          obtain ⟨k, rfl, hk⟩ := hdepth.group (hhead ▸ List.getElem_mem ha)
          have hstep := lookRound_group (hat ha) hi hlt (hstring.trans heq.symm) (by omega)
          obtain ⟨t, hloop, hlooked⟩ := @ih (descend s m) m 0 k (lists m) hargs rfl ((hat ha).descend hi) hk
            (by change s.treeIndex + 1 + k ≤ _; omega) rfl hws
          exact ⟨t, loop_inl hstep hloop, looked_trans (u := descend s m) rfl rfl rfl hlooked⟩
      · rw [lookIn_skip heq]
        have hstep := lookRound_next (hat ha) hi hlt (by rw [hstring]; exact Ne.symm heq)
        obtain ⟨t, hloop, hlooked⟩ := @ih' (seat s ⟨n, a + 1⟩) (a + 1) hargs rfl (hat ha).seat hd hitems hlt hw hws
        exact ⟨t, loop_inl hstep hloop, looked_trans (u := seat s ⟨n, a + 1⟩) rfl rfl rfl hlooked⟩

end search

section execution

/-- Is the number of arguments within the bounds of the command? -/
def Cmd.Admits (cmd : Cmd) (args : List (List UInt8)) : Prop := cmd.argcMin ≤ args.length ∧ args.length ≤ cmd.argcMax

instance {args : List (List UInt8)} : Decidable (cmd.Admits args) := inferInstanceAs (Decidable (_ ∧ _))

/-- The output of a command with its arguments. -/
def callReply (handler : Handler) (cmd : Cmd) (args : List (List UInt8)) : List Output :=
  if cmd.Admits args then .call cmd.name.chars args :: (handler.report args).elim [] fun str => [.report str.chars, .char 0x0a]
  else [.text "Error! Number of parameters incorrect\n"]

/-- The output of a command line, given what it names. -/
def reply : Option (Handler × Cmd × List (List UInt8)) → List Output
  | none => [.text "Error! Command not found\n"]
  | some (handler, cmd, args) => .text " OK\n" :: callReply handler cmd args

/-- The line buffer after the command line: the handler gets the places where its arguments begin. -/
def handled (s : CliState) (words : List (List UInt8)) : Option (Handler × Cmd × List (List UInt8)) → ℕ → UInt8
  | none => s.lineBuf
  | some (handler, cmd, args) =>
    if cmd.Admits args then
      handler.run ((List.range args.length).map fun i => s.argv (words.length - args.length + i)) s.lineBuf
    else s.lineBuf

/-- The calls of handlers, with their arguments. -/
def calls (l : List Output) : List (List UInt8 × List (List UInt8)) := l.filterMap fun o =>
  match o with
  | .call name args => some (name, args)
  | _ => none

def called : Option (Handler × Cmd × List (List UInt8)) → List (List UInt8 × List (List UInt8))
  | none => []
  | some (_, cmd, args) => if cmd.Admits args then [(cmd.name.chars, args)] else []

theorem calls_reply {r : Option (Handler × Cmd × List (List UInt8))} : calls (reply r) = called r := by
  cases r with
  | none => rfl
  | some x =>
    obtain ⟨handler, cmd, args⟩ := x
    unfold reply callReply called
    by_cases hadmits : cmd.Admits args
    · simp only [if_pos hadmits]
      cases handler.report args <;> rfl
    · simp only [if_neg hadmits]
      rfl

theorem args_drop (hargs : Args cfg s words) {k : ℕ} (hk : k ≤ words.length) :
    ((List.range (words.length - k)).map fun i => s.argv (k + i)).map (stringAt cfg s) = words.drop k := by
  apply List.ext_getElem
  · simp
  · intro i hi hi'
    rw [List.length_drop] at hi'
    rw [List.getElem_map, List.getElem_map, List.getElem_range, List.getElem_drop]
    exact hargs (k + i) (by omega)

theorem callHandler_returns (hargs : Args cfg s words) {args : List (List UInt8)} (hlt : s.treeIndex < words.length)
    (hrest : args = words.drop (s.treeIndex + 1)) :
    ∃ t, (callHandler cfg handler cmd words.length).Returns s () t ∧ t.sent = s.sent ++ callReply handler cmd args ∧
      t.lineBuf = handled s words (some (handler, cmd, args)) := by
  have hlen : args.length = words.length - (s.treeIndex + 1) := by rw [hrest, List.length_drop]
  have hplace : words.length - args.length = s.treeIndex + 1 := by omega
  have hstrings := @args_drop cfg s words hargs (s.treeIndex + 1) hlt
  rw [← hrest, ← hlen] at hstrings
  unfold callHandler callReply handled
  simp only [get_bind_returns, ← hlen, hplace]
  by_cases hadmits : cmd.Admits args
  · have hin : ¬ (args.length < cmd.argcMin ∨ cmd.argcMax < args.length) := by
      unfold Cmd.Admits at hadmits
      omega
    simp only [if_neg hin, if_pos hadmits, modify_bind_returns, hstrings]
    cases handler.report args with
    | none => exact ⟨_, returns_pure.mpr ⟨rfl, rfl⟩, rfl, rfl⟩
    | some str =>
      refine ⟨_, send_returns.bind send_returns, ?_, rfl⟩
      simp [say]
  · have hin : args.length < cmd.argcMin ∨ cmd.argcMax < args.length := by
      unfold Cmd.Admits at hadmits
      omega
    simp only [if_pos hin, if_neg hadmits]
    exact ⟨_, send_returns, rfl, rfl⟩

end execution

section line

/-- The first item of the root list. -/
def rooted (s : CliState) : CliState :=
  { s with treeIndex := 0, tree := Function.update s.tree 0 ⟨0, 0⟩, cmdListItem := ⟨0, 0⟩ }

theorem getRoot_returns : (cliCmdItemGetRoot lists).Returns s ((lists 0)[0]?).isSome (rooted s) := by
  unfold cliCmdItemGetRoot
  rw [modify_bind_returns]
  simp only [cliCmdGetItem, modify_bind_returns]
  exact returns_pure.mpr ⟨rfl, rfl⟩

theorem rooted_atItem (h : 0 < (lists 0).length) : AtItem lists (rooted s) 0 0 := by
  have htree : (Function.update s.tree 0 ⟨0, 0⟩ : ℕ → ItemPtr) 0 = ⟨0, 0⟩ := Function.update_self _ _ _
  exact ⟨rfl, htree, h, fun _ => rfl, fun hne => absurd rfl hne⟩

theorem findCommand_returns (hargs : Args cfg s words) (hdepth : TreeDepth lists (cfg.treeDepthMax - 1) 0) :
    ∃ t, (findCommand cfg lists words.length).Returns s ((lookIn lists (lists 0) words).map fun r => (r.1, r.2.1)) t ∧
      Looked s t words (lookIn lists (lists 0) words) := by
  have hd : (rooted s).treeIndex + (cfg.treeDepthMax - 1) ≤ cfg.treeDepthMax - 1 := Nat.le_of_eq (Nat.zero_add _)
  obtain ⟨t, hloop, hlooked⟩ := @lookLoop_returns cfg lists (rooted s) 0 0 (cfg.treeDepthMax - 1) words words (lists 0)
    hargs rfl rooted_atItem hdepth hd List.drop_zero List.drop_zero
  refine ⟨t, ?_, looked_trans (u := rooted s) rfl rfl rfl hlooked⟩
  rw [findCommand_eq, getRoot_returns.bind_iff]
  exact hloop

/-- The answer to a command line that is no comment, once it is split into arguments. -/
structure Dispatched (lists : Lists) (s u t : CliState) (words : List (List UInt8)) : Prop where
  sent : t.sent = s.sent ++ if words = [] then [] else reply (lookIn lists (lists 0) words)
  lineBuf : t.lineBuf = handled u words (lookIn lists (lists 0) words)
  calls : calls t.sent = calls s.sent ++ called (lookIn lists (lists 0) words)

theorem dispatched_reply (hne : words ≠ []) (hsent : t.sent = s.sent ++ reply (lookIn lists (lists 0) words))
    (hbuf : t.lineBuf = handled u words (lookIn lists (lists 0) words)) : Dispatched lists s u t words := by
  refine ⟨by rw [if_neg hne, hsent], hbuf, ?_⟩
  rw [hsent, ← calls_reply]
  exact List.filterMap_append

theorem handled_congr {r : Option (Handler × Cmd × List (List UInt8))} (hbuf : t.lineBuf = s.lineBuf) (hargv : t.argv = s.argv) :
    handled t words r = handled s words r := by
  unfold handled
  rw [hbuf, hargv]

theorem LineAt.head_ne {p : ℕ} {c : UInt8} {text : List UInt8} (h : LineAt cfg s p text) (hc : c ≠ 0)
    (hne : text.head? ≠ some c) : s.lineBuf p ≠ c := by
  cases text with
  | nil =>
    rw [h.nil]
    exact hc.symm
  | cons x l =>
    rw [h.head]
    exact fun heq => hne (congrArg some heq)

/-- `cli_cmd_exe` calls the command that the words name, once, with the words behind its name. -/
theorem cmdExe_dispatches (hdepth : TreeDepth lists (cfg.treeDepthMax - 1) 0) (hlen : s.line.length < cfg.lineLengthMax)
    (hz : 0 ∉ s.line) (hwords : words = (splitArgs false s.line).take cfg.argvMax)
    (hcomment : ∀ w ∈ words.head?, w.head? ≠ some 0x23) :
    ∃ u t, (cliCmdLineToArgs cfg).Returns s words.length u ∧ Args cfg u words ∧ (cliCmdExe cfg lists).Returns s () t ∧
      Dispatched lists s u t words := by
  obtain ⟨u, hret, hstate, hlines⟩ := lineToArgs_returns rfl hlen hz
  rw [← hwords] at hret
  have hline : ∀ i (hi : i < words.length), LineAt cfg u (u.argv i) words[i] := by
    subst hwords
    exact hlines
  have hargs : Args cfg u words := fun i hi => (hline i hi).string
  have hsent : u.sent = s.sent := by rw [hstate]
  clear hwords hstate hlines
  cases words with
  | nil =>
    refine ⟨u, u, hret, hargs, ?_, ⟨?_, rfl, ?_⟩⟩
    · unfold cliCmdExe
      rw [hret.bind_iff, get_bind_returns]
      exact returns_pure.mpr ⟨rfl, rfl⟩
    · rw [hsent, if_pos rfl, List.append_nil]
    · rw [hsent]
      exact (List.append_nil _).symm
  | cons w ws =>
    have hhash : u.lineBuf (u.argv 0) ≠ 0x23 := (hline 0 (Nat.succ_pos _)).head_ne (by decide) (hcomment w rfl)
    obtain ⟨v, hfind, hlooked⟩ := findCommand_returns hargs hdepth
    have hlength : (w :: ws).length ≠ 0 := Nat.succ_ne_zero _
    have hsaid := hlooked.sent
    rw [hsent] at hsaid
    cases hr : lookIn lists (lists 0) (w :: ws) with
    | none =>
      rw [hr] at hsaid hfind
      refine ⟨u, v, hret, hargs, ?_, dispatched_reply (List.cons_ne_nil _ _) ?_ ?_⟩
      · unfold cliCmdExe
        rw [hret.bind_iff, get_bind_returns, if_neg hlength, if_neg hhash, hfind.bind_iff]
        exact returns_pure.mpr ⟨rfl, rfl⟩
      · rw [hsaid, hr]
        rfl
      · rw [hlooked.lineBuf, hr]
        rfl
    | some x =>
      obtain ⟨handler, cmd, args⟩ := x
      rw [hr] at hsaid hfind
      obtain ⟨hlt, hrest⟩ := hlooked.rest _ hr
      have hargs' : Args cfg v (w :: ws) := by
        intro i hi
        unfold stringAt
        rw [hlooked.argv, hlooked.lineBuf]
        exact hargs i hi
      obtain ⟨t, hcall, hsent', hbuf⟩ := @callHandler_returns cfg v _ handler cmd hargs' args hlt hrest
      refine ⟨u, t, hret, hargs, ?_, dispatched_reply (List.cons_ne_nil _ _) ?_ ?_⟩
      · unfold cliCmdExe
        rw [hret.bind_iff, get_bind_returns, if_neg hlength, if_neg hhash, hfind.bind_iff]
        exact hcall
      · rw [hsent', hsaid, hr, List.append_assoc]
        rfl
      · rw [hbuf, hr, handled_congr hlooked.lineBuf hlooked.argv]

/-- The group `led` of the command `on`, which takes an argument at most, and the command `ver`. -/
def ledTree : Lists
  | 0 => [.group ⟨[0x6c, 0x65, 0x64], by decide⟩ 1, .cmd ⟨fun _ b => b, fun _ => none⟩ ⟨⟨[0x76, 0x65, 0x72], by decide⟩, 0, 0⟩]
  | 1 => [.cmd ⟨fun _ b => b, fun _ => none⟩ ⟨⟨[0x6f, 0x6e], by decide⟩, 0, 1⟩]
  | _ => []

def ledWord : Arg := .bare [0x6c, 0x65, 0x64] (by decide) (by decide) (by decide) (by decide)

def onWord : Arg := .bare [0x6f, 0x6e] (by decide) (by decide) (by decide) (by decide)

theorem layoutLine_nonzero {trail : ℕ} {args : List (ℕ × Arg)} : 0 ∉ (typedLine (layout trail args)).line := by
  rw [line_typedLine]
  exact layout_nonzero

theorem cmdExe_dispatches_on : ∃ t, (cliCmdExe boardConsole ledTree).Returns
    (typedLine (layout 0 [(0, ledWord), (1, onWord), (1, bareWord)])) () t ∧ calls t.sent = [([0x6f, 0x6e], [[0x62]])] := by
  have hdepth : TreeDepth ledTree (boardConsole.treeDepthMax - 1) 0 := by
    change TreeDepth ledTree 9 0
    simp [TreeDepth, ledTree]
  have hsplit : splitArgs false (layout 0 [(0, ledWord), (1, onWord), (1, bareWord)]) = [[0x6c, 0x65, 0x64], [0x6f, 0x6e], [0x62]] := by
    refine (splitArgs_layout (by decide)).2 ?_
    simp [Recoverable, ledWord, onWord, bareWord, Arg.isQuoted]
  have hwords : [[0x6c, 0x65, 0x64], [0x6f, 0x6e], [0x62]] =
      (splitArgs false (typedLine (layout 0 [(0, ledWord), (1, onWord), (1, bareWord)])).line).take boardConsole.argvMax := by
    rw [line_typedLine, hsplit]
    rfl
  obtain ⟨u, t, -, -, hret, hdispatched⟩ := cmdExe_dispatches hdepth (by rw [line_typedLine]; decide) layoutLine_nonzero hwords
    (by simp)
  exact ⟨t, hret, hdispatched.calls⟩

end line

end Lpc1788Libraries.Cli

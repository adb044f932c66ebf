import Lpc1788Libraries.Cli.CliHelpLines

namespace Lpc1788Libraries.Cli

open Lpc1788Libraries.Support BoundedProgram BoundedProgram.Prog

variable {cfg : Config} {hcfg : HelpConfig} {lists : Lists} {texts : Texts} {s t : CliState} {argv : Option CString} {charCnt : ℕ × ℕ}
  {d : ℕ} {lineBreak : Bool} {put : CString → CliM Unit}

section iterator

/-- What the walk goes by. -/
def CliState.iterator (s : CliState) : (ℕ → ItemPtr) × ℕ := (s.tree, s.treeIndex)

theorem getItem_iterator {p : ItemPtr} : (cliCmdGetItem lists p).Within (Same CliState.iterator) :=
  within_bind (within_modify fun _ => rfl) fun _ => within_pure

theorem itemName_iterator : (itemName lists).Within (Same CliState.iterator) := by
  apply within_attempt
  intro s a t h
  obtain ⟨item, -, hi⟩ := Option.map_eq_some_iff.mp h
  rw [Prod.mk.injEq] at hi
  rw [← hi.2]
  rfl

theorem xputc_iterator {c : UInt8} : (xputc c).Within (Same CliState.iterator) := within_modify fun _ => rfl

theorem xputs_iterator {str : CString} : (xputs str).Within (Same CliState.iterator) := within_modify fun _ => rfl

theorem itemTexts_iterator : (itemTexts lists texts).Within (Same CliState.iterator) := by
  apply within_attempt
  intro s a t h
  split at h
  · rw [Option.some.injEq, Prod.mk.injEq] at h
    rw [← h.2]
    rfl
  · exact absurd h (by simp)

theorem nameRound_iterator (hput : ∀ name, (put name).Within (Same CliState.iterator)) {x : ℕ × ℕ} :
    (nameRound lists put x).Within (Same CliState.iterator) := by
  apply within_get_bind
  intro s
  apply within_ite
  · apply within_bind getItem_iterator
    intro _
    apply within_bind itemName_iterator
    intro name
    exact within_bind (hput name) fun _ => within_pure
  · exact within_pure

theorem putName_iterator {name : CString} : (putName name).Within (Same CliState.iterator) :=
  within_bind xputs_iterator fun _ => xputc_iterator

theorem adjustColumn_iterator {len cnt : ℕ} : (adjustColumn len cnt).Within (Same CliState.iterator) :=
  within_loop fun _ => within_ite (within_bind xputc_iterator fun _ => within_pure) within_pure

theorem displayLine_iterator : (displayLine hcfg lists texts charCnt).Within (Same CliState.iterator) := by
  apply within_bind (within_loop fun _ => nameRound_iterator fun _ => putName_iterator)
  intro len
  apply within_bind adjustColumn_iterator
  intro _
  apply within_bind itemTexts_iterator
  intro text
  apply within_bind xputs_iterator
  intro _
  apply within_ite
  · apply within_bind adjustColumn_iterator
    intro _
    apply within_bind xputc_iterator
    intro _
    apply within_bind xputc_iterator
    intro _
    apply within_bind xputc_iterator
    intro _
    exact within_bind xputs_iterator fun _ => xputc_iterator
  · exact xputc_iterator

theorem display_iterator : (display hcfg lists texts argv charCnt lineBreak).Within (Same CliState.iterator) := by
  apply within_get_bind
  intro s
  apply within_bind getItem_iterator
  intro _
  apply within_bind itemName_iterator
  intro name
  apply within_ite
  · apply within_ite
    · apply within_bind xputc_iterator
      intro _
      exact within_bind displayLine_iterator fun _ => within_pure
    · exact within_bind displayLine_iterator fun _ => within_pure
  · exact within_pure

end iterator

/-- The help command prints one line for every command that it shows, in depth-first order. -/
theorem cmdHelpFn_prints (hdepth : TreeDepth lists d 0) (hd : d + 1 ≤ cfg.treeDepthMax) (hbyte : d + 1 ≤ 255) :
    (∃ t o, (cliCmdHelpFn cfg hcfg lists texts argv).Returns s () t ∧ t.sent = s.sent ++ o ∧
      Spaced (argv = none) (((commandPaths lists d 0).filter (shown lists argv)).map
        (helpLine hcfg lists texts (columns hcfg lists texts d))) o) ∧
    (commandPaths lists d 0).Nodup ∧ (∀ path, path ∈ commandPaths lists d 0 ↔ LeadsTo lists 0 path) ∧
    ∀ charCnt lineBreak, (display hcfg lists texts argv charCnt lineBreak).Within (Same CliState.iterator) := by
  refine ⟨?_, commandPaths_nodup, fun path => mem_commandPaths hdepth, fun _ _ => display_iterator⟩
  have hcharCounts : (charCounts cfg hcfg lists texts).Achieves s fun c u => c = columns hcfg lists texts d ∧ u.sent = s.sent :=
    charCounts_achieves hdepth hd hbyte
  obtain ⟨c, u, hcounts, rfl, hquiet⟩ := hcharCounts
  have hdisplay : VisitsCommand lists (display hcfg lists texts argv (columns hcfg lists texts d))
      (Displays hcfg lists texts argv (columns hcfg lists texts d)) := display_visits columns_lt.1 columns_lt.2
  have htreeWalk : (treeWalk cfg lists (display hcfg lists texts argv (columns hcfg lists texts d)) (fun _ => true) false).Achieves u
      fun y t => ∃ o, Visits (Displays hcfg lists texts argv (columns hcfg lists texts d)) (fun _ => true) false
        (commandPaths lists d 0) y o ∧ t.sent = u.sent ++ o := treeWalk_achieves hdisplay hdepth hd hbyte
  obtain ⟨lineBreak, t, hwalk, o, hvisits, hsent⟩ := htreeWalk
  refine ⟨t, o, ?_, by rw [hsent, hquiet], visits_spaced hvisits⟩
  unfold cliCmdHelpFn
  rw [hcounts.bind_iff, hwalk.bind_iff]
  exact returns_pure.mpr ⟨rfl, rfl⟩

/-- `cli_cfg.h` of the repository. -/
def boardHelp : HelpConfig := ⟨true, 16, 42, by decide⟩

def ledTexts : Texts := fun _ => ⟨⟨[0x78], by decide⟩, ⟨[0x79], by decide⟩⟩

theorem cmdHelpFn_prints_led : ∃ t o, (cliCmdHelpFn boardConsole boardHelp ledTree ledTexts (some ⟨[0x6c], by decide⟩)).Returns
    (typedLine []) () t ∧ t.sent = o ∧ Spaced False [helpLine boardHelp ledTree ledTexts (16, 42) [⟨0, 0⟩, ⟨1, 0⟩]] o := by
  have hdepth : TreeDepth ledTree 1 0 := by simp [TreeDepth, ledTree]
  obtain ⟨⟨t, o, hret, hsent, hspaced⟩, -⟩ := @cmdHelpFn_prints boardConsole boardHelp ledTree ledTexts (typedLine [])
    (some ⟨[0x6c], by decide⟩) 1 hdepth (by decide) (by decide)
  have hpaths : (commandPaths ledTree 1 0).filter (shown ledTree (some ⟨[0x6c], by decide⟩)) = [[⟨0, 0⟩, ⟨1, 0⟩]] := by decide
  have hargv : (some (⟨[0x6c], by decide⟩ : CString) = none) = False := by simp
  rw [hpaths, hargv] at hspaced
  exact ⟨t, o, hret, hsent, hspaced⟩

section bytes

/-- A console with a tree of 256 lists. -/
def deepConsole : Config :=
  { boardConsole with argvMax := 256, treeDepthMax := 256, depth_pos := by decide, depth_le := by decide }

/-- Groups one in another, with a command in the innermost. -/
def deepTree : Lists := fun n =>
  if n < 255 then [.group ⟨[0x7a], by decide⟩ (n + 1)] else [.cmd ⟨fun _ b => b, fun _ => none⟩ ⟨⟨[0x7a], by decide⟩, 0, 0⟩]

theorem pathNames_diverges (hindex : s.treeIndex = 255) (hput : ∀ name, (put name).Within (Same CliState.iterator)) :
    ¬ (pathNames lists put).Terminates s := by
  refine loop_diverges (I := fun x t => x.1 < 0x100 ∧ t.treeIndex = 255) ?_ ⟨by decide, hindex⟩
  rintro ⟨i, len⟩ u z v ⟨hi, hu⟩ hret
  have hsame := nameRound_iterator hput hret
  have hv : v.treeIndex = 255 := (congrArg Prod.snd hsame).symm.trans hu
  unfold nameRound at hret
  rw [get_bind_returns, if_pos (by dsimp only; omega)] at hret
  obtain ⟨_, _, -, hret⟩ := returns_bind.mp hret
  obtain ⟨_, _, -, hret⟩ := returns_bind.mp hret
  obtain ⟨_, _, -, hret⟩ := returns_bind.mp hret
  obtain ⟨rfl, -⟩ := returns_pure.mp hret
  exact ⟨_, rfl, Nat.mod_lt _ (by decide), hv⟩

theorem display_diverges (hindex : s.treeIndex = 255) : ¬ (display hcfg lists texts none charCnt lineBreak).Terminates s := by
  rintro ⟨y, t, hret⟩
  have hline : ∀ u, u.treeIndex = 255 → ¬ (displayLine hcfg lists texts charCnt).Terminates u := by
    rintro u hu ⟨_, v, hv⟩
    obtain ⟨len, w, hw, -⟩ := returns_bind.mp hv
    exact pathNames_diverges hu (fun _ => putName_iterator) hw.terminates
  unfold display at hret
  rw [get_bind_returns] at hret
  obtain ⟨_, u, hu, hret⟩ := returns_bind.mp hret
  obtain ⟨_, v, hv, hret⟩ := returns_bind.mp hret
  have hiu : u.treeIndex = 255 := (congrArg Prod.snd (getItem_iterator hu)).symm.trans hindex
  have hiv : v.treeIndex = 255 := (congrArg Prod.snd (itemName_iterator hv)).symm.trans hiu
  rw [Option.all_none, if_pos rfl] at hret
  split at hret
  · obtain ⟨_, w, hw, hret⟩ := returns_bind.mp hret
    obtain ⟨_, r, hr, -⟩ := returns_bind.mp hret
    exact hline w ((congrArg Prod.snd (xputc_iterator hw)).symm.trans hiv) hr.terminates
  · obtain ⟨_, r, hr, -⟩ := returns_bind.mp hret
    exact hline v hiv hr.terminates

theorem deepTree_depth {k n : ℕ} (h : n + k = 255) : TreeDepth deepTree k n := by
  induction k generalizing n with
  | zero =>
    intro name m hm
    obtain rfl : n = 255 := h
    exact absurd hm (by simp [deepTree])
  | succ k ih =>
    intro name m hm
    unfold deepTree at hm
    rw [if_pos (by omega), List.mem_singleton, ListItem.group.injEq] at hm
    exact hm.2 ▸ ih (by omega)

theorem deep_descends {x : Bool} {k n : ℕ} {base : List ItemPtr} (hk : n + k = 255) (hs : Stands deepTree s base ⟨n, 0⟩)
    (hbase : base.length = n)
    (hterm : (Prog.loop (treeRound deepConsole deepTree (display hcfg deepTree texts none charCnt) fun _ => true) x).Terminates s) :
    ∃ y t, t.treeIndex = 255 ∧
      (Prog.loop (treeRound deepConsole deepTree (display hcfg deepTree texts none charCnt) fun _ => true) y).Terminates t ∧
      ∃ item, t.cmdListItem.deref deepTree = some item ∧ ∃ handler cmd, item = .cmd handler cmd := by
  induction k generalizing n base s x with
  | zero =>
    obtain rfl : n = 255 := hk
    refine ⟨x, s, hs.index.trans hbase, hterm, _, by rw [hs.item]; rfl, _, _, rfl⟩
  | succ k ih =>
    have hp : ItemPtr.deref deepTree ⟨n, 0⟩ = some (.group ⟨[0x7a], by decide⟩ (n + 1)) := by
      unfold ItemPtr.deref deepTree
      rw [if_pos (by dsimp only; omega)]
      rfl
    have hround : (treeRound deepConsole deepTree (display hcfg deepTree texts none charCnt) (fun _ => true) x).Returns s
        (.inl true) (descend s (n + 1)) := treeRound_group hs hp (by rw [hbase]; change n < 255; omega)
    obtain ⟨r, v, hret⟩ := hterm
    rw [loop_inl_iff hround] at hret
    exact ih (by omega) (hs.descend (hp ▸ rfl)) (by rw [List.length_append, hbase]; rfl) hret.terminates

/-- A counter of a byte never passes the index 255. -/
theorem cmdHelpFn_endless : ¬ ∀ (cfg : Config) (hcfg : HelpConfig) (lists : Lists) (texts : Texts) (argv : Option CString) (d : ℕ)
    (s : CliState), TreeDepth lists d 0 → d + 1 ≤ cfg.treeDepthMax → (cliCmdHelpFn cfg hcfg lists texts argv).Terminates s := by
  intro h
  obtain ⟨_, t, hret⟩ := h deepConsole boardHelp deepTree ledTexts none 255 (typedLine []) (deepTree_depth rfl) (by decide)
  unfold cliCmdHelpFn at hret
  obtain ⟨charCnt, u, -, hret⟩ := returns_bind.mp hret
  obtain ⟨y, v, hwalk, -⟩ := returns_bind.mp hret
  unfold treeWalk at hwalk
  rw [getRoot_returns.bind_iff] at hwalk
  have htree : (Function.update u.tree 0 ⟨0, 0⟩ : ℕ → ItemPtr) 0 = ⟨0, 0⟩ := Function.update_self _ _ _
  have hroot : Stands deepTree (rooted u) [] ⟨0, 0⟩ := ⟨rfl, htree, rfl, by simp⟩
  obtain ⟨x, w, hw, ⟨z, r, hloop⟩, item, hitem, handler, cmd, rfl⟩ := deep_descends (Nat.zero_add 255) hroot rfl hwalk.terminates
  have hbody : ∀ a r, ¬ (treeRound deepConsole deepTree (display boardHelp deepTree ledTexts none charCnt) (fun _ => true) x).Returns w a r := by
    intro a r hround
    unfold treeRound at hround
    rw [get_bind_returns, hitem] at hround
    obtain ⟨b, r', hdisplay, -⟩ := returns_bind.mp hround
    exact display_diverges hw hdisplay.terminates
  rcases returns_loop.mp hloop with hround | ⟨y', r', hround, -⟩
  · exact hbody _ _ hround
  · exact hbody _ _ hround

end bytes

end Lpc1788Libraries.Cli

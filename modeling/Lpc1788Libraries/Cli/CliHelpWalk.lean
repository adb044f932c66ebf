import Lpc1788Libraries.Cli.CliHelp

namespace Lpc1788Libraries.Cli

open Lpc1788Libraries.Support BoundedProgram BoundedProgram.Prog

/-- The commands of an item, in depth-first order, each with the items that lead to it. -/
def itemPaths (lists : Lists) : ℕ → ItemPtr → List (List ItemPtr)
  | 0, p =>
    match p.deref lists with
    | some (.cmd _ _) => [[p]]
    | _ => []
  | d + 1, p =>
    match p.deref lists with
    | some (.cmd _ _) => [[p]]
    | some (.group _ m) => ((List.range (lists m).length).flatMap fun b => itemPaths lists d ⟨m, b⟩).map (p :: ·)
    | none => []

def commandPaths (lists : Lists) (d n : ℕ) : List (List ItemPtr) :=
  (List.range (lists n).length).flatMap fun a => itemPaths lists d ⟨n, a⟩

variable {cfg : Config} {lists : Lists} {s t u : CliState} {n a d m : ℕ} {base : List ItemPtr} {p : ItemPtr}
  {handler : Handler} {cmd : Cmd} {name : CString} {β : Type} {visit : β → CliM β} {turn : β → β}
  {V : β → List ItemPtr → β → List Output → Prop} {x y z : β} {o o' : List Output} {ps qs : List (List ItemPtr)}

theorem itemPaths_cmd (h : p.deref lists = some (.cmd handler cmd)) : itemPaths lists d p = [[p]] := by
  cases d <;> simp [itemPaths, h]

theorem itemPaths_group (h : p.deref lists = some (.group name m)) :
    itemPaths lists (d + 1) p = (commandPaths lists d m).map (p :: ·) := by
  simp [itemPaths, commandPaths, h]

/-- A walk visits the paths one by one; it may turn before each of them, and at the end. -/
inductive Visits (V : β → List ItemPtr → β → List Output → Prop) (turn : β → β) :
    β → List (List ItemPtr) → β → List Output → Prop where
  | done (x : β) : Visits V turn x [] x []
  | visit {x y z : β} {path : List ItemPtr} {ps : List (List ItemPtr)} {o o' : List Output} (h : V x path y o)
      (rest : Visits V turn y ps z o') : Visits V turn x (path :: ps) z (o ++ o')
  | turn {x z : β} {ps : List (List ItemPtr)} {o : List Output} (rest : Visits V turn (turn x) ps z o) : Visits V turn x ps z o

theorem Visits.trans (h : Visits V turn x ps y o) (h' : Visits V turn y qs z o') :
    Visits V turn x (ps ++ qs) z (o ++ o') := by
  induction h with
  | done => exact h'
  | visit hv _ ih =>
    rw [List.append_assoc]
    exact .visit hv (ih h')
  | turn _ ih => exact .turn (ih h')

/-- The walk is on a place of a list, below the items of `base`. -/
structure Stands (lists : Lists) (s : CliState) (base : List ItemPtr) (p : ItemPtr) : Prop where
  item : s.cmdListItem = p
  tree : s.tree s.treeIndex = p
  path : (List.range s.treeIndex).map s.tree = base
  named : ∀ q ∈ base, (q.deref lists).isSome

theorem Stands.index (h : Stands lists s base p) : s.treeIndex = base.length := by
  rw [← h.path, List.length_map, List.length_range]

theorem stands_seat (hbase : (List.range s.treeIndex).map s.tree = base) (hnamed : ∀ q ∈ base, (q.deref lists).isSome) :
    Stands lists (seat s p) base p := by
  refine ⟨rfl, Function.update_self _ _ _, ?_, hnamed⟩
  rw [← hbase]
  apply List.map_congr_left
  intro i hi
  exact Function.update_of_ne (Nat.ne_of_lt (List.mem_range.mp hi)) _ _

theorem Stands.descend (h : Stands lists s base p) (hp : (p.deref lists).isSome) :
    Stands lists (descend s m) (base ++ [p]) ⟨m, 0⟩ := by
  refine ⟨rfl, Function.update_self _ _ _, ?_, ?_⟩
  · change (List.range (s.treeIndex + 1)).map (Function.update s.tree (s.treeIndex + 1) ⟨m, 0⟩) = _
    have hmap : (List.range (s.treeIndex + 1)).map (Function.update s.tree (s.treeIndex + 1) ⟨m, 0⟩) =
        (List.range (s.treeIndex + 1)).map s.tree := by
      apply List.map_congr_left
      intro i hi
      exact Function.update_of_ne (Nat.ne_of_lt (List.mem_range.mp hi)) _ _
    rw [hmap, List.range_succ, List.map_append, h.path, List.map_singleton, h.tree]
  · intro q hq
    rcases List.mem_append.mp hq with hq | hq
    · exact h.named q hq
    · rw [List.mem_singleton.mp hq]
      exact hp

/-- Back to the group whose list has ended, and on to the item behind it. -/
def ascend (s : CliState) (base : List ItemPtr) (p : ItemPtr) : CliState :=
  seat { s with treeIndex := base.length, cmdListItem := p } ⟨p.list, p.index + 1⟩

theorem Stands.parts {q : ItemPtr} (h : Stands lists s (base ++ [p]) q) :
    s.treeIndex = base.length + 1 ∧ s.tree base.length = p ∧ (List.range base.length).map s.tree = base := by
  have hindex := h.index
  rw [List.length_append, List.length_singleton] at hindex
  have hbase := h.path
  rw [hindex, List.range_succ, List.map_append, List.map_singleton] at hbase
  obtain ⟨hleft, hright⟩ := List.append_inj' hbase rfl
  exact ⟨hindex, List.singleton_inj.mp hright, hleft⟩

theorem Stands.ascend {q : ItemPtr} (h : Stands lists s (base ++ [p]) q) :
    Stands lists (ascend s base p) base ⟨p.list, p.index + 1⟩ :=
  stands_seat h.parts.2.2 fun r hr => h.named r (List.mem_append_left _ hr)

section rounds

theorem treeRound_group (h : Stands lists s base p) (hp : p.deref lists = some (.group name m))
    (hdepth : base.length < cfg.treeDepthMax - 1) :
    (treeRound cfg lists visit turn x).Returns s (.inl (turn x)) (descend s m) := by
  have hitem : s.cmdListItem.deref lists = some (.group name m) := by rw [h.item, hp]
  have hg : groupList lists s = some m := by simp only [groupList, hitem]
  unfold treeRound
  rw [get_bind_returns, hitem]
  exact (getChild_descend hg (h.index ▸ hdepth)).bind (returns_pure.mpr ⟨rfl, rfl⟩)

theorem treeRound_end {q : ItemPtr} (h : Stands lists s (base ++ [p]) q) (hq : q.deref lists = none) :
    (treeRound cfg lists visit turn x).Returns s (.inl (turn x)) (ascend s base p) := by
  obtain ⟨hindex, htree, -⟩ := h.parts
  have hne : s.treeIndex ≠ 0 := by omega
  have hsub : s.treeIndex - 1 = base.length := by omega
  have hparent : (cliCmdItemGetParent lists).Returns s (p.deref lists).isSome { s with treeIndex := base.length, cmdListItem := p } := by
    unfold cliCmdItemGetParent
    rw [get_bind_returns, if_neg hne, modify_bind_returns, hsub, htree]
    unfold cliCmdGetItem
    rw [modify_bind_returns]
    exact returns_pure.mpr ⟨rfl, rfl⟩
  have hnext := @getNext_seat lists { s with treeIndex := base.length, cmdListItem := p } p
    (h.named p (List.mem_append_right _ (List.mem_singleton_self p))) htree
  unfold treeRound
  rw [get_bind_returns, h.item, hq]
  simp only [if_neg hne]
  rw [hparent.bind_iff]
  exact hnext.bind (returns_pure.mpr ⟨rfl, rfl⟩)

theorem treeRound_last (h : Stands lists s [] p) (hp : p.deref lists = none) :
    (treeRound cfg lists visit turn x).Returns s (.inr x) s := by
  unfold treeRound
  rw [get_bind_returns, h.item, hp]
  simp only [h.index, List.length_nil, if_true]
  exact returns_pure.mpr ⟨rfl, rfl⟩

theorem treeRound_cmd (h : Stands lists s base p) (hp : p.deref lists = some (.cmd handler cmd))
    (hvisit : (visit x).Returns s y t) (htree : t.tree = s.tree) (hindex : t.treeIndex = s.treeIndex)
    (hitem : (t.cmdListItem.deref lists).isSome) :
    (treeRound cfg lists visit turn x).Returns s (.inl y) (seat t ⟨p.list, p.index + 1⟩) := by
  have hnext := @getNext_seat lists t p hitem (by rw [htree, hindex, h.tree])
  unfold treeRound
  rw [get_bind_returns, h.item, hp]
  exact hvisit.bind (hnext.bind (returns_pure.mpr ⟨rfl, rfl⟩))

end rounds

/-- A visit to a command leaves the path as it is. -/
def VisitsCommand (lists : Lists) (visit : β → CliM β) (V : β → List ItemPtr → β → List Output → Prop) : Prop :=
  ∀ x s base p handler cmd, Stands lists s base p → p.deref lists = some (.cmd handler cmd) → base.length < 255 →
    (visit x).Achieves s fun y t => ∃ o, V x (base ++ [p]) y o ∧ t.sent = s.sent ++ o ∧ t.tree = s.tree ∧
      t.treeIndex = s.treeIndex ∧ (t.cmdListItem.deref lists).isSome

/-- What the walk makes of the rest of a list. -/
structure Walked (cfg : Config) (lists : Lists) (visit : β → CliM β) (turn : β → β) (V : β → List ItemPtr → β → List Output → Prop)
    (base : List ItemPtr) (n : ℕ) (x : β) (s : CliState) (ps : List (List ItemPtr)) (y : β) (t : CliState) : Prop where
  visits : ∃ o, Visits V turn x (ps.map (base ++ ·)) y o ∧ t.sent = s.sent ++ o
  stands : Stands lists t base ⟨n, (lists n).length⟩
  loop : ∀ r v, (Prog.loop (treeRound cfg lists visit turn) y).Returns t r v →
    (Prog.loop (treeRound cfg lists visit turn) x).Returns s r v

theorem walk_items (hvisit : VisitsCommand lists visit V) {k : ℕ} (hk : a + k = (lists n).length)
    (hs : Stands lists s base ⟨n, a⟩) (hdepth : TreeDepth lists d n) (hd : base.length + d ≤ cfg.treeDepthMax - 1)
    (hbyte : base.length + d < 255) :
    ∃ y t, Walked cfg lists visit turn V base n x s ((List.range' a k).flatMap fun b => itemPaths lists d ⟨n, b⟩) y t := by
  induction d using Nat.strongRecOn generalizing k n a s x base with
  | ind d ih =>
    induction k generalizing a s x with
    | zero =>
      obtain rfl : a = (lists n).length := hk
      exact ⟨x, s, ⟨[], .done x, (List.append_nil _).symm⟩, hs, fun _ _ => id⟩
    | succ k ih' =>
      have ha : a < (lists n).length := by omega
      have hk' : a + 1 + k = (lists n).length := by omega
      rw [List.range'_succ, List.flatMap_cons]
      cases hi : (lists n)[a]? with
      | none => exact absurd (List.getElem?_eq_none_iff.mp hi) (Nat.not_le.mpr ha)
      | some item =>
        have hp : ItemPtr.deref lists ⟨n, a⟩ = some item := hi
        cases item with
        | cmd handler cmd =>
          obtain ⟨y, t, hret, o, hv, hsent, htree, hindex, hitem⟩ := hvisit x s base _ handler cmd hs hp (by omega)
          have hround : (treeRound cfg lists visit turn x).Returns s (.inl y) (seat t ⟨n, a + 1⟩) :=
            treeRound_cmd hs hp hret htree hindex hitem
          have hnext : Stands lists (seat t ⟨n, a + 1⟩) base ⟨n, a + 1⟩ := by
            apply stands_seat ?_ hs.named
            rw [htree, hindex, hs.path]
          obtain ⟨z, v, ⟨o', hvisits, hsent'⟩, hstands, hloop⟩ := ih' (x := y) hk' hnext
          refine ⟨z, v, ⟨o ++ o', ?_, ?_⟩, hstands, fun r w hr => loop_inl hround (hloop r w hr)⟩
          · rw [itemPaths_cmd hp]
            exact .visit hv hvisits
          · rw [hsent', ← List.append_assoc, ← hsent]
            rfl
        | group name m =>
          obtain ⟨d', rfl, hsub⟩ := hdepth.group (List.mem_of_getElem? hi)
          have hround : (treeRound cfg lists visit turn x).Returns s (.inl (turn x)) (descend s m) :=
            treeRound_group hs hp (by omega)
          have hdown := hs.descend (m := m) (hp ▸ rfl)
          obtain ⟨y, t, ⟨o, hvisits, hsent⟩, hstands, hloop⟩ := ih d' (Nat.lt_succ_self d') (x := turn x) (Nat.zero_add _) hdown hsub
            (by rw [List.length_append, List.length_singleton]; omega) (by rw [List.length_append, List.length_singleton]; omega)
          have hend : (treeRound cfg lists visit turn y).Returns t (.inl (turn y)) (ascend t base ⟨n, a⟩) :=
            treeRound_end hstands (List.getElem?_eq_none (Nat.le_refl _))
          obtain ⟨z, v, ⟨o', hvisits', hsent'⟩, hstands', hloop'⟩ := ih' (x := turn y) hk' hstands.ascend
          refine ⟨z, v, ⟨o ++ o', ?_, ?_⟩, hstands', fun r w hr => loop_inl hround (hloop r w (loop_inl hend (hloop' r w hr)))⟩
          · have hpaths : (itemPaths lists (d' + 1) ⟨n, a⟩).map (base ++ ·) =
                ((List.range' 0 (lists m).length).flatMap fun b => itemPaths lists d' ⟨m, b⟩).map (base ++ [⟨n, a⟩] ++ ·) := by
              rw [itemPaths_group hp, commandPaths, List.range_eq_range', List.map_map]
              congr 1
              funext path
              simp
            rw [List.map_append, hpaths]
            exact (Visits.turn hvisits).trans (.turn hvisits')
          · rw [hsent', ← List.append_assoc]
            exact congrArg (· ++ o') hsent

theorem treeWalk_achieves (hvisit : VisitsCommand lists visit V) (hdepth : TreeDepth lists d 0) (hd : d + 1 ≤ cfg.treeDepthMax)
    (hbyte : d + 1 ≤ 255) : (treeWalk cfg lists visit turn x).Achieves s fun y t =>
      ∃ o, Visits V turn x (commandPaths lists d 0) y o ∧ t.sent = s.sent ++ o := by
  have htree : (Function.update s.tree 0 ⟨0, 0⟩ : ℕ → ItemPtr) 0 = ⟨0, 0⟩ := Function.update_self _ _ _
  have hroot : Stands lists (rooted s) [] ⟨0, 0⟩ := ⟨rfl, htree, rfl, by simp⟩
  have hwalk : ∃ y t, Walked cfg lists visit turn V [] 0 x (rooted s)
      ((List.range' 0 (lists 0).length).flatMap fun b => itemPaths lists d ⟨0, b⟩) y t :=
    walk_items hvisit (Nat.zero_add _) hroot hdepth (by rw [List.length_nil]; omega) (by rw [List.length_nil]; omega)
  obtain ⟨y, t, ⟨o, hvisits, hsent⟩, hstands, hloop⟩ := hwalk
  refine ⟨y, t, ?_, o, ?_, hsent⟩
  · unfold treeWalk
    rw [getRoot_returns.bind_iff]
    exact hloop y t (loop_inr (treeRound_last hstands (List.getElem?_eq_none (Nat.le_refl _))))
  · rw [← List.range_eq_range'] at hvisits
    simpa [commandPaths] using hvisits

end Lpc1788Libraries.Cli

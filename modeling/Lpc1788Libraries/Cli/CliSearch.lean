import Lpc1788Libraries.Cli.CliEditor
import Lpc1788Libraries.Support.CyclicSearch

namespace Lpc1788Libraries.Cli

open Lpc1788Libraries.Support BoundedProgram BoundedProgram.Prog

variable {cfg : Config} {lists : Lists} {s t : CliState} {n a : ℕ} {item : ListItem}

/-- The iterator is on an item of a list, and the item above it in the tree is the list's group. -/
structure AtItem (lists : Lists) (s : CliState) (n a : ℕ) : Prop where
  item_eq : s.cmdListItem = ⟨n, a⟩
  tree_eq : s.tree s.treeIndex = ⟨n, a⟩
  lt : a < (lists n).length
  root : s.treeIndex = 0 → n = 0
  parent : s.treeIndex ≠ 0 → ∃ name, (s.tree (s.treeIndex - 1)).deref lists = some (.group name n)

/-- The lists of a tree of at most `d` groups under one another, with names that are words. -/
def TreeOk (lists : Lists) : ℕ → ℕ → Prop
  | 0, n => ∀ item ∈ lists n, 0x20 ∉ item.name.chars ∧ ∀ name m, item ≠ .group name m
  | d + 1, n => ∀ item ∈ lists n, 0x20 ∉ item.name.chars ∧ ∀ name m, item = .group name m → TreeOk lists d m

@[simp] theorem ListItem.name_cmd {handler : Handler} {cmd : Cmd} : (ListItem.cmd handler cmd).name = cmd.name := rfl

@[simp] theorem ListItem.name_group {name : CString} {m : ℕ} : (ListItem.group name m).name = name := rfl

theorem TreeOk.word {d : ℕ} (h : TreeOk lists d n) (hm : item ∈ lists n) : 0x20 ∉ item.name.chars := by
  cases d with
  | zero => exact (h item hm).1
  | succ d => exact (h item hm).1

theorem TreeOk.group {d m : ℕ} {name : CString} (h : TreeOk lists d n) (hm : .group name m ∈ lists n) :
    ∃ k, d = k + 1 ∧ TreeOk lists k m := by
  cases d with
  | zero => exact absurd rfl ((h _ hm).2 name m)
  | succ d => exact ⟨d, rfl, (h _ hm).2 name m rfl⟩

section iterator

theorem AtItem.deref (h : AtItem lists s n a) : s.cmdListItem.deref lists = (lists n)[a]? := by
  rw [h.item_eq]
  rfl

theorem itemName_returns (h : AtItem lists s n a) (hi : (lists n)[a]? = some item) :
    (itemName lists).Returns s item.name s := by
  unfold itemName
  rw [returns_attempt, h.deref, hi]
  rfl

/-- The iterator on a place of the current list. -/
def seat (s : CliState) (p : ItemPtr) : CliState :=
  { s with tree := Function.update s.tree s.treeIndex p, cmdListItem := p }

theorem seat_seat (p q : ItemPtr) : seat (seat s p) q = seat s q := by simp [seat]

theorem seat_parent (p : ItemPtr) (hne : s.treeIndex ≠ 0) : (seat s p).tree (s.treeIndex - 1) = s.tree (s.treeIndex - 1) :=
  Function.update_of_ne (by omega) _ _

theorem AtItem.seat {b : ℕ} (h : AtItem lists s n a) (hb : b < (lists n).length) :
    AtItem lists (seat s ⟨n, b⟩) n b := by
  refine ⟨rfl, Function.update_self _ _ _, hb, h.root, fun (hne : s.treeIndex ≠ 0) => ?_⟩
  change ∃ name, ((Cli.seat s ⟨n, b⟩).tree (s.treeIndex - 1)).deref lists = _
  rw [seat_parent _ hne]
  exact h.parent hne

theorem getNext_seat {p : ItemPtr} (hitem : (s.cmdListItem.deref lists).isSome) (htree : s.tree s.treeIndex = p) :
    (cliCmdItemGetNext lists).Returns s ((lists p.list)[p.index + 1]?).isSome (seat s ⟨p.list, p.index + 1⟩) := by
  have hsome : (s.cmdListItem.deref lists).isNone = false := by
    rw [← Option.not_isSome, hitem]
    rfl
  unfold cliCmdItemGetNext
  rw [get_bind_returns]
  simp only [hsome, Bool.false_eq_true, if_false, htree, cliCmdGetItem, modify_bind_returns]
  exact returns_pure.mpr ⟨rfl, rfl⟩

theorem getNext_returns (h : AtItem lists s n a) :
    (cliCmdItemGetNext lists).Returns s ((lists n)[a + 1]?).isSome (seat s ⟨n, a + 1⟩) := by
  apply getNext_seat ?_ h.tree_eq
  rw [h.deref, List.getElem?_eq_getElem h.lt]
  rfl

theorem getFirst_returns (hroot : s.treeIndex = 0 → n = 0)
    (hparent : s.treeIndex ≠ 0 → ∃ name, (s.tree (s.treeIndex - 1)).deref lists = some (.group name n)) :
    (cliCmdItemGetFirst lists).Returns s ((lists n)[0]?).isSome (seat s ⟨n, 0⟩) := by
  unfold cliCmdItemGetFirst
  rw [get_bind_returns]
  by_cases h0 : s.treeIndex = 0
  · obtain rfl := hroot h0
    simp only [h0, if_true, modify_bind_returns, get_bind_returns, Function.update_self, cliCmdGetItem]
    refine returns_pure.mpr ⟨rfl, ?_⟩
    simp [seat, h0]
  · obtain ⟨name, hp⟩ := hparent h0
    have hg : groupList lists { s with cmdListItem := s.tree (s.treeIndex - 1) } = some n := by
      simp only [groupList, hp]
    have hat : (Prog.attempt fun s : CliState => (groupList lists s).map fun l =>
        ((), { s with tree := Function.update s.tree s.treeIndex ⟨l, 0⟩ })).Returns
        { s with cmdListItem := s.tree (s.treeIndex - 1) } ()
        { s with cmdListItem := s.tree (s.treeIndex - 1), tree := Function.update s.tree s.treeIndex ⟨n, 0⟩ } := by
      rw [returns_attempt, hg]
      rfl
    simp only [h0, if_false, cliCmdGetItem, bind_assoc, modify_bind_returns, pure_bind_returns]
    rw [hat.bind_iff]
    simp only [get_bind_returns, Function.update_self, modify_bind_returns]
    exact returns_pure.mpr ⟨rfl, rfl⟩

theorem nextCyclic_returns (h : AtItem lists s n a) :
    (nextCyclic lists).Returns s () (seat s ⟨n, (a + 1) % (lists n).length⟩) := by
  have hlt := h.lt
  unfold nextCyclic
  rw [(getNext_returns h).bind_iff]
  by_cases hlast : a + 1 < (lists n).length
  · rw [List.getElem?_eq_getElem hlast, Nat.mod_eq_of_lt hlast]
    exact returns_pure.mpr ⟨rfl, rfl⟩
  · have hend : a + 1 = (lists n).length := by omega
    rw [List.getElem?_eq_none (by omega), hend, Nat.mod_self]
    have hfirst := @getFirst_returns lists (seat s ⟨n, a + 1⟩) n h.root
      fun (hne : s.treeIndex ≠ 0) => by
      change ∃ name, ((seat s ⟨n, a + 1⟩).tree (s.treeIndex - 1)).deref lists = _
      rw [seat_parent _ hne]
      exact h.parent hne
    rw [seat_seat, hend] at hfirst
    exact hfirst.bind (returns_pure.mpr ⟨rfl, rfl⟩)

/-- The first item of a group's list. -/
def descend (s : CliState) (m : ℕ) : CliState := { s with
  treeIndex := s.treeIndex + 1
  tree := Function.update s.tree (s.treeIndex + 1) ⟨m, 0⟩
  cmdListItem := ⟨m, 0⟩ }

theorem getChild_descend {m : ℕ} (hg : groupList lists s = some m) (hdepth : s.treeIndex < cfg.treeDepthMax - 1) :
    (cliCmdItemGetChild cfg lists).Returns s ((lists m)[0]?).isSome (descend s m) := by
  unfold cliCmdItemGetChild
  rw [get_bind_returns]
  simp only [hg, if_neg (Nat.not_le.mpr hdepth), modify_bind_returns, cliCmdGetItem]
  exact returns_pure.mpr ⟨rfl, rfl⟩

theorem getChild_returns {name : CString} {m : ℕ} (h : AtItem lists s n a)
    (hi : (lists n)[a]? = some (.group name m)) (hdepth : s.treeIndex < cfg.treeDepthMax - 1) :
    (cliCmdItemGetChild cfg lists).Returns s ((lists m)[0]?).isSome (descend s m) := by
  apply getChild_descend ?_ hdepth
  simp only [groupList, h.deref, hi]

theorem AtItem.descend {name : CString} {m : ℕ} (h : AtItem lists s n a)
    (hi : (lists n)[a]? = some (.group name m)) (hm : 0 < (lists m).length) : AtItem lists (descend s m) m 0 := by
  refine ⟨rfl, Function.update_self _ _ _, hm, fun h0 => absurd h0 (Nat.succ_ne_zero _), fun _ => ⟨name, ?_⟩⟩
  change ((Function.update s.tree (s.treeIndex + 1) ⟨m, 0⟩) s.treeIndex).deref lists = _
  rw [Function.update_of_ne (by omega), h.tree_eq]
  exact hi

end iterator

section matching

variable {i k j m : ℕ} {name : CString} {text : List UInt8}

/-- The text that is left to be matched. -/
structure Reads (s : CliState) (i : ℕ) (text : List UInt8) : Prop where
  chars : ∀ k (hk : k < text.length), s.lineBuf (i + k) = text[k]
  ends : i + text.length = s.autocompleteEndIndex
  nonzero : 0 ∉ text

theorem Reads.still (h : Reads s i text) (hst : t.still = s.still) : Reads t i text := by
  have hb : t.lineBuf = s.lineBuf := congrArg (fun x => x.2.1.1) hst
  have he : t.autocompleteEndIndex = s.autocompleteEndIndex := congrArg (fun x => x.2.1.2.2.2) hst
  refine ⟨?_, he ▸ h.ends, h.nonzero⟩
  rw [hb]
  exact h.chars

theorem nameChar_bind {α : Type} {f : UInt8 → CliM α} {x : α} (hk : k ≤ name.chars.length) :
    (nameChar name k >>= f).Returns s x t ↔ (f (name.chars[k]?.getD 0)).Returns s x t := by
  unfold nameChar
  rw [bind_assoc, check_bind_returns, pure_bind_returns]
  exact ⟨fun h => h.2, fun h => ⟨hk, h⟩⟩

theorem name_char_ne_zero (hk : k < name.chars.length) : name.chars[k]?.getD 0 ≠ 0 := by
  rw [List.getElem?_eq_getElem hk, Option.getD_some]
  exact fun h0 => name.nonzero (h0 ▸ List.getElem_mem hk)

theorem match_agree {r : Option (ℕ × CString × ℕ)} (hr : Reads s i text) (hj : j ≤ text.length)
    (hjn : j ≤ name.chars.length) (hagree : ∀ x < j, name.chars[x]? = text[x]?) :
    (Prog.loop (matchRound cfg lists name) (i, 0)).Returns s r t ↔
      (Prog.loop (matchRound cfg lists name) (i + j, j)).Returns s r t := by
  induction j with
  | zero => rfl
  | succ j ih =>
    rw [ih (by omega) (by omega) fun x hx => hagree x (by omega)]
    apply loop_inl_iff
    have hends := hr.ends
    have hlt : i + j < s.autocompleteEndIndex := by omega
    have hc : name.chars[j]?.getD 0 = text[j] := by
      rw [hagree j (Nat.lt_succ_self j), List.getElem?_eq_getElem (by omega)]
      rfl
    have hc0 := name_char_ne_zero (show j < name.chars.length by omega)
    have hchar := hr.chars j (by omega)
    unfold matchRound
    simp only [get_bind_returns, if_pos hlt]
    rw [nameChar_bind (by omega)]
    rw [hc] at hc0 ⊢
    simp only [hc0, hchar, false_and, if_false, ne_eq, not_true_eq_false]
    exact returns_pure.mpr ⟨rfl, rfl⟩

theorem match_fits (hr : Reads s i text) (hfit : text <+: name.chars) :
    (matchName cfg lists i name).Returns s (some (s.autocompleteEndIndex, name, text.length)) s := by
  unfold matchName
  rw [match_agree hr (Nat.le_refl _) hfit.length_le]
  · apply loop_inr
    unfold matchRound
    have hends := hr.ends
    rw [get_bind_returns, if_neg (by omega), hends]
    exact returns_pure.mpr ⟨rfl, rfl⟩
  · intro x hx
    obtain ⟨rest, hrest⟩ := hfit
    rw [← hrest, List.getElem?_append_left hx]

theorem agree_of_passes (hpass : name.chars ++ [0x20] <+: text) :
    (∀ x < name.chars.length, name.chars[x]? = text[x]?) ∧ name.chars.length < text.length ∧
      text[name.chars.length]? = some 0x20 := by
  obtain ⟨rest, rfl⟩ := hpass
  refine ⟨?_, ?_, ?_⟩
  · intro x hx
    rw [List.append_assoc, List.getElem?_append_left hx]
  · simp
  · simp

theorem match_command (hr : Reads s i text) (hpass : name.chars ++ [0x20] <+: text)
    (hg : groupList lists s = none) : (matchName cfg lists i name).Returns s none s := by
  obtain ⟨hagree, hlt, hspace⟩ := agree_of_passes hpass
  unfold matchName
  rw [match_agree hr (Nat.le_of_lt hlt) (Nat.le_refl _) hagree]
  apply loop_inr
  have hends := hr.ends
  have hchar := hr.chars name.chars.length hlt
  rw [List.getElem?_eq_getElem hlt, Option.some.injEq] at hspace
  rw [hspace] at hchar
  unfold matchRound
  simp only [get_bind_returns, if_pos (by omega : i + name.chars.length < s.autocompleteEndIndex)]
  rw [nameChar_bind (Nat.le_refl _)]
  simp only [List.getElem?_eq_none (Nat.le_refl _), Option.getD_none, hchar, hg, and_self, if_true,
    Option.isSome_none, Bool.false_eq_true, if_false]
  exact returns_pure.mpr ⟨rfl, rfl⟩

/-- The start of the word behind the name of a group, in the group's list. -/
def enter (s : CliState) (m i : ℕ) : CliState := { descend s m with autocompleteStartIndex := i }

variable (cfg) in
theorem match_group {group : CString} {first : ListItem} (hs : AtItem lists s n a)
    (hi : (lists n)[a]? = some (.group group m)) (hdepth : s.treeIndex < cfg.treeDepthMax - 1)
    (hfirst : (lists m)[0]? = some first) (hr : Reads s i text) (hpass : name.chars ++ [0x20] <+: text) :
    (matchName cfg lists i name).Returns s (some (i + name.chars.length + 1, first.name, 0))
      (enter s m (i + name.chars.length + 1)) := by
  obtain ⟨hagree, hlt, hspace⟩ := agree_of_passes hpass
  have hg : groupList lists s = some m := by simp only [groupList, hs.deref, hi]
  have hm := (List.getElem?_eq_some_iff.mp hfirst).1
  have hends := hr.ends
  have hchar := hr.chars name.chars.length hlt
  rw [List.getElem?_eq_getElem hlt, Option.some.injEq] at hspace
  rw [hspace] at hchar
  unfold matchName
  rw [match_agree hr (Nat.le_of_lt hlt) (Nat.le_refl _) hagree]
  apply loop_inr
  unfold matchRound
  simp only [get_bind_returns, if_pos (by omega : i + name.chars.length < s.autocompleteEndIndex)]
  rw [nameChar_bind (Nat.le_refl _)]
  simp only [List.getElem?_eq_none (Nat.le_refl _), Option.getD_none, hchar, hg, and_self, if_true, Option.isSome_some]
  rw [(getChild_returns hs hi hdepth).bind_iff, (itemName_returns (hs.descend hi hm) hfirst).bind_iff, modify_bind_returns]
  exact returns_pure.mpr ⟨rfl, rfl⟩

theorem exists_differ {l r : List UInt8} (hfit : ¬ r <+: l) (hpass : ¬ l ++ [0x20] <+: r) :
    ∃ j < r.length, j ≤ l.length ∧ (∀ x < j, l[x]? = r[x]?) ∧ l[j]? ≠ r[j]? ∧ (j = l.length → r[j]? ≠ some 0x20) := by
  induction l generalizing r with
  | nil =>
    cases r with
    | nil => exact absurd List.prefix_rfl hfit
    | cons c r =>
      refine ⟨0, by simp, by simp, fun x hx => absurd hx (Nat.not_lt_zero x), by simp, fun _ h => hpass ?_⟩
      simp only [List.getElem?_cons_zero, Option.some.injEq] at h
      exact ⟨r, by rw [h]; rfl⟩
  | cons b l ih =>
    cases r with
    | nil => exact absurd List.nil_prefix hfit
    | cons c r =>
      by_cases hbc : b = c
      · subst hbc
        rw [List.prefix_cons_inj] at hfit
        rw [List.cons_append, List.prefix_cons_inj] at hpass
        obtain ⟨j, hj, hjl, hagree, hne, hend⟩ := ih hfit hpass
        refine ⟨j + 1, by simpa using hj, by simpa using hjl, ?_, by simpa using hne, by simpa using hend⟩
        rintro (_ | x) hx
        · rfl
        · exact hagree x (by omega)
      · refine ⟨0, by simp, by simp, fun x hx => absurd hx (Nat.not_lt_zero x), by simpa using hbc, by simp⟩

variable (cfg) in
theorem match_differs (hs : AtItem lists s n a) (hr : Reads s i text) (hfit : ¬ text <+: name.chars)
    (hpass : ¬ name.chars ++ [0x20] <+: text) : ∃ k, (matchName cfg lists i name).Returns s
      (some (s.autocompleteStartIndex, name, k)) (seat s ⟨n, (a + 1) % (lists n).length⟩) := by
  obtain ⟨j, hj, hjl, hagree, hne, hend⟩ := exists_differ hfit hpass
  have hends := hr.ends
  have hchar := hr.chars j hj
  have hdiff : s.lineBuf (i + j) ≠ name.chars[j]?.getD 0 := by
    rw [hchar]
    cases hg : name.chars[j]? with
    | none =>
      rw [Option.getD_none]
      exact fun h0 => hr.nonzero (h0 ▸ List.getElem_mem hj)
    | some c =>
      rw [Option.getD_some]
      rintro rfl
      exact hne (by rw [hg, List.getElem?_eq_getElem hj])
  have hspace : ¬ (name.chars[j]?.getD 0 = 0 ∧ s.lineBuf (i + j) = 0x20) := by
    rintro ⟨h0, h20⟩
    rcases Nat.lt_or_eq_of_le hjl with hlt | heq
    · exact name_char_ne_zero hlt h0
    · refine hend heq ?_
      rw [List.getElem?_eq_getElem hj, ← hchar, h20]
  refine ⟨j + 1, ?_⟩
  unfold matchName
  rw [match_agree hr (Nat.le_of_lt hj) hjl hagree]
  apply loop_inr
  unfold matchRound
  simp only [get_bind_returns, if_pos (by omega : i + j < s.autocompleteEndIndex)]
  rw [nameChar_bind hjl]
  simp only [hspace, if_false, ne_eq, hdiff, not_false_eq_true, if_true]
  rw [(nextCyclic_returns hs).bind_iff, get_bind_returns]
  exact returns_pure.mpr ⟨rfl, rfl⟩

end matching

section searching

variable (cfg) (start : ItemPtr) {m : ℕ} {text : List UInt8} {r : Option (ℕ × CString × ℕ)}

/-- The item has nothing to do with the text. -/
def Differs (text : List UInt8) (item : ListItem) : Prop :=
  ¬ text <+: item.name.chars ∧ ¬ item.name.chars ++ [0x20] <+: text

theorem find_differs (hs : AtItem lists s n a) (hr : Reads s s.autocompleteStartIndex text)
    (hi : (lists n)[a]? = some item) (hd : Differs text item) :
    (findRound cfg lists start s.autocompleteStartIndex).Returns s
      (if (⟨n, (a + 1) % (lists n).length⟩ : ItemPtr) = start then .inr none else .inl s.autocompleteStartIndex)
      (seat s ⟨n, (a + 1) % (lists n).length⟩) := by
  have hne : text ≠ [] := by
    rintro rfl
    exact hd.1 List.nil_prefix
  have hpos := List.length_pos_iff.mpr hne
  have hends := hr.ends
  obtain ⟨k, hm⟩ := match_differs cfg hs hr hd.1 hd.2
  unfold findRound
  rw [(itemName_returns hs hi).bind_iff, hm.bind_iff]
  simp only [get_bind_returns]
  rw [if_neg (by change ¬ s.autocompleteEndIndex ≤ _; omega)]
  have htree : (seat s ⟨n, (a + 1) % (lists n).length⟩).tree (seat s ⟨n, (a + 1) % (lists n).length⟩).treeIndex =
      ⟨n, (a + 1) % (lists n).length⟩ := Function.update_self _ _ _
  rw [htree]
  split
  · exact returns_pure.mpr ⟨rfl, rfl⟩
  · exact returns_pure.mpr ⟨rfl, rfl⟩

theorem seat_self (hs : AtItem lists s n a) : seat s ⟨n, a⟩ = s := by
  have hi := hs.item_eq
  have ht : Function.update s.tree s.treeIndex ⟨n, a⟩ = s.tree := by rw [← hs.tree_eq, Function.update_eq_self]
  unfold seat
  rw [ht, ← hi]

theorem find_skip (hs : AtItem lists s n a) (hr : Reads s s.autocompleteStartIndex text)
    (hd : ∀ j < m, ∀ y ∈ (lists n)[(a + j) % (lists n).length]?, Differs text y)
    (hcycle : ∀ j, 0 < j → j ≤ m → (⟨n, (a + j) % (lists n).length⟩ : ItemPtr) ≠ start) :
    (findMatch cfg lists start s.autocompleteStartIndex).Returns s r t ↔
      (findMatch cfg lists start s.autocompleteStartIndex).Returns
        (seat s ⟨n, (a + m) % (lists n).length⟩) r t := by
  induction m with
  | zero => rw [Nat.add_zero, Nat.mod_eq_of_lt hs.lt, seat_self hs]
  | succ m ih =>
    rw [ih (fun j hj => hd j (by omega)) fun j hj hjm => hcycle j hj (by omega)]
    have hN : 0 < (lists n).length := Nat.lt_of_le_of_lt (Nat.zero_le _) hs.lt
    have hlt := Nat.mod_lt (a + m) hN
    have hs' := hs.seat hlt
    have hget := List.getElem?_eq_getElem hlt
    have hround := find_differs cfg start hs' (hr.still rfl) hget
      (hd m (Nat.lt_succ_self m) _ hget)
    rw [Nat.mod_add_mod, Nat.add_assoc, if_neg (hcycle (m + 1) (Nat.succ_pos m) (Nat.le_refl _)), seat_seat] at hround
    exact loop_inl_iff hround

theorem add_mod_ne {j N : ℕ} (ha : a < N) (hj : 0 < j) (hjN : j < N) : (a + j) % N ≠ a := by
  by_cases hw : a + j < N
  · rw [Nat.mod_eq_of_lt hw]
    omega
  · rw [Nat.mod_eq_sub_mod (by omega), Nat.mod_eq_of_lt (by omega)]
    omega

theorem find_none (hs : AtItem lists s n a) (hr : Reads s s.autocompleteStartIndex text)
    (hd : ∀ y ∈ lists n, Differs text y) :
    (findMatch cfg lists ⟨n, a⟩ s.autocompleteStartIndex).Returns s none s := by
  have hN : 0 < (lists n).length := Nat.lt_of_le_of_lt (Nat.zero_le _) hs.lt
  have hall : ∀ j, ∀ y ∈ (lists n)[(a + j) % (lists n).length]?, Differs text y :=
    fun j y hy => hd y (List.mem_of_getElem? hy)
  have hcycle : ∀ j, 0 < j → j ≤ (lists n).length - 1 →
      (⟨n, (a + j) % (lists n).length⟩ : ItemPtr) ≠ ⟨n, a⟩ :=
    fun j hj hle h => add_mod_ne hs.lt hj (by omega) (congrArg ItemPtr.index h)
  rw [find_skip cfg ⟨n, a⟩ hs hr (fun j _ => hall j) hcycle]
  have hlt := Nat.mod_lt (a + ((lists n).length - 1)) hN
  have hget := List.getElem?_eq_getElem hlt
  have hround := find_differs cfg ⟨n, a⟩ (hs.seat hlt) (hr.still rfl) hget
    (hall _ _ hget)
  have hback : ((a + ((lists n).length - 1)) % (lists n).length + 1) % (lists n).length = a := by
    rw [Nat.mod_add_mod, show a + ((lists n).length - 1) + 1 = a + (lists n).length by omega, Nat.add_mod_right,
      Nat.mod_eq_of_lt hs.lt]
  rw [hback, if_pos rfl, seat_seat, seat_self hs] at hround
  exact loop_inr hround

theorem find_endless (hs : AtItem lists s n a) (hr : Reads s s.autocompleteStartIndex text)
    (hd : ∀ y ∈ lists n, Differs text y) (hn : n ≠ start.list) :
    ¬ (findMatch cfg lists start s.autocompleteStartIndex).Terminates s := by
  let I (i : ℕ) (u : CliState) : Prop :=
    i = u.autocompleteStartIndex ∧ Reads u u.autocompleteStartIndex text ∧ ∃ b, AtItem lists u n b
  refine loop_diverges (I := I) ?_ ⟨rfl, hr, a, hs⟩
  rintro _ u z v ⟨rfl, hru, b, hu⟩ hv
  have hget := List.getElem?_eq_getElem hu.lt
  have hround := find_differs cfg start hu hru hget (hd _ (List.getElem_mem hu.lt))
  rw [if_neg fun h => hn (congrArg ItemPtr.list h)] at hround
  obtain ⟨rfl, rfl⟩ := hround.unique hv
  have hpos := hu.lt
  exact ⟨_, rfl, rfl, hru.still rfl, _, hu.seat (Nat.mod_lt _ (by omega))⟩

theorem find_fits (hs : AtItem lists s n a) (hi : (lists n)[a]? = some item)
    (hr : Reads s s.autocompleteStartIndex text) (hfit : text <+: item.name.chars) :
    (findMatch cfg lists start s.autocompleteStartIndex).Returns s
      (some (s.autocompleteEndIndex, item.name, text.length)) s := by
  apply loop_inr
  unfold findRound
  rw [(itemName_returns hs hi).bind_iff, (match_fits hr hfit).bind_iff]
  simp only [get_bind_returns, Nat.le_refl, if_true]
  exact returns_pure.mpr ⟨rfl, rfl⟩

theorem find_command {handler : Handler} {cmd : Cmd} (hs : AtItem lists s n a)
    (hi : (lists n)[a]? = some (.cmd handler cmd)) (hr : Reads s s.autocompleteStartIndex text)
    (hpass : cmd.name.chars ++ [0x20] <+: text) :
    (findMatch cfg lists start s.autocompleteStartIndex).Returns s none s := by
  have hg : groupList lists s = none := by simp only [groupList, hs.deref, hi]
  apply loop_inr
  unfold findRound
  rw [(itemName_returns hs hi).bind_iff, ListItem.name_cmd, (match_command hr hpass hg).bind_iff]
  exact returns_pure.mpr ⟨rfl, rfl⟩

theorem enter_atItem {name : CString} {i : ℕ} (hs : AtItem lists s n a) (hi : (lists n)[a]? = some (.group name m))
    (hm : 0 < (lists m).length) : AtItem lists (enter s m i) m 0 := by
  have hd := hs.descend hi hm
  exact ⟨hd.item_eq, hd.tree_eq, hd.lt, hd.root, hd.parent⟩

theorem enter_reads {rest l : List UInt8} (hr : Reads s s.autocompleteStartIndex (l ++ 0x20 :: rest)) :
    Reads (enter s m (s.autocompleteStartIndex + l.length + 1)) (s.autocompleteStartIndex + l.length + 1) rest := by
  have hends := hr.ends
  refine ⟨?_, ?_, fun h0 => hr.nonzero (by simp [h0])⟩
  · intro k hk
    have hchar := hr.chars (l.length + 1 + k) (by simp; omega)
    change s.lineBuf _ = _
    rw [show s.autocompleteStartIndex + l.length + 1 + k = s.autocompleteStartIndex + (l.length + 1 + k) by omega, hchar,
      List.getElem_append_right (by omega)]
    simp only [show l.length + 1 + k - l.length = k + 1 by omega, List.getElem_cons_succ]
  · change _ = s.autocompleteEndIndex
    rw [← hends, List.length_append, List.length_cons]
    omega

theorem find_group {name : CString} {first : ListItem} {rest : List UInt8} (hs : AtItem lists s n a)
    (hi : (lists n)[a]? = some (.group name m)) (hdepth : s.treeIndex < cfg.treeDepthMax - 1)
    (hfirst : (lists m)[0]? = some first)
    (hr : Reads s s.autocompleteStartIndex (name.chars ++ 0x20 :: rest)) (hm : m ≠ start.list) :
    (findMatch cfg lists start s.autocompleteStartIndex).Returns s r t ↔
      (findMatch cfg lists start (s.autocompleteStartIndex + name.chars.length + 1)).Returns
        (enter s m (s.autocompleteStartIndex + name.chars.length + 1)) r t := by
  have hends := hr.ends
  have hlen := (List.getElem?_eq_some_iff.mp hfirst).1
  have hmatch := match_group cfg hs hi hdepth hfirst hr
    ⟨rest, by rw [List.append_assoc, List.singleton_append]⟩
  have hat := enter_atItem (i := s.autocompleteStartIndex + name.chars.length + 1) hs hi hlen
  have hreads := enter_reads (m := m) hr
  have htree : ∀ i, (enter s m i).tree (enter s m i).treeIndex = ⟨m, 0⟩ :=
    fun i => Function.update_self _ _ _
  cases rest with
  | nil =>
    -- the first item goes with the empty word
    have hend : s.autocompleteStartIndex + name.chars.length + 1 = s.autocompleteEndIndex := by
      rw [← hends]
      simp only [List.length_append, List.length_cons, List.length_nil]
      omega
    have hret : (findMatch cfg lists start s.autocompleteStartIndex).Returns s
        (some (s.autocompleteEndIndex, first.name, 0))
        (enter s m (s.autocompleteStartIndex + name.chars.length + 1)) := by
      apply loop_inr
      unfold findRound
      rw [(itemName_returns hs hi).bind_iff, ListItem.name_group, hmatch.bind_iff]
      simp only [get_bind_returns]
      rw [if_pos (by change s.autocompleteEndIndex ≤ _; omega), hend]
      exact returns_pure.mpr ⟨rfl, rfl⟩
    have hret' := find_fits cfg start hat hfirst hreads List.nil_prefix
    constructor
    · intro h
      obtain ⟨rfl, rfl⟩ := hret.unique h
      exact hret'
    · intro h
      obtain ⟨rfl, rfl⟩ := h.unique hret'
      exact hret
  | cons c rest =>
    have hlt : s.autocompleteStartIndex + name.chars.length + 1 < s.autocompleteEndIndex := by
      rw [← hends]
      simp only [List.length_append, List.length_cons]
      omega
    apply loop_inl_iff
    unfold findRound
    rw [(itemName_returns hs hi).bind_iff, ListItem.name_group, hmatch.bind_iff]
    simp only [get_bind_returns]
    rw [if_neg (by change ¬ s.autocompleteEndIndex ≤ _; omega), htree, if_neg]
    · exact returns_pure.mpr ⟨rfl, rfl⟩
    · exact fun h => hm (congrArg ItemPtr.list h)

end searching

end Lpc1788Libraries.Cli

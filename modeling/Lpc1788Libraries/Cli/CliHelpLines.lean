import Lpc1788Libraries.Cli.CliHelpWalk
import Mathlib.Data.List.Nodup

namespace Lpc1788Libraries.Cli

open Lpc1788Libraries.Support BoundedProgram BoundedProgram.Prog

variable {cfg : Config} {hcfg : HelpConfig} {lists : Lists} {texts : Texts} {s t : CliState} {base path : List ItemPtr} {p : ItemPtr}
  {handler : Handler} {cmd : Cmd} {charCnt : ℕ × ℕ} {argv : Option CString}

section text

def nameOf (lists : Lists) (p : ItemPtr) : CString := ((p.deref lists).map ListItem.name).getD ⟨[], List.not_mem_nil⟩

def chars (str : CString) : List Output := str.chars.map .char

/-- The names on a path, each with a space behind it. -/
def pathText (lists : Lists) (path : List ItemPtr) : List Output :=
  path.flatMap fun q => chars (nameOf lists q) ++ [.char 0x20]

/-- The number of characters of the path, as a byte. -/
def pathLength (lists : Lists) (len : ℕ) (path : List ItemPtr) : ℕ :=
  path.foldl (fun len q => (len + (nameOf lists q).chars.length + 1) % 0x100) len

def spaces (n : ℕ) : List Output := List.replicate n (.char 0x20)

def paramLength (text : HelpTexts) : ℕ := text.param.chars.length % 0x100

def commandOf (path : List ItemPtr) : ItemPtr := path.getLast?.getD ⟨0, 0⟩

/-- The line of a command: its path, its parameters and, where they are shown, its help. -/
def helpLine (hcfg : HelpConfig) (lists : Lists) (texts : Texts) (charCnt : ℕ × ℕ) (path : List ItemPtr) : List Output :=
  pathText lists path ++ spaces (charCnt.1 - pathLength lists 0 path) ++ chars (texts (commandOf path)).param ++
    (if hcfg.dispHelpStr then spaces (charCnt.2 - paramLength (texts (commandOf path))) ++
      [.char 0x20, .char 0x3a, .char 0x20] ++ chars (texts (commandOf path)).help else []) ++ [.char 0x0a]

/-- Does the name of the first item begin with the argument? -/
def shown (lists : Lists) (argv : Option CString) (path : List ItemPtr) : Bool :=
  argv.all fun a => a.chars.isPrefixOf (nameOf lists (path.head?.getD ⟨0, 0⟩)).chars

theorem strncmpEq_eq {a b : CString} : strncmpEq a b a.chars.length = a.chars.isPrefixOf b.chars := by
  rw [Bool.eq_iff_iff, List.isPrefixOf_iff_prefix, strncmpEq, decide_eq_true_iff, List.take_left' rfl, ← List.prefix_iff_eq_take,
    List.prefix_concat_iff]
  apply or_iff_right
  intro heq
  have hz := a.nonzero
  rw [heq] at hz
  exact hz (List.mem_append_right _ (List.mem_singleton_self 0))

end text

section printing

def moveTo (s : CliState) (p : ItemPtr) : CliState := { s with cmdListItem := p }

theorem getItem_returns : (cliCmdGetItem lists p).Returns s (p.deref lists).isSome (moveTo s p) := by
  unfold cliCmdGetItem
  rw [modify_bind_returns]
  exact returns_pure.mpr ⟨rfl, rfl⟩

theorem itemName_at (h : (p.deref lists).isSome) : (itemName lists).Returns (moveTo s p) (nameOf lists p) (moveTo s p) := by
  obtain ⟨item, hi⟩ := Option.isSome_iff_exists.mp h
  unfold itemName nameOf
  rw [returns_attempt]
  change (p.deref lists).map (fun item => (item.name, moveTo s p)) = _
  rw [hi]
  rfl

theorem itemTexts_returns (h : p.deref lists = some (.cmd handler cmd)) :
    (itemTexts lists texts).Returns (moveTo s p) (texts p) (moveTo s p) := by
  unfold itemTexts
  rw [returns_attempt]
  have hitem : (moveTo s p).cmdListItem = p := rfl
  rw [hitem, h]

theorem say_nil : say s [] = s := by
  unfold say
  rw [List.append_nil]

theorem say_say {o o' : List Output} : say (say s o) o' = say s (o ++ o') := by
  unfold say
  rw [List.append_assoc]

/-- The program only prints. -/
def Prints (p : CliM Unit) (o : List Output) : Prop := ∀ s, p.Returns s () (say s o)

theorem Prints.bind {p q : CliM Unit} {o o' : List Output} (h : Prints p o) (h' : Prints q o') :
    Prints (p >>= fun _ => q) (o ++ o') := by
  intro s
  rw [← say_say]
  exact (h s).bind (h' _)

theorem prints_xputc {c : UInt8} : Prints (xputc c) [.char c] := fun _ => send_returns

theorem prints_xputs {str : CString} : Prints (xputs str) (chars str) := fun _ => returns_modify.mpr rfl

theorem prints_putName {name : CString} : Prints (putName name) (chars name ++ [.char 0x20]) := prints_xputs.bind prints_xputc

theorem nameLoop_returns {put : CString → CliM Unit} {f : CString → List Output}
    (hput : ∀ name, Prints (put name) (f name)) {i k len : ℕ} (hk : i + k = s.treeIndex + 1)
    (hbyte : s.treeIndex < 255) (hnamed : ∀ j ≤ s.treeIndex, ((s.tree j).deref lists).isSome) :
    (Prog.loop (nameRound lists put) (i, len)).Returns s (pathLength lists len ((List.range' i k).map s.tree))
      (say (moveTo s (((List.range' i k).map s.tree).getLast?.getD s.cmdListItem))
        (((List.range' i k).map s.tree).flatMap fun q => f (nameOf lists q))) := by
  induction k generalizing s i len with
  | zero =>
    apply loop_inr
    unfold nameRound
    rw [get_bind_returns, if_neg (by omega)]
    refine returns_pure.mpr ⟨rfl, ?_⟩
    simp [say, moveTo]
  | succ k ih =>
    obtain ⟨v, hv⟩ : ∃ v, v = say (moveTo s (s.tree i)) (f (nameOf lists (s.tree i))) := ⟨_, rfl⟩
    have hround : (nameRound lists put (i, len)).Returns s
        (.inl (i + 1, (len + (nameOf lists (s.tree i)).chars.length + 1) % 0x100)) v := by
      unfold nameRound
      rw [get_bind_returns, if_pos (by omega), getItem_returns.bind_iff, (itemName_at (hnamed i (by omega))).bind_iff,
        (hput _ _).bind_iff, hv]
      refine returns_pure.mpr ⟨?_, rfl⟩
      rw [Nat.mod_eq_of_lt (by omega)]
    have htree : v.tree = s.tree := by rw [hv]; rfl
    have hindex : v.treeIndex = s.treeIndex := by rw [hv]; rfl
    have hrest := @ih v (i + 1) ((len + (nameOf lists (s.tree i)).chars.length + 1) % 0x100) (by omega) (by omega)
      (by rw [htree, hindex]; exact hnamed)
    rw [htree] at hrest
    rw [List.range'_succ, List.map_cons, List.getLast?_cons, List.flatMap_cons, ← say_say]
    have hlast : moveTo v (((List.range' (i + 1) k).map s.tree).getLast?.getD v.cmdListItem) =
        say (moveTo s (((List.range' (i + 1) k).map s.tree).getLast?.getD (s.tree i))) (f (nameOf lists (s.tree i))) := by
      rw [hv]
      rfl
    rw [hlast] at hrest
    exact loop_inl hround hrest

theorem prints_adjustColumn {len cnt : ℕ} (hcnt : cnt < 0x100) : Prints (adjustColumn len cnt) (spaces (cnt - len)) := by
  intro s
  unfold adjustColumn
  induction hn : cnt - len generalizing s len with
  | zero =>
    apply loop_inr
    unfold adjustRound
    rw [if_neg (by omega)]
    refine returns_pure.mpr ⟨rfl, ?_⟩
    simp [say, spaces]
  | succ n ih =>
    have hround : (adjustRound cnt len).Returns s (.inl (len + 1)) (say s [.char 0x20]) := by
      unfold adjustRound
      rw [if_pos (by omega)]
      refine send_returns.bind (returns_pure.mpr ⟨?_, rfl⟩)
      rw [Nat.mod_eq_of_lt (by omega)]
    have hrest := @ih (len + 1) (say s [.char 0x20]) (by omega)
    rw [say_say] at hrest
    exact loop_inl hround hrest

end printing

section command

/-- The items from the root to the current place. -/
structure PathIs (lists : Lists) (s : CliState) (path : List ItemPtr) : Prop where
  items : (List.range' 0 (s.treeIndex + 1)).map s.tree = path
  named : ∀ q ∈ path, (q.deref lists).isSome
  byte : s.treeIndex < 255

theorem Stands.pathIs (h : Stands lists s base p) (hp : (p.deref lists).isSome) (hbyte : base.length < 255) :
    PathIs lists s (base ++ [p]) := by
  refine ⟨?_, ?_, h.index ▸ hbyte⟩
  · rw [← List.range_eq_range', List.range_succ, List.map_append, h.path, List.map_singleton, h.tree]
  · intro q hq
    rcases List.mem_append.mp hq with hq | hq
    · exact h.named q hq
    · rw [List.mem_singleton.mp hq]
      exact hp

theorem pathNames_returns {put : CString → CliM Unit} {f : CString → List Output}
    (hput : ∀ name, Prints (put name) (f name)) (h : PathIs lists s (base ++ [p])) :
    (pathNames lists put).Returns s (pathLength lists 0 (base ++ [p]))
      (say (moveTo s p) ((base ++ [p]).flatMap fun q => f (nameOf lists q))) := by
  have hnamed : ∀ j ≤ s.treeIndex, ((s.tree j).deref lists).isSome := by
    intro j hj
    apply h.named
    rw [← h.items]
    exact List.mem_map_of_mem (List.mem_range'_1.mpr ⟨Nat.zero_le j, by omega⟩)
  have hloop := @nameLoop_returns lists s put f hput 0 (s.treeIndex + 1) 0 (Nat.zero_add _) h.byte hnamed
  rw [h.items, List.getLast?_concat, Option.getD_some] at hloop
  exact hloop

theorem displayLine_returns (h : PathIs lists s (base ++ [p])) (hp : p.deref lists = some (.cmd handler cmd))
    (hname : charCnt.1 < 0x100) (hparam : charCnt.2 < 0x100) :
    (displayLine hcfg lists texts charCnt).Returns s () (say (moveTo s p) (helpLine hcfg lists texts charCnt (base ++ [p]))) := by
  have hlast : commandOf (base ++ [p]) = p := by
    unfold commandOf
    rw [List.getLast?_concat, Option.getD_some]
  have htail : Prints (do
      xputs (texts p).param
      if hcfg.dispHelpStr then
        adjustColumn (paramLength (texts p)) charCnt.2
        xputc 0x20
        xputc 0x3a
        xputc 0x20
        xputs (texts p).help
        xputc 0x0a
      else xputc 0x0a) (chars (texts p).param ++ ((if hcfg.dispHelpStr then
        spaces (charCnt.2 - paramLength (texts p)) ++ [.char 0x20, .char 0x3a, .char 0x20] ++ chars (texts p).help else []) ++
        [.char 0x0a])) := by
    apply prints_xputs.bind
    cases hcfg.dispHelpStr with
    | true =>
      have hlist : spaces (charCnt.2 - paramLength (texts p)) ++ [.char 0x20, .char 0x3a, .char 0x20] ++ chars (texts p).help ++
          [.char 0x0a] = spaces (charCnt.2 - paramLength (texts p)) ++ ([.char 0x20] ++ ([.char 0x3a] ++ ([.char 0x20] ++
          (chars (texts p).help ++ [.char 0x0a])))) := by simp
      simp only [if_true, hlist]
      exact (prints_adjustColumn hparam).bind (prints_xputc.bind (prints_xputc.bind (prints_xputc.bind
        (prints_xputs.bind prints_xputc))))
    | false => exact prints_xputc
  have htexts : ∀ o, (itemTexts lists texts).Returns (say (moveTo s p) o) (texts p) (say (moveTo s p) o) := by
    intro o
    exact itemTexts_returns (s := say s o) hp
  unfold displayLine
  rw [(pathNames_returns (fun _ => prints_putName) h).bind_iff, (prints_adjustColumn hname _).bind_iff, say_say,
    (htexts _).bind_iff]
  have hend := htail (say (moveTo s p) (pathText lists (base ++ [p]) ++ spaces (charCnt.1 - pathLength lists 0 (base ++ [p]))))
  rw [say_say] at hend
  unfold helpLine
  rw [hlast, List.append_assoc, List.append_assoc (pathText lists (base ++ [p]) ++ _)]
  exact hend

theorem PathIs.head (h : PathIs lists s path) : s.tree 0 = path.head?.getD ⟨0, 0⟩ ∧ ((s.tree 0).deref lists).isSome := by
  have hhead : path.head? = some (s.tree 0) := by
    rw [← h.items, List.range'_succ, List.map_cons]
    rfl
  refine ⟨by rw [hhead, Option.getD_some], h.named _ (List.mem_of_mem_head? hhead)⟩

/-- What a visit shows of a command. -/
def Displays (hcfg : HelpConfig) (lists : Lists) (texts : Texts) (argv : Option CString) (charCnt : ℕ × ℕ) (_ : Bool)
    (path : List ItemPtr) (_ : Bool) (o : List Output) : Prop :=
  if shown lists argv path then ∃ lineBreak : Bool, (lineBreak = true → argv = none) ∧
    o = (if lineBreak then [.char 0x0a] else []) ++ helpLine hcfg lists texts charCnt path
  else o = []

theorem display_visits (hname : charCnt.1 < 0x100) (hparam : charCnt.2 < 0x100) :
    VisitsCommand lists (display hcfg lists texts argv charCnt) (Displays hcfg lists texts argv charCnt) := by
  intro lineBreak s base p handler cmd hs hp hbyte
  have hsome : (p.deref lists).isSome := hp ▸ rfl
  have hpath := hs.pathIs hsome hbyte
  obtain ⟨hroot, hrootSome⟩ := hpath.head
  have hshown : (argv.all fun a => strncmpEq a (nameOf lists (s.tree 0)) a.chars.length) = shown lists argv (base ++ [p]) := by
    unfold shown
    rw [← hroot]
    congr 1
    funext a
    exact strncmpEq_eq
  have hline : (displayLine hcfg lists texts charCnt).Returns (moveTo s (s.tree 0)) ()
      (say (moveTo s p) (helpLine hcfg lists texts charCnt (base ++ [p]))) :=
    displayLine_returns (s := moveTo s (s.tree 0)) ⟨hpath.items, hpath.named, hpath.byte⟩ hp hname hparam
  have hbreak : (displayLine hcfg lists texts charCnt).Returns (say (moveTo s (s.tree 0)) [.char 0x0a]) ()
      (say (moveTo s p) ([.char 0x0a] ++ helpLine hcfg lists texts charCnt (base ++ [p]))) := by
    rw [← say_say]
    exact displayLine_returns (s := say (moveTo s (s.tree 0)) [.char 0x0a]) ⟨hpath.items, hpath.named, hpath.byte⟩ hp hname hparam
  have hstart : ∀ y t, (display hcfg lists texts argv charCnt lineBreak).Returns s y t ↔
      (if shown lists argv (base ++ [p]) then
        if argv.isNone ∧ lineBreak then xputc 0x0a >>= fun _ => displayLine hcfg lists texts charCnt >>= fun _ => pure false
        else displayLine hcfg lists texts charCnt >>= fun _ => pure lineBreak
      else pure lineBreak : CliM Bool).Returns (moveTo s (s.tree 0)) y t := by
    intro y t
    unfold display
    rw [get_bind_returns, getItem_returns.bind_iff, (itemName_at hrootSome).bind_iff, hshown]
  unfold Displays
  by_cases hsh : shown lists argv (base ++ [p])
  · simp only [hsh, if_true] at hstart ⊢
    by_cases hlb : argv.isNone ∧ lineBreak
    · refine ⟨false, say (moveTo s p) ([.char 0x0a] ++ helpLine hcfg lists texts charCnt (base ++ [p])), ?_, _,
        ⟨true, fun _ => Option.isNone_iff_eq_none.mp hlb.1, rfl⟩, rfl, rfl, rfl, hsome⟩
      rw [hstart, if_pos hlb, (prints_xputc _).bind_iff, hbreak.bind_iff]
      exact returns_pure.mpr ⟨rfl, rfl⟩
    · refine ⟨lineBreak, say (moveTo s p) (helpLine hcfg lists texts charCnt (base ++ [p])), ?_, _,
        ⟨false, fun h => absurd h (by simp), rfl⟩, rfl, rfl, rfl, hsome⟩
      rw [hstart, if_neg hlb, hline.bind_iff]
      exact returns_pure.mpr ⟨rfl, rfl⟩
  · simp only [hsh] at hstart ⊢
    refine ⟨lineBreak, moveTo s (s.tree 0), ?_, [], rfl, (List.append_nil _).symm, rfl, rfl, hrootSome⟩
    rw [hstart]
    exact returns_pure.mpr ⟨rfl, rfl⟩

/-- The counts after a command. -/
def counted (lists : Lists) (texts : Texts) (charCnt : ℕ × ℕ) (path : List ItemPtr) : ℕ × ℕ :=
  (max charCnt.1 (pathLength lists 0 path), max charCnt.2 (paramLength (texts (commandOf path))))

theorem measure_visits : VisitsCommand lists (measure lists texts) fun x path y o => y = counted lists texts x path ∧ o = [] := by
  intro x s base p handler cmd hs hp hbyte
  have hsome : (p.deref lists).isSome := hp ▸ rfl
  have hlast : commandOf (base ++ [p]) = p := by
    unfold commandOf
    rw [List.getLast?_concat, Option.getD_some]
  have hquiet : ∀ name : CString, Prints ((fun _ => pure ()) name) ((fun _ : CString => []) name) :=
    fun _ s => returns_pure.mpr ⟨rfl, say_nil.symm⟩
  have hnil : (base ++ [p]).flatMap (fun _ => ([] : List Output)) = [] := List.flatMap_eq_nil_iff.mpr fun _ _ => rfl
  have hnames := pathNames_returns hquiet (hs.pathIs hsome hbyte)
  rw [hnil, say_nil] at hnames
  refine ⟨_, moveTo s p, ?_, [], ⟨rfl, rfl⟩, (List.append_nil _).symm, rfl, rfl, hsome⟩
  unfold measure counted
  rw [hnames.bind_iff, (itemTexts_returns hp).bind_iff, hlast]
  refine returns_pure.mpr ⟨?_, rfl⟩
  rw [max_def_lt, max_def_lt]
  rfl

end command

section tree

/-- The items lead from list `n` to a command. -/
inductive LeadsTo (lists : Lists) : ℕ → List ItemPtr → Prop where
  | cmd {n a : ℕ} {handler : Handler} {cmd : Cmd} (h : ItemPtr.deref lists ⟨n, a⟩ = some (.cmd handler cmd)) : LeadsTo lists n [⟨n, a⟩]
  | group {n a m : ℕ} {name : CString} {path : List ItemPtr} (h : ItemPtr.deref lists ⟨n, a⟩ = some (.group name m))
      (rest : LeadsTo lists m path) : LeadsTo lists n (⟨n, a⟩ :: path)

variable {n d : ℕ}

theorem mem_commandPaths (h : TreeDepth lists d n) : path ∈ commandPaths lists d n ↔ LeadsTo lists n path := by
  induction d using Nat.strongRecOn generalizing n path with
  | ind d ih =>
    unfold commandPaths
    rw [List.mem_flatMap]
    constructor
    · rintro ⟨a, ha, hpath⟩
      have hlt : a < (lists n).length := List.mem_range.mp ha
      have hi : ItemPtr.deref lists ⟨n, a⟩ = some (lists n)[a] := List.getElem?_eq_getElem hlt
      cases hitem : (lists n)[a] with
      | cmd handler cmd =>
        rw [hitem] at hi
        rw [itemPaths_cmd hi, List.mem_singleton] at hpath
        rw [hpath]
        exact .cmd hi
      | group name m =>
        rw [hitem] at hi
        obtain ⟨k, rfl, hk⟩ := h.group (List.mem_of_getElem? hi)
        rw [itemPaths_group hi, List.mem_map] at hpath
        obtain ⟨rest, hrest, rfl⟩ := hpath
        exact .group hi ((ih k (Nat.lt_succ_self k) hk).mp hrest)
    · rintro (⟨hi⟩ | ⟨hi, hrest⟩)
      · exact ⟨_, List.mem_range.mpr (List.getElem?_eq_some_iff.mp hi).1, by rw [itemPaths_cmd hi]; exact List.mem_singleton_self _⟩
      · obtain ⟨k, rfl, hk⟩ := h.group (List.mem_of_getElem? hi)
        refine ⟨_, List.mem_range.mpr (List.getElem?_eq_some_iff.mp hi).1, ?_⟩
        rw [itemPaths_group hi]
        exact List.mem_map_of_mem ((ih k (Nat.lt_succ_self k) hk).mpr hrest)

theorem head_of_mem (h : path ∈ itemPaths lists d p) : path.head? = some p := by
  cases hi : p.deref lists with
  | none =>
    cases d <;> simp [itemPaths, hi] at h
  | some item =>
    cases item with
    | cmd handler cmd =>
      rw [itemPaths_cmd hi, List.mem_singleton] at h
      rw [h, List.head?_singleton]
    | group name m =>
      cases d with
      | zero => simp [itemPaths, hi] at h
      | succ d =>
        rw [itemPaths_group hi, List.mem_map] at h
        obtain ⟨rest, -, rfl⟩ := h
        rfl

theorem nodup_of_items (h : ∀ a, (itemPaths lists d ⟨n, a⟩).Nodup) : (commandPaths lists d n).Nodup := by
  refine List.nodup_flatMap.mpr ⟨fun a _ => h a, ?_⟩
  apply List.nodup_range.imp
  intro a b hne path ha hb
  have heq := (head_of_mem ha).symm.trans (head_of_mem hb)
  exact hne (congrArg ItemPtr.index (Option.some.inj heq))

theorem commandPaths_nodup : (commandPaths lists d n).Nodup := by
  induction d generalizing n with
  | zero =>
    apply nodup_of_items
    intro a
    unfold itemPaths
    split
    · exact List.nodup_singleton _
    · exact List.nodup_nil
  | succ d ih =>
    apply nodup_of_items
    intro a
    unfold itemPaths
    split
    · exact List.nodup_singleton _
    · exact ih.map fun _ _ heq => (List.cons.inj heq).2
    · exact List.nodup_nil

end tree

section help

variable {n d : ℕ} {x y : Bool} {c c' : ℕ × ℕ} {o : List Output} {ps : List (List ItemPtr)} {turn : Bool → Bool}

/-- The lines one behind another, with a blank line before some of them where that is allowed. -/
inductive Spaced (allowed : Prop) : List (List Output) → List Output → Prop where
  | nil : Spaced allowed [] []
  | cons {line : List Output} {lines : List (List Output)} {o : List Output} (lineBreak : Bool) (h : lineBreak = true → allowed)
      (rest : Spaced allowed lines o) : Spaced allowed (line :: lines) ((if lineBreak then [.char 0x0a] else []) ++ line ++ o)

theorem visits_spaced (h : Visits (Displays hcfg lists texts argv charCnt) turn x ps y o) :
    Spaced (argv = none) ((ps.filter (shown lists argv)).map (helpLine hcfg lists texts charCnt)) o := by
  induction h with
  | done => exact .nil
  | @visit x y z path ps o o' hv _ ih =>
    unfold Displays at hv
    by_cases hsh : shown lists argv path
    · rw [if_pos hsh] at hv
      obtain ⟨lineBreak, hbreak, rfl⟩ := hv
      rw [List.filter_cons_of_pos hsh, List.map_cons]
      exact .cons lineBreak hbreak ih
    · rw [if_neg hsh] at hv
      rw [List.filter_cons_of_neg hsh, hv]
      exact ih
  | turn _ ih => exact ih

theorem visits_counted (h : Visits (fun x path y o => y = counted lists texts x path ∧ o = []) id c ps c' o) :
    c' = ps.foldl (counted lists texts) c ∧ o = [] := by
  induction h with
  | done => exact ⟨rfl, rfl⟩
  | visit hv _ ih =>
    obtain ⟨rfl, rfl⟩ := hv
    exact ih
  | turn _ ih => exact ih

/-- The widths of the columns. -/
def columns (hcfg : HelpConfig) (lists : Lists) (texts : Texts) (d : ℕ) : ℕ × ℕ :=
  if hcfg.nameStrMaxSize = 0 ∨ hcfg.paramStrMaxSize = 0 then
    (commandPaths lists d 0).foldl (counted lists texts) (hcfg.nameStrMaxSize % 0x100, hcfg.paramStrMaxSize % 0x100)
  else (hcfg.nameStrMaxSize % 0x100, hcfg.paramStrMaxSize % 0x100)

theorem pathLength_lt {len : ℕ} (h : len < 0x100) : pathLength lists len path < 0x100 := by
  unfold pathLength
  induction path generalizing len with
  | nil => exact h
  | cons q path ih => exact ih (Nat.mod_lt _ (by decide))

theorem counted_lt (h : c.1 < 0x100 ∧ c.2 < 0x100) :
    (ps.foldl (counted lists texts) c).1 < 0x100 ∧ (ps.foldl (counted lists texts) c).2 < 0x100 := by
  induction ps generalizing c with
  | nil => exact h
  | cons path ps ih =>
    apply ih
    exact ⟨max_lt h.1 (pathLength_lt (by decide)), max_lt h.2 (Nat.mod_lt _ (by decide))⟩

theorem columns_lt : (columns hcfg lists texts d).1 < 0x100 ∧ (columns hcfg lists texts d).2 < 0x100 := by
  have hsizes : hcfg.nameStrMaxSize % 0x100 < 0x100 ∧ hcfg.paramStrMaxSize % 0x100 < 0x100 :=
    ⟨Nat.mod_lt _ (by decide), Nat.mod_lt _ (by decide)⟩
  unfold columns
  split
  · exact counted_lt hsizes
  · exact hsizes

theorem charCounts_achieves (hdepth : TreeDepth lists d 0) (hd : d + 1 ≤ cfg.treeDepthMax) (hbyte : d + 1 ≤ 255) :
    (charCounts cfg hcfg lists texts).Achieves s fun c t => c = columns hcfg lists texts d ∧ t.sent = s.sent := by
  unfold charCounts columns
  split
  · apply (treeWalk_achieves measure_visits hdepth hd hbyte).imp
    rintro c t ⟨o, hvisits, hsent⟩
    obtain ⟨hc, rfl⟩ := visits_counted hvisits
    exact ⟨hc, by rw [hsent, List.append_nil]⟩
  · exact achieves_pure ⟨rfl, rfl⟩

end help

end Lpc1788Libraries.Cli

import Mathlib.Data.List.Infix
import Lpc1788Libraries.Cli.CliSearch
import Lpc1788Libraries.Cli.CliRun

namespace Lpc1788Libraries.Cli

open Lpc1788Libraries.Support BoundedProgram BoundedProgram.Prog

variable {cfg : Config} {lists : Lists} {s t : CliState} {n a : ℕ} {item : ListItem} {p w : List UInt8}
  {ws : List (List UInt8)} {start : ItemPtr} {r : Option (ℕ × CString × ℕ)}

/-- Complete words, each with a space behind it, and a last one. -/
def phrase (ws : List (List UInt8)) (p : List UInt8) : List UInt8 := ws.flatMap (· ++ [0x20]) ++ p

def named (w : List UInt8) (item : ListItem) : Bool := decide (item.name.chars = w)

def goesWith (p : List UInt8) (item : ListItem) : Bool := decide (p <+: item.name.chars)

/-- The list that complete words lead to, each by the first item of that name. -/
def level (lists : Lists) (n : ℕ) : List (List UInt8) → Option ℕ
  | [] => some n
  | w :: ws =>
    match (lists n).find? (named w) with
    | some (.group _ m) => level lists m ws
    | _ => none

/-- In each group there is an item of the name of the next word, and at last one for the last word;
what follows a command does not matter. -/
def Answered (lists : Lists) (p : List UInt8) (n : ℕ) : List (List UInt8) → Prop
  | [] => ∃ item ∈ lists n, goesWith p item
  | w :: ws => ∃ item, (lists n).find? (named w) = some item ∧
    ∀ name m, item = .group name m → Answered lists p m ws

section words

theorem phrase_cons : phrase (w :: ws) p = w ++ 0x20 :: phrase ws p := by simp [phrase]

theorem name_of_passes {l rest : List UInt8} (hl : 0x20 ∉ l) (hw : 0x20 ∉ w) (h : l ++ [0x20] <+: w ++ 0x20 :: rest) :
    l = w := by
  induction l generalizing w with
  | nil =>
    cases w with
    | nil => rfl
    | cons c w =>
      rw [List.nil_append, List.cons_append, List.cons_prefix_cons] at h
      exact absurd (h.1 ▸ List.mem_cons_self) hw
  | cons b l ih =>
    cases w with
    | nil =>
      rw [List.cons_append, List.nil_append, List.cons_prefix_cons] at h
      exact absurd (h.1 ▸ List.mem_cons_self) hl
    | cons c w =>
      rw [List.cons_append, List.cons_append, List.cons_prefix_cons] at h
      rw [h.1, ih (fun hm => hl (List.mem_cons_of_mem _ hm)) (fun hm => hw (List.mem_cons_of_mem _ hm)) h.2]

theorem differs_word (hitem : 0x20 ∉ item.name.chars) (hw : 0x20 ∉ w) (hne : named w item = false) :
    Differs (phrase (w :: ws) p) item := by
  rw [phrase_cons]
  constructor
  · intro hfit
    exact hitem (hfit.subset (by simp))
  · intro hpass
    exact of_decide_eq_false hne (name_of_passes hitem hw hpass)

theorem differs_last (hp : 0x20 ∉ p) (hne : goesWith p item = false) : Differs (phrase [] p) item := by
  constructor
  · exact of_decide_eq_false hne
  · intro hpass
    exact hp (hpass.subset (by simp))

end words

section levels

/-- The search has stopped at a command whose name is followed by another word. -/
def Refused (lists : Lists) (t : CliState) : Prop := ∃ n b handler cmd rest, AtItem lists t n b ∧
  (lists n)[b]? = some (.cmd handler cmd) ∧ Reads t t.autocompleteStartIndex (cmd.name.chars ++ 0x20 :: rest)

/-- Where the search ends that goes through the complete words from a list on. -/
inductive Landed (lists : Lists) (p : List UInt8) (n : ℕ) (ws : List (List UInt8)) (t : CliState) :
    Option (ℕ × CString × ℕ) → Prop
  | found {d m : ℕ} {x : ListItem} (hlevel : level lists n ws = some d)
      (hfirst : FirstFrom (goesWith p) (lists d) 0 m x) (hat : AtItem lists t d m)
      (hreads : Reads t t.autocompleteStartIndex p) :
      Landed lists p n ws t (some (t.autocompleteEndIndex, x.name, p.length))
  | refused (hlevel : level lists n ws = none) (h : Refused lists t) : Landed lists p n ws t none

theorem Landed.group {m : ℕ} {name : CString} (hfind : (lists n).find? (named w) = some (.group name m))
    (h : Landed lists p m ws t r) : Landed lists p n (w :: ws) t r := by
  have hl : level lists n (w :: ws) = level lists m ws := by rw [level, hfind]
  cases h with
  | found hlevel hfirst hat hreads => exact .found (hl.trans hlevel) hfirst hat hreads
  | refused hlevel h => exact .refused (hl.trans hlevel) h

theorem find_word {m : ℕ} {x : ListItem} (hs : AtItem lists s n 0)
    (hr : Reads s s.autocompleteStartIndex (phrase (w :: ws) p)) (hw : 0x20 ∉ w)
    (hwords : ∀ item ∈ lists n, 0x20 ∉ item.name.chars) (hfirst : FirstFrom (named w) (lists n) 0 m x)
    (hcycle : ∀ j, 0 < j → j ≤ m → (⟨n, j⟩ : ItemPtr) ≠ start) :
    (findMatch cfg lists start s.autocompleteStartIndex).Returns s r t ↔
      (findMatch cfg lists start s.autocompleteStartIndex).Returns (seat s ⟨n, m⟩) r t := by
  have hlt := hfirst.lt
  have hskip := @find_skip cfg lists s t n 0 start m _ r hs hr
  rw [Nat.zero_add, Nat.mod_eq_of_lt hlt] at hskip
  apply hskip
  · intro j hj y hy
    have hmem := List.mem_of_getElem? hy
    exact differs_word (hwords y hmem) hw (hfirst.before j hj y hy)
  · intro j hj hjm
    rw [Nat.zero_add, Nat.mod_eq_of_lt (by omega)]
    exact hcycle j hj hjm

/-- The list of the item that the search has started with is not met again. -/
def Beneath (lists : Lists) (start : ItemPtr) (n : ℕ) : Prop :=
  ∃ k, TreeOk lists k n ∧ ∀ j ≤ k, ¬ TreeOk lists j start.list

theorem Beneath.ne (h : Beneath lists start n) : n ≠ start.list := by
  obtain ⟨k, hk, hno⟩ := h
  rintro rfl
  exact hno k (Nat.le_refl k) hk

theorem Beneath.group {m : ℕ} {name : CString} (h : Beneath lists start n) (hm : .group name m ∈ lists n) :
    Beneath lists start m := by
  obtain ⟨k, hk, hno⟩ := h
  obtain ⟨j, rfl, hj⟩ := hk.group hm
  exact ⟨j, hj, fun i hi => hno i (by omega)⟩

theorem beneath_of_group {d m : ℕ} {name : CString} (h : TreeOk lists d start.list)
    (hm : .group name m ∈ lists start.list) : Beneath lists start m := by
  classical
  have hex : ∃ d, TreeOk lists d start.list := ⟨d, h⟩
  obtain ⟨j, hj, hok⟩ := (Nat.find_spec hex).group hm
  exact ⟨j, hok, fun i hi => Nat.find_min hex (by omega)⟩

variable (cfg) (start) in
theorem land_word {d m : ℕ} {x : ListItem} (hs : AtItem lists s n m) (hx : (lists n)[m]? = some x)
    (hr : Reads s s.autocompleteStartIndex (phrase (w :: ws) p)) (hname : x.name.chars = w)
    (hfind : (lists n).find? (named w) = some x) (hd : TreeOk lists d n)
    (hdepth : s.treeIndex + d ≤ cfg.treeDepthMax - 1)
    (hne : ∀ name k, x = .group name k → k ≠ start.list ∧ 0 < (lists k).length)
    (ih : ∀ name k u, x = .group name k → AtItem lists u k 0 → u.treeIndex = s.treeIndex + 1 →
      Reads u u.autocompleteStartIndex (phrase ws p) →
      ∃ r t, (findMatch cfg lists start u.autocompleteStartIndex).Returns u r t ∧ Landed lists p k ws t r) :
    ∃ r t, (findMatch cfg lists start s.autocompleteStartIndex).Returns s r t ∧ Landed lists p n (w :: ws) t r := by
  have hmem := List.mem_of_getElem? hx
  rw [phrase_cons] at hr
  cases x with
  | cmd handler cmd =>
    rw [ListItem.name_cmd] at hname
    rw [← hname] at hr hfind ⊢
    refine ⟨none, s, find_command cfg start hs hx hr ⟨phrase ws p, by simp⟩, .refused ?_ ⟨n, m, handler, cmd, phrase ws p, hs, hx, hr⟩⟩
    rw [level, hfind]
  | group name k =>
    rw [ListItem.name_group] at hname
    obtain ⟨hk, hpos⟩ := hne name k rfl
    obtain ⟨d', rfl, -⟩ := hd.group hmem
    rw [← hname] at hr hfind ⊢
    obtain ⟨r, t, hret, hland⟩ := ih name k (enter s k (s.autocompleteStartIndex + name.chars.length + 1)) rfl
      (enter_atItem hs hx hpos) rfl (enter_reads hr)
    refine ⟨r, t, ?_, hland.group hfind⟩
    rw [find_group cfg start hs hx (by omega) (List.getElem?_eq_getElem hpos) hr hk]
    exact hret

theorem Answered.nonempty (h : Answered lists p n ws) : 0 < (lists n).length := by
  cases ws with
  | nil =>
    obtain ⟨item, hm, -⟩ := h
    exact List.length_pos_of_mem hm
  | cons w ws =>
    obtain ⟨item, hf, -⟩ := h
    exact List.length_pos_of_mem (List.mem_of_find?_eq_some hf)

theorem find_deep {d : ℕ} (hs : AtItem lists s n 0) (hr : Reads s s.autocompleteStartIndex (phrase ws p))
    (hws : ∀ w ∈ ws, 0x20 ∉ w) (hp : 0x20 ∉ p) (hans : Answered lists p n ws) (hd : TreeOk lists d n)
    (hdepth : s.treeIndex + d ≤ cfg.treeDepthMax - 1) (hb : Beneath lists start n) :
    ∃ r t, (findMatch cfg lists start s.autocompleteStartIndex).Returns s r t ∧ Landed lists p n ws t r := by
  induction ws generalizing n s d with
  | nil =>
    have hr' : Reads s s.autocompleteStartIndex p := hr
    obtain ⟨m, x, hfirst⟩ := exists_firstFrom hs.lt hans
    have hlt := hfirst.lt
    have hx := hfirst.found
    rw [Nat.zero_add, Nat.mod_eq_of_lt hlt] at hx
    have hat := hs.seat hlt
    refine ⟨_, seat s ⟨n, m⟩, ?_, .found rfl hfirst hat (hr'.still rfl)⟩
    have hskip := @find_skip cfg lists s (seat s ⟨n, m⟩) n 0 start m p
      (some (s.autocompleteEndIndex, x.name, p.length)) hs hr'
    rw [Nat.zero_add, Nat.mod_eq_of_lt hlt] at hskip
    refine (hskip ?_ ?_).mpr ?_
    · exact fun j hj y hy => differs_last hp (hfirst.before j hj y hy)
    · exact fun j _ _ h => hb.ne (congrArg ItemPtr.list h)
    · exact find_fits cfg start hat hx (hr'.still rfl) (of_decide_eq_true hfirst.passes)
  | cons w ws ih =>
    obtain ⟨x, hfind, hgroup⟩ := hans
    obtain ⟨m, hfirst⟩ := firstFrom_of_find? hfind
    have hlt := hfirst.lt
    have hx := hfirst.found
    rw [Nat.zero_add, Nat.mod_eq_of_lt hlt] at hx
    have hmem := hfirst.mem
    obtain ⟨r, t, hret, hland⟩ := land_word cfg start (hs.seat hlt) hx (hr.still rfl)
      (of_decide_eq_true hfirst.passes) hfind hd hdepth
      (fun name k hxk => ⟨(hb.group (hxk ▸ hmem)).ne, (hgroup name k hxk).nonempty⟩) (by
        rintro name k u rfl hu hidx hru
        obtain ⟨d', rfl, hd'⟩ := hd.group hmem
        have hidx' : u.treeIndex = s.treeIndex + 1 := hidx
        exact ih hu hru (fun v hv => hws v (List.mem_cons_of_mem _ hv)) (hgroup name k rfl) hd' (by omega)
          (hb.group hmem))
    refine ⟨r, t, ?_, hland⟩
    rw [find_word hs hr (hws w List.mem_cons_self) (fun y hy => hd.word hy) hfirst
      fun j _ _ h => hb.ne (congrArg ItemPtr.list h)]
    exact hret

/-- A first group that is entered has an answer for the words behind its name. -/
def Entered (lists : Lists) (p : List UInt8) : List (List UInt8) → Prop
  | [] => True
  | w :: ws => ∀ name m, (lists 0).find? (named w) = some (.group name m) → Answered lists p m ws

theorem terminates_congr {u : CliState} {i j : ℕ} (h : ∀ r t, (findMatch cfg lists start i).Returns s r t ↔
    (findMatch cfg lists start j).Returns u r t) :
    (findMatch cfg lists start i).Terminates s ↔ (findMatch cfg lists start j).Terminates u :=
  exists_congr fun r => exists_congr fun t => h r t

theorem endless_word {m k : ℕ} {name : CString} (hs : AtItem lists s n m) (hx : (lists n)[m]? = some (.group name k))
    (hr : Reads s s.autocompleteStartIndex (phrase (w :: ws) p)) (hname : name.chars = w)
    (hdepth : s.treeIndex < cfg.treeDepthMax - 1) (hk : k ≠ start.list) (hpos : 0 < (lists k).length)
    (ih : ∀ u, AtItem lists u k 0 → u.treeIndex = s.treeIndex + 1 →
      Reads u u.autocompleteStartIndex (phrase ws p) →
      ¬ (findMatch cfg lists start u.autocompleteStartIndex).Terminates u) :
    ¬ (findMatch cfg lists start s.autocompleteStartIndex).Terminates s := by
  rw [phrase_cons, ← hname] at hr
  rw [terminates_congr fun r t => find_group cfg start hs hx hdepth (List.getElem?_eq_getElem hpos) hr hk]
  exact ih _ (enter_atItem hs hx hpos) rfl (enter_reads hr)

theorem endless_deep {d : ℕ} (hfull : ∀ n name m, ListItem.group name m ∈ lists n → 0 < (lists m).length)
    (hs : AtItem lists s n 0) (hr : Reads s s.autocompleteStartIndex (phrase ws p)) (hws : ∀ w ∈ ws, 0x20 ∉ w)
    (hp : 0x20 ∉ p) (hans : ¬ Answered lists p n ws) (hd : TreeOk lists d n)
    (hdepth : s.treeIndex + d ≤ cfg.treeDepthMax - 1) (hb : Beneath lists start n) :
    ¬ (findMatch cfg lists start s.autocompleteStartIndex).Terminates s := by
  induction ws generalizing n s d with
  | nil =>
    refine find_endless cfg start hs hr (fun y hy => differs_last hp ?_) hb.ne
    by_contra hgo
    exact hans ⟨y, hy, by simpa using hgo⟩
  | cons w ws ih =>
    have hw := hws w List.mem_cons_self
    cases hfind : (lists n).find? (named w) with
    | none =>
      refine find_endless cfg start hs hr (fun y hy => differs_word (hd.word hy) hw ?_) hb.ne
      simpa using List.find?_eq_none.mp hfind y hy
    | some x =>
      obtain ⟨m, hfirst⟩ := firstFrom_of_find? hfind
      have hlt := hfirst.lt
      have hx := hfirst.found
      rw [Nat.zero_add, Nat.mod_eq_of_lt hlt] at hx
      have hmem := hfirst.mem
      rw [terminates_congr fun r t => find_word hs hr hw (fun y hy => hd.word hy) hfirst
        fun j _ _ h => hb.ne (congrArg ItemPtr.list h)]
      cases x with
      | cmd handler cmd =>
        refine absurd ⟨_, hfind, ?_⟩ hans
        nofun
      | group name k =>
        have hans' : ¬ Answered lists p k ws := by
          intro hk
          refine hans ⟨_, hfind, ?_⟩
          rintro _ _ ⟨⟩
          exact hk
        obtain ⟨d', rfl, hd'⟩ := hd.group hmem
        refine endless_word (hs.seat hlt) hx (hr.still rfl) (of_decide_eq_true hfirst.passes) ?_ (hb.group hmem).ne
          (hfull n name k hmem) ?_
        · change s.treeIndex < _
          omega
        · intro u hu hidx hru
          have hidx' : u.treeIndex = s.treeIndex + 1 := hidx
          exact ih hu hru (fun v hv => hws v (List.mem_cons_of_mem _ hv)) hans' hd' (by omega) (hb.group hmem)

theorem find_root (htree : TreeOk lists (cfg.treeDepthMax - 1) 0) (hs : AtItem lists s 0 0) (hidx : s.treeIndex = 0)
    (hr : Reads s s.autocompleteStartIndex (phrase (w :: ws) p)) (hws : ∀ v ∈ w :: ws, 0x20 ∉ v) (hp : 0x20 ∉ p)
    (hent : Entered lists p (w :: ws)) :
    ∃ r t, (findMatch cfg lists ⟨0, 0⟩ s.autocompleteStartIndex).Returns s r t ∧
      (Landed lists p 0 (w :: ws) t r ∨ level lists 0 (w :: ws) = none ∧ r = none ∧ t = s) := by
  cases hfind : (lists 0).find? (named w) with
  | none =>
    have hd : ∀ y ∈ lists 0, Differs (phrase (w :: ws) p) y := by
      intro y hy
      apply differs_word (htree.word hy) (hws w List.mem_cons_self)
      simpa using List.find?_eq_none.mp hfind y hy
    refine ⟨none, s, find_none cfg hs hr hd, .inr ⟨?_, rfl, rfl⟩⟩
    rw [level, hfind]
  | some x =>
    obtain ⟨m, hfirst⟩ := firstFrom_of_find? hfind
    have hlt := hfirst.lt
    have hx := hfirst.found
    rw [Nat.zero_add, Nat.mod_eq_of_lt hlt] at hx
    have hmem := hfirst.mem
    have hans : ∀ name k, x = .group name k → Answered lists p k ws := fun name k hxk => hent name k (hxk ▸ hfind)
    obtain ⟨r, t, hret, hland⟩ := land_word cfg ⟨0, 0⟩ (hs.seat hlt) hx (hr.still rfl)
      (of_decide_eq_true hfirst.passes) hfind htree (by change s.treeIndex + _ ≤ _; omega)
      (fun name k hxk => ⟨(@beneath_of_group lists ⟨0, 0⟩ _ _ _ htree (hxk ▸ hmem)).ne, (hans name k hxk).nonempty⟩) (by
        rintro name k u rfl hu hui hru
        obtain ⟨d', hd', hok⟩ := htree.group hmem
        have hui' : u.treeIndex = s.treeIndex + 1 := hui
        exact find_deep hu hru (fun v hv => hws v (List.mem_cons_of_mem _ hv)) hp (hans name k rfl) hok (by omega)
          (@beneath_of_group lists ⟨0, 0⟩ _ _ _ htree hmem))
    refine ⟨r, t, ?_, .inl hland⟩
    rw [find_word hs hr (hws w List.mem_cons_self) (fun y hy => htree.word hy) hfirst]
    · exact hret
    · intro j hj _ h
      have hj0 : j = 0 := congrArg ItemPtr.index h
      omega

theorem endless_root (hfull : ∀ n name m, ListItem.group name m ∈ lists n → 0 < (lists m).length)
    (htree : TreeOk lists (cfg.treeDepthMax - 1) 0) (hs : AtItem lists s 0 0) (hidx : s.treeIndex = 0)
    (hr : Reads s s.autocompleteStartIndex (phrase ws p)) (hws : ∀ v ∈ ws, 0x20 ∉ v) (hp : 0x20 ∉ p)
    (hent : ¬ Entered lists p ws) : ¬ (findMatch cfg lists ⟨0, 0⟩ s.autocompleteStartIndex).Terminates s := by
  cases ws with
  | nil => exact absurd trivial hent
  | cons w ws =>
    obtain ⟨name, k, hfind, hans⟩ : ∃ name k, (lists 0).find? (named w) = some (.group name k) ∧
        ¬ Answered lists p k ws := by simpa [Entered] using hent
    obtain ⟨m, hfirst⟩ := firstFrom_of_find? hfind
    have hlt := hfirst.lt
    have hx := hfirst.found
    rw [Nat.zero_add, Nat.mod_eq_of_lt hlt] at hx
    obtain ⟨d, hd, hok⟩ := htree.group hfirst.mem
    have hb := @beneath_of_group lists ⟨0, 0⟩ _ _ _ htree hfirst.mem
    rw [terminates_congr fun r t => find_word hs hr (hws w List.mem_cons_self) (fun y hy => htree.word hy) hfirst
      fun j hj _ h => Nat.ne_of_gt hj (congrArg ItemPtr.index h)]
    refine endless_word (hs.seat hlt) hx (hr.still rfl) (of_decide_eq_true hfirst.passes) ?_ hb.ne
      (hfull 0 name k hfirst.mem) ?_
    · change s.treeIndex < _
      omega
    · intro u hu hui hru
      have hui' : u.treeIndex = s.treeIndex + 1 := hui
      exact endless_deep hfull hu hru (fun v hv => hws v (List.mem_cons_of_mem _ hv)) hp hans hok (by omega) hb

end levels

section completion

variable {name : CString} {i k : ℕ}

/-- The rest of a name, as far as there is room behind the line. -/
def rest (cfg : Config) (i k : ℕ) (name : CString) : List UInt8 := (name.chars.drop k).take (cfg.lineLengthMax - 1 - i)

theorem completeName_returns (hk : k ≤ name.chars.length) :
    (completeName cfg i name k).Returns s (i + (rest cfg i k name).length) (put s i (rest cfg i k name)) := by
  obtain ⟨d, hd⟩ : ∃ d, name.chars.length - k = d := ⟨_, rfl⟩
  unfold completeName
  induction d generalizing i k s with
  | zero =>
    have hnil : rest cfg i k name = [] := by rw [rest, List.drop_eq_nil_of_le (by omega), List.take_nil]
    rw [hnil, put_nil]
    apply loop_inr
    unfold completeRound
    rw [nameChar_bind hk, List.getElem?_eq_none (by omega), Option.getD_none, if_pos rfl]
    exact returns_pure.mpr ⟨rfl, rfl⟩
  | succ d ih =>
    have hlt : k < name.chars.length := by omega
    have hc0 := name_char_ne_zero hlt
    rw [List.getElem?_eq_getElem hlt, Option.getD_some] at hc0
    by_cases hfull : cfg.lineLengthMax - 1 ≤ i
    · have hnil : rest cfg i k name = [] := by rw [rest, Nat.sub_eq_zero_of_le hfull, List.take_zero]
      rw [hnil, put_nil]
      apply loop_inr
      unfold completeRound
      rw [nameChar_bind hk, List.getElem?_eq_getElem hlt, Option.getD_some, if_neg hc0, if_pos hfull]
      exact returns_pure.mpr ⟨rfl, rfl⟩
    · have hcons : rest cfg i k name = name.chars[k] :: rest cfg (i + 1) (k + 1) name := by
        rw [rest, rest, List.drop_eq_getElem_cons hlt, show cfg.lineLengthMax - 1 - i =
          cfg.lineLengthMax - 1 - (i + 1) + 1 by omega, List.take_succ_cons]
      rw [hcons, put_cons, List.length_cons, ← Nat.add_assoc, Nat.add_right_comm]
      apply loop_inl (y := (i + 1, k + 1)) (t := { s with
        lineBuf := Function.update s.lineBuf i name.chars[k]
        sent := s.sent ++ [.char name.chars[k]] })
      · unfold completeRound
        rw [nameChar_bind hk, List.getElem?_eq_getElem hlt, Option.getD_some, if_neg hc0, if_neg hfull]
        simp only [setLine, xputc, send, bind_assoc, check_bind_returns, modify_bind_returns, returns_pure]
        exact ⟨by omega, trivial, trivial⟩
      · exact ih (by omega) (by omega)

/-- The line with the rest of a name behind the part that has been matched. -/
def finish (cfg : Config) (s : CliState) (k : ℕ) (name : CString) : CliState := { put { s with
    sent := s.sent ++ (List.replicate ((s.lineBufIndex + 0x100 - s.autocompleteEndIndex) % 0x100)
      [.char 0x08, .char 0x20, .char 0x08]).flatten }
    s.autocompleteEndIndex (rest cfg s.autocompleteEndIndex k name) with
  lineBufIndex := s.autocompleteEndIndex + (rest cfg s.autocompleteEndIndex k name).length }

theorem finish_atItem (hs : AtItem lists s n a) : AtItem lists (finish cfg s k name) n a :=
  ⟨hs.item_eq, hs.tree_eq, hs.lt, hs.root, hs.parent⟩

theorem autocomplete_found (hfind : (findMatch cfg lists (s.tree s.treeIndex) s.autocompleteStartIndex).Returns s
    (some (t.autocompleteEndIndex, name, k)) t) (ht : AtItem lists t n a) (hk : k ≤ name.chars.length) :
    (cliAutocomplete cfg lists).Returns s true (seat (finish cfg t k name) ⟨n, (a + 1) % (lists n).length⟩) := by
  unfold cliAutocomplete
  rw [get_bind_returns, hfind.bind_iff]
  simp only [get_bind_returns, vt100DelChars, modify_bind_returns]
  rw [(completeName_returns hk).bind_iff, modify_bind_returns]
  exact (nextCyclic_returns (finish_atItem ht)).bind (returns_pure.mpr ⟨rfl, rfl⟩)

theorem autocomplete_none (hfind : (findMatch cfg lists (s.tree s.treeIndex) s.autocompleteStartIndex).Returns s
    none t) : (cliAutocomplete cfg lists).Returns s false t := by
  unfold cliAutocomplete
  rw [get_bind_returns, hfind.bind_iff]
  exact returns_pure.mpr ⟨rfl, rfl⟩

end completion

end Lpc1788Libraries.Cli

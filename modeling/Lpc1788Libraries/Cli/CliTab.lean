import Lpc1788Libraries.Cli.CliAutocomplete

namespace Lpc1788Libraries.Cli

open Lpc1788Libraries.Support BoundedProgram BoundedProgram.Prog

variable {cfg : Config} {lists : Lists} {s t : CliState} {k : ℕ} {p : List UInt8} {ws : List (List UInt8)}

section presses

/-- The text typed, up to the end of the part to be matched. -/
structure TypedText (cfg : Config) (s : CliState) (text : List UInt8) : Prop where
  end_eq : s.autocompleteEndIndex = text.length
  chars : ∀ i (hi : i < text.length), s.lineBuf i = text[i]
  short : text.length ≤ cfg.lineLengthMax - 1
  nonzero : 0 ∉ text
  vt100State_eq : s.vt100State = 0

/-- Where `k` presses of TAB leave the search. -/
inductive Phase (lists : Lists) (ws : List (List UInt8)) (p : List UInt8) (k : ℕ) (s : CliState) : Prop
  | root (hne : ws ≠ []) (hat : AtItem lists s 0 0) (hidx : s.treeIndex = 0) (hstart : s.autocompleteStartIndex = 0)
      (hk : k = 0 ∨ level lists 0 ws = none)
  | refused (hlevel : level lists 0 ws = none) (h : Refused lists s)
  | found {d b : ℕ} (hlevel : level lists 0 ws = some d) (hat : AtItem lists s d b)
      (hreads : Reads s s.autocompleteStartIndex p)
      (hpassed : 0 < ((lists d).filter (goesWith p)).length → passed (goesWith p) (lists d) b %
        ((lists d).filter (goesWith p)).length = k % ((lists d).filter (goesWith p)).length)

theorem Phase.start_le (h : Phase lists ws p k s) : s.autocompleteStartIndex ≤ s.autocompleteEndIndex := by
  cases h with
  | root hne hat hidx hstart hk => omega
  | refused hlevel h =>
    obtain ⟨_, _, _, _, _, -, -, hreads⟩ := h
    have := hreads.ends
    omega
  | found hlevel hat hreads hpassed =>
    have := hreads.ends
    omega

/-- What the press of TAB behind `k` others answers and shows. -/
structure Pressed (cfg : Config) (lists : Lists) (ws : List (List UInt8)) (p : List UInt8) (k : ℕ) (b : Bool)
    (u : CliState) : Prop where
  answer : b = true ↔ ∃ d item, level lists 0 ws = some d ∧ item ∈ lists d ∧ p <+: item.name.chars
  shown : b = true → ∃ d item, level lists 0 ws = some d ∧
    ((lists d).filter (goesWith p))[k % ((lists d).filter (goesWith p)).length]? = some item ∧
    u.line = (phrase ws item.name.chars).take (cfg.lineLengthMax - 1) ∧
    u.autocompleteStartIndex = (phrase ws []).length

theorem TypedText.reads (h : TypedText cfg s (phrase ws p)) (h0 : s.autocompleteStartIndex = 0) :
    Reads s s.autocompleteStartIndex (phrase ws p) := by
  rw [h0]
  refine ⟨?_, by rw [h.end_eq, Nat.zero_add], h.nonzero⟩
  intro i hi
  rw [Nat.zero_add]
  exact h.chars i hi

theorem TypedText.searched {text : List UInt8} (h : TypedText cfg s text) (hst : Searched s t) : TypedText cfg t text :=
  ⟨hst.end_eq.trans h.end_eq, fun i hi => by rw [hst.lineBuf]; exact h.chars i hi, h.short, h.nonzero,
    hst.vt100State.trans h.vt100State_eq⟩

theorem phrase_append {q : List UInt8} : phrase ws (p ++ q) = phrase ws p ++ q := by simp [phrase]

theorem length_phrase : (phrase ws p).length = (phrase ws []).length + p.length := by simp [phrase]

theorem TypedText.start_eq (h : TypedText cfg s (phrase ws p)) (hr : Reads s s.autocompleteStartIndex p) :
    s.autocompleteStartIndex = (phrase ws []).length := by
  have hends := hr.ends
  rw [h.end_eq, length_phrase] at hends
  omega

theorem finish_typed {text : List UInt8} {name : CString} {q : ItemPtr} (h : TypedText cfg s text) :
    TypedText cfg (seat (finish cfg s k name) q) text := by
  refine ⟨h.end_eq, ?_, h.short, h.nonzero, h.vt100State_eq⟩
  intro i hi
  have hend := h.end_eq
  change (if s.autocompleteEndIndex ≤ i then _ else s.lineBuf i) = _
  rw [if_neg (by omega)]
  exact h.chars i hi

theorem finish_line {name : CString} {q : ItemPtr} (h : TypedText cfg s (phrase ws p)) (hfit : p <+: name.chars) :
    (seat (finish cfg s p.length name) q).line = (phrase ws name.chars).take (cfg.lineLengthMax - 1) := by
  obtain ⟨tail, htail⟩ := hfit
  have hend := h.end_eq
  have hshort := h.short
  have hrest : rest cfg s.autocompleteEndIndex p.length name = tail.take (cfg.lineLengthMax - 1 - s.autocompleteEndIndex) := by
    rw [rest, ← htail, List.drop_left]
  rw [← htail, phrase_append, List.take_append, List.take_of_length_le hshort, ← hend, ← hrest]
  apply List.ext_getElem?
  intro i
  have hlen : (seat (finish cfg s p.length name) q).lineBufIndex =
      s.autocompleteEndIndex + (rest cfg s.autocompleteEndIndex p.length name).length := rfl
  have hbuf : (seat (finish cfg s p.length name) q).lineBuf i = if s.autocompleteEndIndex ≤ i then
      ((rest cfg s.autocompleteEndIndex p.length name)[i - s.autocompleteEndIndex]?).getD (s.lineBuf i)
      else s.lineBuf i := rfl
  unfold CliState.line
  rw [List.getElem?_map, hlen]
  by_cases hi : i < s.autocompleteEndIndex
  · rw [List.getElem?_range (by omega), Option.map_some, hbuf, if_neg (by omega),
      List.getElem?_append_left (by omega), List.getElem?_eq_getElem (by omega), h.chars i (by omega)]
  · by_cases hir : i < s.autocompleteEndIndex + (rest cfg s.autocompleteEndIndex p.length name).length
    · rw [List.getElem?_range hir, Option.map_some, hbuf, if_pos (by omega), List.getElem?_append_right (by omega),
        ← hend, List.getElem?_eq_getElem (by omega), Option.getD_some]
    · rw [List.getElem?_eq_none (by simp; omega), List.getElem?_eq_none (by simp; omega)]
      rfl

theorem finish_reads {name : CString} {i : ℕ} {q : ItemPtr} (h : Reads s s.autocompleteStartIndex p) :
    Reads (seat (finish cfg s i name) q) s.autocompleteStartIndex p := by
  refine ⟨?_, h.ends, h.nonzero⟩
  intro j hj
  have hends := h.ends
  change (if s.autocompleteEndIndex ≤ s.autocompleteStartIndex + j then _ else s.lineBuf _) = _
  rw [if_neg (by omega)]
  exact h.chars j hj

theorem press_found {d b m : ℕ} {x : ListItem} (htyped : TypedText cfg s (phrase ws p)) (hst : Searched s t)
    (hfind : (findMatch cfg lists (s.tree s.treeIndex) s.autocompleteStartIndex).Returns s
      (some (t.autocompleteEndIndex, x.name, p.length)) t)
    (hlevel : level lists 0 ws = some d) (hb : b < (lists d).length)
    (hfirst : FirstFrom (goesWith p) (lists d) b m x) (hat : AtItem lists t d ((b + m) % (lists d).length))
    (hreads : Reads t t.autocompleteStartIndex p)
    (hpassed : passed (goesWith p) (lists d) b % ((lists d).filter (goesWith p)).length =
      k % ((lists d).filter (goesWith p)).length) :
    (cliAutocomplete cfg lists).Achieves s fun done u =>
      Pressed cfg lists ws p k done u ∧ Phase lists ws p (k + 1) u ∧ TypedText cfg u (phrase ws p) := by
  have hfit : p <+: x.name.chars := of_decide_eq_true hfirst.passes
  have htyped' := htyped.searched hst
  obtain ⟨hnth, hnext⟩ := hfirst.filter hb
  rw [hpassed] at hnth
  refine ⟨true, _, autocomplete_found hfind hat hfit.length_le, ⟨?_, ?_⟩, ?_, finish_typed htyped'⟩
  · exact ⟨fun _ => ⟨d, x, hlevel, hfirst.mem, hfit⟩, fun _ => rfl⟩
  · exact fun _ => ⟨d, x, hlevel, hnth, finish_line htyped' hfit, htyped'.start_eq hreads⟩
  · apply Phase.found hlevel
    · exact (finish_atItem hat).seat (Nat.mod_lt _ (by omega))
    · exact finish_reads hreads
    · intro _
      rw [Nat.mod_add_mod, hnext, Nat.add_mod, hpassed, ← Nat.add_mod]

theorem press_none (htyped : TypedText cfg s (phrase ws p)) (hst : Searched s t)
    (hfind : (findMatch cfg lists (s.tree s.treeIndex) s.autocompleteStartIndex).Returns s none t)
    (hno : ∀ d item, level lists 0 ws = some d → item ∈ lists d → ¬ p <+: item.name.chars)
    (hphase : Phase lists ws p (k + 1) t) :
    (cliAutocomplete cfg lists).Achieves s fun done u =>
      Pressed cfg lists ws p k done u ∧ Phase lists ws p (k + 1) u ∧ TypedText cfg u (phrase ws p) := by
  refine ⟨false, t, autocomplete_none hfind, ⟨⟨nofun, ?_⟩, nofun⟩, hphase, htyped.searched hst⟩
  rintro ⟨d, item, hlevel, hm, hfit⟩
  exact absurd hfit (hno d item hlevel hm)

theorem tab_press (htree : TreeOk lists (cfg.treeDepthMax - 1) 0) (hws : ∀ w ∈ ws, 0x20 ∉ w) (hp : 0x20 ∉ p)
    (hent : Entered lists p ws) (hphase : Phase lists ws p k s) (htyped : TypedText cfg s (phrase ws p)) :
    (cliAutocomplete cfg lists).Achieves s fun done u =>
      Pressed cfg lists ws p k done u ∧ Phase lists ws p (k + 1) u ∧ TypedText cfg u (phrase ws p) := by
  have hstart : s.autocompleteStartIndex ≤ s.autocompleteEndIndex := hphase.start_le
  cases hphase with
  | root hne hat hidx hstart0 hk =>
    obtain ⟨w, ws, rfl⟩ := List.exists_cons_of_ne_nil hne
    obtain ⟨r, t, hret, hland⟩ := find_root htree hat hidx (htyped.reads hstart0) hws hp hent
    rw [← hat.tree_eq] at hret
    have hst := (findMatch_searched hstart hstart hret).1
    rcases hland with hland | ⟨hlevel, rfl, rfl⟩
    · cases hland with
      | @found d m x hlevel hfirst hat' hreads =>
        obtain rfl : k = 0 := by
          refine hk.resolve_right ?_
          rw [hlevel]
          nofun
        have hlt := hfirst.lt
        refine press_found htyped hst hret hlevel (by omega) hfirst ?_ hreads rfl
        rw [Nat.zero_add, Nat.mod_eq_of_lt hlt]
        exact hat'
      | refused hlevel href =>
        refine press_none htyped hst hret ?_ (.refused hlevel href)
        intro d item hd
        rw [hlevel] at hd
        cases hd
    · refine press_none htyped hst hret ?_ (.root hne hat hidx hstart0 (.inr hlevel))
      intro d item hd
      rw [hlevel] at hd
      cases hd
  | refused hlevel href =>
    obtain ⟨n, b, handler, cmd, rest, hat, hi, hreads⟩ := id href
    have hret := find_command cfg (s.tree s.treeIndex) hat hi hreads ⟨rest, by simp⟩
    refine press_none htyped (Std.Refl.refl s) hret ?_ (.refused hlevel href)
    intro d item hd
    rw [hlevel] at hd
    cases hd
  | @found d b hlevel hat hreads hpassed =>
    by_cases hex : ∃ x ∈ lists d, goesWith p x = true
    · obtain ⟨m, x, hfirst⟩ := exists_firstFrom hat.lt hex
      have hlt := hfirst.lt
      have hat' := hat.seat (Nat.mod_lt (b + m) (by omega))
      have hret : (findMatch cfg lists (s.tree s.treeIndex) s.autocompleteStartIndex).Returns s
          (some (s.autocompleteEndIndex, x.name, p.length)) (seat s ⟨d, (b + m) % (lists d).length⟩) := by
        apply (find_skip cfg _ hat hreads _ _).mpr
        · exact find_fits cfg _ hat' hfirst.found (hreads.still rfl) (of_decide_eq_true hfirst.passes)
        · exact fun j hj y hy => differs_last hp (hfirst.before j hj y hy)
        · intro j hj hjm h
          rw [hat.tree_eq] at h
          exact add_mod_ne hat.lt hj (by omega) (congrArg ItemPtr.index h)
      have hpos : 0 < ((lists d).filter (goesWith p)).length :=
        List.length_pos_of_mem (List.mem_filter.mpr ⟨hfirst.mem, hfirst.passes⟩)
      exact press_found htyped (findMatch_searched hstart hstart hret).1 hret hlevel hat.lt hfirst hat'
        (hreads.still rfl) (hpassed hpos)
    · have hno : ∀ y ∈ lists d, goesWith p y = false := by simpa using hex
      have hret := find_none cfg hat hreads fun y hy => differs_last hp (hno y hy)
      rw [← hat.tree_eq] at hret
      refine press_none htyped (Std.Refl.refl s) hret ?_ (.found hlevel hat hreads ?_)
      · intro d' item hd hm
        rw [hlevel, Option.some.injEq] at hd
        exact of_decide_eq_false (hno item (hd ▸ hm))
      · intro hpos
        obtain ⟨y, hy⟩ := List.exists_mem_of_length_pos hpos
        obtain ⟨hm, hgo⟩ := List.mem_filter.mp hy
        rw [hno y hm] at hgo
        cases hgo

end presses

section run

variable {startup : Option CString} {l : List UInt8} {sent : List Output}

/-- `cli_autocomplete_reset` has been the last to touch the completion. -/
structure JustReset (s : CliState) : Prop where
  start_eq : s.autocompleteStartIndex = 0
  end_eq : s.autocompleteEndIndex = s.lineBufIndex
  treeIndex_eq : s.treeIndex = 0
  tree_eq : s.tree 0 = ⟨0, 0⟩
  item_eq : s.cmdListItem = ⟨0, 0⟩
  vt100State_eq : s.vt100State = 0

theorem justReset_of_reset (hv : s.vt100State = 0) (hret : (cliAutocompleteReset lists).Returns s () t) :
    JustReset { t with sent := sent } := by
  obtain rfl := reset_returns.mp hret
  constructor
  · rfl
  · rfl
  · rfl
  · exact Function.update_self (β := fun _ => ItemPtr) 0 ⟨0, 0⟩ s.tree
  · rfl
  · exact hv

theorem init_justReset : (cliInit cfg lists startup).Achieves s fun _ t => JustReset t ∧ t.line = [] := by
  have htree : ∀ f : ℕ → ItemPtr, Function.update f 0 ⟨0, 0⟩ 0 = ⟨0, 0⟩ := fun f => Function.update_self _ _ _
  unfold cliInit
  by_cases hH : cfg.historySize = 0
  · simp only [hH, ne_eq, not_true_eq_false, if_false]
    cases startup with
    | none => exact ⟨(), _, ⟨0, rfl⟩, ⟨rfl, rfl, rfl, htree s.tree, rfl, rfl⟩, rfl⟩
    | some str => exact ⟨(), _, ⟨0, rfl⟩, ⟨rfl, rfl, rfl, htree s.tree, rfl, rfl⟩, rfl⟩
  · simp only [ne_eq, hH, not_false_eq_true, if_true]
    cases startup with
    | none => exact ⟨(), _, ⟨0, rfl⟩, ⟨rfl, rfl, rfl, htree s.tree, rfl, rfl⟩, rfl⟩
    | some str => exact ⟨(), _, ⟨0, rfl⟩, ⟨rfl, rfl, rfl, htree s.tree, rfl, rfl⟩, rfl⟩

theorem exists_typed (boot : CliState) (hl : ∀ c ∈ l, 0x20 ≤ c ∧ c < 0x80) (hshort : l.length ≤ cfg.lineLengthMax - 1) :
    ∃ s, Reached cfg lists startup l s ∧ JustReset s ∧ s.line = l := by
  induction l using List.reverseRecOn with
  | nil =>
    obtain ⟨_, t, ht, hreset, hline⟩ := @init_justReset cfg lists boot startup
    exact ⟨t, .init ht, hreset, hline⟩
  | append_singleton l c ih =>
    rw [List.length_append, List.length_singleton] at hshort
    obtain ⟨s, hs, hreset, hline⟩ := ih (fun d hd => hl d (by simp [hd])) (by omega)
    have hlen := @length_line s
    rw [hline] at hlen
    have hret := (@typed_char cfg lists s _ c (hl c (by simp)) hreset.vt100State_eq (by omega)).mpr rfl
    have hreset' := fun u (hu : u.vt100State = 0) => @justReset_of_reset lists u _ (s.sent ++ [.char c]) hu
      (reset_returns.mpr rfl)
    refine ⟨_, hs.char hret, hreset' _ hreset.vt100State_eq, ?_⟩
    rw [line_typed, hline]

theorem exists_phrase (l : List UInt8) : ∃ ws p, l = phrase ws p ∧ (∀ w ∈ ws, 0x20 ∉ w) ∧ 0x20 ∉ p := by
  induction l with
  | nil => exact ⟨[], [], rfl, nofun, nofun⟩
  | cons c l ih =>
    obtain ⟨ws, p, rfl, hws, hp⟩ := ih
    by_cases hc : c = 0x20
    · refine ⟨[] :: ws, p, ?_, ?_, hp⟩
      · rw [phrase_cons, hc, List.nil_append]
      · rintro w (_ | ⟨_, hw⟩)
        · nofun
        · exact hws w hw
    · have hne : (0x20 : UInt8) ≠ c := fun h => hc h.symm
      cases ws with
      | nil => exact ⟨[], c :: p, rfl, nofun, by simp [hne, hp]⟩
      | cons w ws =>
        refine ⟨(c :: w) :: ws, p, ?_, ?_, hp⟩
        · rw [phrase_cons, phrase_cons, List.cons_append]
        · rintro v (_ | ⟨_, hv⟩)
          · simp [hne, hws w List.mem_cons_self]
          · exact hws v (List.mem_cons_of_mem _ hv)

theorem JustReset.typedText (h : JustReset s) (hs : LineSound cfg s) : TypedText cfg s s.line := by
  refine ⟨?_, ?_, hs.line_short, hs.line_nonzero, h.vt100State_eq⟩
  · rw [length_line, h.end_eq]
  · intro i hi
    simp [CliState.line]

theorem JustReset.phase (h : JustReset s) (hs : LineSound cfg s) (hne : lists 0 ≠ []) (hl : s.line = phrase ws p) :
    Phase lists ws p 0 s := by
  have hat : AtItem lists s 0 0 := by
    refine ⟨h.item_eq, ?_, List.length_pos_iff.mpr hne, fun _ => rfl, fun h0 => absurd h.treeIndex_eq h0⟩
    rw [h.treeIndex_eq, h.tree_eq]
  cases ws with
  | nil =>
    have htyped := h.typedText hs
    rw [hl] at htyped
    exact .found rfl hat (htyped.reads h.start_eq) fun _ => rfl
  | cons w ws => exact .root (List.cons_ne_nil w ws) hat h.treeIndex_eq h.start_eq (.inl rfl)

theorem AtItem.sending {n a : ℕ} (h : AtItem lists s n a) : AtItem lists { s with sent := sent } n a :=
  ⟨h.item_eq, h.tree_eq, h.lt, h.root, h.parent⟩

theorem Phase.sending (h : Phase lists ws p k s) : Phase lists ws p k { s with sent := sent } := by
  cases h with
  | root hne hat hidx hstart hk => exact .root hne hat.sending hidx hstart hk
  | refused hlevel h =>
    obtain ⟨n, b, handler, cmd, rest, hat, hi, hreads⟩ := h
    exact .refused hlevel ⟨n, b, handler, cmd, rest, hat.sending, hi, hreads.still rfl⟩
  | found hlevel hat hreads hpassed => exact .found hlevel hat.sending (hreads.still rfl) hpassed

theorem tab_returns (hv : s.vt100State = 0) :
    (cliOnRxChar cfg lists 0x09).Returns s () t ↔ (onTab cfg lists).Returns s () t := by
  have hs : { s with vt100State := 0 } = s := by rw [← hv]
  unfold cliOnRxChar
  rw [get_bind_returns, modify_bind_returns, hv]
  change (onTab cfg lists).Returns { s with vt100State := 0 } () t ↔ _
  rw [hs]

theorem presses (htree : TreeOk lists (cfg.treeDepthMax - 1) 0) (hws : ∀ w ∈ ws, 0x20 ∉ w) (hp : 0x20 ∉ p)
    (hent : Entered lists p ws) (hphase : Phase lists ws p 0 s) (htyped : TypedText cfg s (phrase ws p)) (n : ℕ) :
    ∃ t, (feed cfg lists (List.replicate n 0x09)).Returns s () t ∧ Phase lists ws p n t ∧
      TypedText cfg t (phrase ws p) := by
  induction n with
  | zero => exact ⟨s, returns_pure.mpr ⟨rfl, rfl⟩, hphase, htyped⟩
  | succ n ih =>
    obtain ⟨t, hf, hpt, htt⟩ := ih
    obtain ⟨done, u, hu, -, hpu, htu⟩ := tab_press htree hws hp hent hpt htt
    have hlast : ∃ v, (onTab cfg lists).Returns t () v ∧ Phase lists ws p (n + 1) v ∧
        TypedText cfg v (phrase ws p) := by
      cases done with
      | true => exact ⟨u, hu.bind (returns_pure.mpr ⟨rfl, rfl⟩), hpu, htu⟩
      | false =>
        refine ⟨_, hu.bind (returns_modify.mpr rfl), hpu.sending, ?_⟩
        exact ⟨htu.end_eq, htu.chars, htu.short, htu.nonzero, htu.vt100State_eq⟩
    obtain ⟨v, hv, hpv, htv⟩ := hlast
    refine ⟨v, ?_, hpv, htv⟩
    rw [List.replicate_succ']
    apply feed_append.mpr
    exact ⟨t, hf, ((tab_returns htt.vt100State_eq).mpr hv).bind (returns_pure.mpr ⟨rfl, rfl⟩)⟩

/-- The completion of a line, in a tree with names that are words, after any number of presses. -/
theorem autocomplete_completes (hne : lists 0 ≠ []) (htree : TreeOk lists (cfg.treeDepthMax - 1) 0)
    (hs : Reached cfg lists startup l s) (hreset : JustReset s) (hl : s.line = phrase ws p)
    (hws : ∀ w ∈ ws, 0x20 ∉ w) (hp : 0x20 ∉ p) (hent : Entered lists p ws) (n : ℕ) :
    ∃ t, (feed cfg lists (List.replicate n 0x09)).Returns s () t ∧
      (cliAutocomplete cfg lists).Achieves t fun done u => Pressed cfg lists ws p n done u := by
  have hsound := hs.sound.1
  have htyped := hreset.typedText hsound
  rw [hl] at htyped
  obtain ⟨t, hf, hpt, htt⟩ := presses htree hws hp hent (hreset.phase hsound hne hl) htyped n
  refine ⟨t, hf, ?_⟩
  exact (tab_press htree hws hp hent hpt htt).imp fun _ _ h => h.1

theorem autocomplete_ends_iff (hne : lists 0 ≠ []) (htree : TreeOk lists (cfg.treeDepthMax - 1) 0)
    (hfull : ∀ n name m, ListItem.group name m ∈ lists n → 0 < (lists m).length) (hs : LineSound cfg s)
    (hreset : JustReset s) (hl : s.line = phrase ws p) (hws : ∀ w ∈ ws, 0x20 ∉ w) (hp : 0x20 ∉ p) :
    (cliAutocomplete cfg lists).Terminates s ↔ Entered lists p ws := by
  have htyped := hreset.typedText hs
  rw [hl] at htyped
  have hat : AtItem lists s 0 0 := by
    refine ⟨hreset.item_eq, ?_, List.length_pos_iff.mpr hne, fun _ => rfl, fun h0 => absurd hreset.treeIndex_eq h0⟩
    rw [hreset.treeIndex_eq, hreset.tree_eq]
  constructor
  · rintro ⟨_, t, hret⟩
    unfold cliAutocomplete at hret
    rw [get_bind_returns, hat.tree_eq] at hret
    obtain ⟨r, u, hfind, -⟩ := returns_bind.mp hret
    by_contra hent
    exact endless_root hfull htree hat hreset.treeIndex_eq (htyped.reads hreset.start_eq) hws hp hent ⟨r, u, hfind⟩
  · exact fun hent => (tab_press htree hws hp hent (hreset.phase hs hne hl) htyped).terminates

def wordConsole : Config where
  argvMax := 3
  lineLengthMax := 5
  treeDepthMax := 3
  historySize := 0
  line_pos := by decide
  line_le := by decide
  depth_pos := by decide
  depth_le := by decide
  history_ge := by decide
  history_le := by decide

def quiet (name : CString) : ListItem := .cmd ⟨fun _ b => b, fun _ => none⟩ ⟨name, 0, 0⟩

/-- The group `g` of the commands `get`, `set` and `go`, and the command `h`. -/
def wordTree : Lists
  | 0 => [.group ⟨[0x67], by simp⟩ 1, quiet ⟨[0x68], by simp⟩]
  | 1 => [quiet ⟨[0x67, 0x65, 0x74], by simp⟩, quiet ⟨[0x73, 0x65, 0x74], by simp⟩, quiet ⟨[0x67, 0x6f], by simp⟩]
  | _ => []

/-- The command `a b`, and the group `a` of the command `bc`. -/
def spacedTree : Lists
  | 0 => [quiet ⟨[0x61, 0x20, 0x62], by simp⟩, .group ⟨[0x61], by simp⟩ 1]
  | 1 => [quiet ⟨[0x62, 0x63], by simp⟩]
  | _ => []

def zeros : CliState := ⟨fun _ => 0, 0, 0, 0, fun _ => 0, 0, 0, fun _ => 0, fun _ => ⟨0, 0⟩, 0, ⟨0, 0⟩, 0, []⟩

theorem wordTree_ok : TreeOk wordTree (wordConsole.treeDepthMax - 1) 0 := by
  change TreeOk wordTree 2 0
  simp [TreeOk, wordTree, quiet]

theorem wordTree_full : ∀ n name m, ListItem.group name m ∈ wordTree n → 0 < (wordTree m).length := by
  intro n name m hm
  match n with
  | 0 =>
    simp [wordTree, quiet] at hm
    rw [hm.2]
    simp [wordTree]
  | 1 => simp [wordTree, quiet] at hm
  | n + 2 => simp [wordTree] at hm

theorem autocomplete_completes_go : ∃ s t, Reached wordConsole wordTree none [0x67, 0x20, 0x67] s ∧ JustReset s ∧
    s.line = phrase [[0x67]] [0x67] ∧
    (feed wordConsole wordTree (List.replicate 3 0x09)).Returns s () t ∧
    (cliAutocomplete wordConsole wordTree).Achieves t fun done u =>
      Pressed wordConsole wordTree [[0x67]] [0x67] 3 done u := by
  obtain ⟨s, hs, hreset, hl⟩ := @exists_typed wordConsole wordTree none [0x67, 0x20, 0x67] zeros (by simp) (by decide)
  have hl' : s.line = phrase [[0x67]] [0x67] := hl
  have hent : Entered wordTree [0x67] [[0x67]] := by simp [Entered, Answered, wordTree, named, goesWith, quiet]
  obtain ⟨t, hf, hdone⟩ := autocomplete_completes (by decide) wordTree_ok hs hreset hl' (by simp) (by simp) hent 3
  exact ⟨s, t, hs, hreset, hl', hf, hdone⟩

/-- The search for `g x` does not end, `g get` is cut, and `a b` is completed as one word. -/
theorem completion_fails :
    (∃ s, Reached wordConsole wordTree none [0x67, 0x20, 0x78] s ∧ JustReset s ∧
      ¬ (cliAutocomplete wordConsole wordTree).Terminates s) ∧
    (∃ s t, Reached wordConsole wordTree none [] s ∧
      (feed wordConsole wordTree [0x67, 0x20, 0x67, 0x09]).Returns s () t ∧
      t.line = [0x67, 0x20, 0x67, 0x65] ∧ ∀ item ∈ wordTree 1, t.line ≠ phrase [[0x67]] item.name.chars) ∧
    ∃ s t, Reached wordConsole spacedTree none [] s ∧
      (feed wordConsole spacedTree [0x61, 0x20, 0x62, 0x09]).Returns s () t ∧
      t.line = [0x61, 0x20, 0x62] ∧ ∀ item ∈ spacedTree 1, t.line ≠ phrase [[0x61]] item.name.chars := by
  refine ⟨?_, ?_, ?_⟩
  · obtain ⟨s, hs, hreset, hl⟩ := @exists_typed wordConsole wordTree none [0x67, 0x20, 0x78] zeros (by simp) (by decide)
    refine ⟨s, hs, hreset, ?_⟩
    rw [@autocomplete_ends_iff wordConsole wordTree s [0x78] [[0x67]] (by decide) wordTree_ok wordTree_full hs.sound.1 hreset hl
      (by simp) (by simp)]
    simp [Entered, Answered, wordTree, named, goesWith, quiet]
  · obtain ⟨s, t, hs, hf, hl⟩ := @exists_run wordConsole wordTree [0x67, 0x20, 0x67, 0x09] none 20
      (fun t => decide (t.line = [0x67, 0x20, 0x67, 0x65])) (by decide)
    have hl' : t.line = [0x67, 0x20, 0x67, 0x65] := of_decide_eq_true hl
    refine ⟨s, t, hs, hf, hl', ?_⟩
    rw [hl']
    simp [wordTree, quiet, phrase]
  · obtain ⟨s, t, hs, hf, hl⟩ := @exists_run wordConsole spacedTree [0x61, 0x20, 0x62, 0x09] none 20
      (fun t => decide (t.line = [0x61, 0x20, 0x62])) (by decide)
    have hl' : t.line = [0x61, 0x20, 0x62] := of_decide_eq_true hl
    refine ⟨s, t, hs, hf, hl', ?_⟩
    rw [hl']
    simp [spacedTree, quiet, phrase]

end run

end Lpc1788Libraries.Cli

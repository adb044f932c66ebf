import Lpc1788Libraries.Cli.CliSave

namespace Lpc1788Libraries.Cli

open Lpc1788Libraries.Support BoundedProgram BoundedProgram.Prog

variable {cfg : Config} {lists : Lists}

/-- What neither the command iterator nor the terminal changes. -/
def CliState.text (s : CliState) : (ℕ → UInt8) × ℕ × ℕ × ℕ := (s.lineBuf, s.lineBufIndex,
  s.autocompleteStartIndex, s.autocompleteEndIndex)

def CliState.history (s : CliState) : (ℕ → UInt8) × ℕ × ℕ := (s.histCircBuf, s.histIndexLast, s.histIndexNow)

/-- What the execution of a command leaves as it is. -/
def CliState.kept (s : CliState) : ((ℕ → UInt8) × ℕ × ℕ) × ℕ × ℕ :=
  (s.history, s.lineBufIndex, s.vt100State)

def CliState.still (s : CliState) : ((ℕ → UInt8) × ℕ × ℕ) × ((ℕ → UInt8) × ℕ × ℕ × ℕ) × ℕ :=
  (s.history, s.text, s.vt100State)

section iterator

theorem send_still {o : Output} : (send o).Within (Same CliState.still) := within_modify fun _ => rfl

theorem getItem_still {p : ItemPtr} : (cliCmdGetItem lists p).Within (Same CliState.still) :=
  within_bind (within_modify fun _ => rfl) fun _ => within_pure

theorem getRoot_still : (cliCmdItemGetRoot lists).Within (Same CliState.still) :=
  within_bind (within_modify fun _ => rfl) fun _ => getItem_still

theorem getChild_still : (cliCmdItemGetChild cfg lists).Within (Same CliState.still) := by
  apply within_get_bind
  intro s
  split
  · exact within_pure
  · apply within_ite
    · exact within_pure
    · exact within_bind (within_modify fun _ => rfl) fun _ => getItem_still

theorem getFirst_still : (cliCmdItemGetFirst lists).Within (Same CliState.still) := by
  apply within_get_bind
  intro s
  have last : Prog.Within (Same CliState.still)
      (Prog.get >>= fun s : CliState => cliCmdGetItem lists (s.tree s.treeIndex)) :=
    within_get_bind fun _ => getItem_still
  apply within_ite
  · exact within_bind (within_modify fun _ => rfl) fun _ => last
  · apply within_bind getItem_still
    intro _
    apply within_bind ?_ fun _ => last
    apply within_attempt
    intro s a t h
    obtain ⟨l, -, hl⟩ := Option.map_eq_some_iff.mp h
    rw [Prod.mk.injEq] at hl
    rw [← hl.2]
    rfl

theorem getNext_still : (cliCmdItemGetNext lists).Within (Same CliState.still) := by
  apply within_get_bind
  intro s
  apply within_ite
  · exact within_pure
  · exact within_bind (within_modify fun _ => rfl) fun _ => getItem_still

theorem nextCyclic_still : (nextCyclic lists).Within (Same CliState.still) := by
  apply within_bind getNext_still
  intro more
  apply within_ite
  · exact within_pure
  · exact within_bind getFirst_still fun _ => within_pure

end iterator

section execution

theorem still_kept {α : Type} {p : CliM α} (h : p.Within (Same CliState.still)) : p.Within (Same CliState.kept) := by
  refine h.weaken fun s t hst => ?_
  have hh := congrArg Prod.fst hst
  have ht := congrArg (fun x => x.2.1.2.1) hst
  have hv := congrArg (fun x => x.2.2) hst
  exact Prod.ext hh (Prod.ext ht hv)

theorem setLine_kept {i : ℕ} {c : UInt8} : (setLine cfg i c).Within (Same CliState.kept) :=
  within_bind within_check fun _ => within_modify fun _ => rfl

theorem skip_kept {test : UInt8 → Bool} {str : ℕ} : (skip test str).Within (Same CliState.kept) := by
  apply within_loop
  intro i
  apply within_get_bind
  intro s
  exact within_ite within_pure within_pure

theorem lineToArgs_kept : (cliCmdLineToArgs cfg).Within (Same CliState.kept) := by
  apply within_get_bind
  intro s
  apply within_bind setLine_kept
  intro _
  apply within_loop
  rintro ⟨argc, str, quoteFlag⟩
  apply within_bind
  · apply within_loop
    intro i
    apply within_get_bind
    intro s
    exact within_ite (within_bind setLine_kept fun _ => within_pure) within_pure
  · intro str
    apply within_get_bind
    intro s
    have rest : ∀ i flag, Prog.Within (Same CliState.kept) (skip (fun c => c ≠ 0x20 ∧ c ≠ 0) i >>= fun str =>
        (pure (.inl (argc + 1, str, flag)) : CliM ((ℕ × ℕ × Bool) ⊕ ℕ))) :=
      fun i flag => within_bind skip_kept fun _ => within_pure
    apply within_ite
    · exact within_pure
    apply within_ite
    · exact within_pure
    dsimp only
    apply within_bind
    · exact within_modify fun _ => rfl
    intro _
    apply within_ite
    · apply within_bind skip_kept
      intro i
      apply within_get_bind
      intro s
      apply within_ite
      · exact within_bind setLine_kept fun _ => within_bind within_pure fun _ => rest _ _
      · exact within_bind within_pure fun _ => rest _ _
    · exact within_bind within_pure fun _ => rest _ _

theorem findCommand_kept {argc : ℕ} : (findCommand cfg lists argc).Within (Same CliState.kept) := by
  apply within_bind (still_kept getRoot_still)
  intro _
  apply within_loop
  intro _
  apply within_get_bind
  intro s
  split
  · exact within_bind (still_kept send_still) fun _ => within_pure
  · apply within_ite (within_bind (still_kept send_still) fun _ => within_pure)
    apply within_ite
    · split
      · exact within_bind (still_kept send_still) fun _ => within_pure
      · exact within_bind (still_kept getChild_still) fun _ => within_pure
    · exact within_bind (still_kept getNext_still) fun _ => within_pure

theorem callHandler_kept {handler : Handler} {cmd : Cmd} {argc : ℕ} :
    (callHandler cfg handler cmd argc).Within (Same CliState.kept) := by
  apply within_get_bind
  intro s
  apply within_ite (still_kept send_still)
  dsimp only
  apply within_bind
  · exact within_modify fun _ => rfl
  intro _
  split
  · exact within_pure
  · exact within_bind (still_kept send_still) fun _ => still_kept send_still

theorem cmdExe_kept : (cliCmdExe cfg lists).Within (Same CliState.kept) := by
  apply within_bind lineToArgs_kept
  intro argc
  apply within_get_bind
  intro s
  apply within_ite
  · exact within_pure
  apply within_ite
  · exact within_pure
  apply within_bind findCommand_kept
  intro found
  split
  · exact within_pure
  · exact callHandler_kept

end execution

section autocomplete

/-- What holds of the line whatever has been received. -/
structure LineSound (cfg : Config) (s : CliState) : Prop where
  index_le : s.lineBufIndex ≤ cfg.lineLengthMax - 1
  start_le : s.autocompleteStartIndex ≤ s.autocompleteEndIndex
  end_le : s.autocompleteEndIndex ≤ cfg.lineLengthMax - 1
  nonzero : ∀ i, i < s.lineBufIndex ∨ i < s.autocompleteEndIndex → s.lineBuf i ≠ 0

/-- The search for a match moves the start of the word at most. -/
structure Searched (s t : CliState) : Prop where
  history : t.history = s.history
  vt100State : t.vt100State = s.vt100State
  lineBuf : t.lineBuf = s.lineBuf
  lineBufIndex : t.lineBufIndex = s.lineBufIndex
  end_eq : t.autocompleteEndIndex = s.autocompleteEndIndex
  start_le : s.autocompleteStartIndex ≤ s.autocompleteEndIndex → t.autocompleteStartIndex ≤ t.autocompleteEndIndex

instance : Std.Refl Searched := ⟨fun _ => ⟨rfl, rfl, rfl, rfl, rfl, id⟩⟩

instance : IsTrans CliState Searched where
  trans := by
    intro s t u h h'
    refine ⟨h'.history.trans h.history, h'.vt100State.trans h.vt100State, h'.lineBuf.trans h.lineBuf,
      h'.lineBufIndex.trans h.lineBufIndex, h'.end_eq.trans h.end_eq, fun hle => h'.start_le (h.start_le hle)⟩

theorem still_searched {α : Type} {p : CliM α} (h : p.Within (Same CliState.still)) : p.Within Searched := by
  refine h.weaken fun s t hst => ?_
  have hs : s.autocompleteStartIndex = t.autocompleteStartIndex := congrArg (fun x => x.2.1.2.2.1) hst
  have he : s.autocompleteEndIndex = t.autocompleteEndIndex := congrArg (fun x => x.2.1.2.2.2) hst
  exact ⟨(congrArg Prod.fst hst).symm, (congrArg (fun x => x.2.2) hst).symm, (congrArg (fun x => x.2.1.1) hst).symm,
    (congrArg (fun x => x.2.1.2.1) hst).symm, he.symm, fun hle => hs ▸ he ▸ hle⟩

theorem itemName_still : (itemName lists).Within (Same CliState.still) := by
  apply within_attempt
  intro s a t h
  obtain ⟨item, -, hi⟩ := Option.map_eq_some_iff.mp h
  rw [Prod.mk.injEq] at hi
  rw [← hi.2]
  rfl

/-- A match ends where the part to be matched does. -/
def MatchEnds (r : Option (ℕ × CString × ℕ)) (t : CliState) : Prop :=
  ∀ i name k, r = some (i, name, k) → i ≤ t.autocompleteEndIndex

theorem nameChar_returns {name : CString} {k : ℕ} {s t : CliState} {c : UInt8}
    (hr : (nameChar name k).Returns s c t) : k ≤ name.chars.length ∧ c = name.chars[k]?.getD 0 ∧ t = s := by
  unfold nameChar at hr
  simp only [check_bind_returns, returns_pure] at hr
  exact ⟨hr.1, hr.2.1.symm, hr.2.2.symm⟩

theorem matchRound_searched {s t : CliState} {i k : ℕ} {name : CString} {z : (ℕ × ℕ) ⊕ Option (ℕ × CString × ℕ)}
    (hi : i ≤ s.autocompleteEndIndex) (hs : s.autocompleteStartIndex ≤ s.autocompleteEndIndex)
    (hr : (matchRound cfg lists name (i, k)).Returns s z t) :
    Searched s t ∧ (∀ i' k', z = .inl (i', k') → i' ≤ t.autocompleteEndIndex) ∧
      ∀ r, z = .inr r → MatchEnds r t := by
  unfold matchRound at hr
  rw [get_bind_returns] at hr
  by_cases hlt : i < s.autocompleteEndIndex
  · rw [if_pos hlt] at hr
    obtain ⟨c, u, hc, hr⟩ := returns_bind.mp hr
    rw [(nameChar_returns hc).2.2] at hr
    split at hr
    · split at hr
      · -- the child item is matched from the next word on
        obtain ⟨_, u, hu, hr⟩ := returns_bind.mp hr
        obtain ⟨name', v, hv, hr⟩ := returns_bind.mp hr
        have hsv : Searched s v := IsTrans.trans _ _ _ (still_searched getChild_still hu)
          (still_searched itemName_still hv)
        have hend := hsv.end_eq
        rw [modify_bind_returns, returns_pure] at hr
        obtain ⟨rfl, rfl⟩ := hr
        refine ⟨⟨hsv.history, hsv.vt100State, hsv.lineBuf, hsv.lineBufIndex, hend, fun _ => ?_⟩, ?_, ?_⟩
        · change i + 1 ≤ v.autocompleteEndIndex
          omega
        · rintro _ _ ⟨⟩
        · rintro _ ⟨⟩ i' _ _ ⟨⟩
          change i + 1 ≤ v.autocompleteEndIndex
          omega
      · obtain ⟨rfl, rfl⟩ := returns_pure.mp hr
        refine ⟨Std.Refl.refl s, ?_, ?_⟩
        · rintro _ _ ⟨⟩
        · rintro _ ⟨⟩ _ _ _ ⟨⟩
    · split at hr
      · obtain ⟨_, u, hu, hr⟩ := returns_bind.mp hr
        have hsu : Searched s u := still_searched nextCyclic_still hu
        rw [get_bind_returns, returns_pure] at hr
        obtain ⟨rfl, rfl⟩ := hr
        refine ⟨hsu, ?_, ?_⟩
        · rintro _ _ ⟨⟩
        · rintro _ ⟨⟩ _ _ _ ⟨⟩
          exact hsu.start_le hs
      · obtain ⟨rfl, rfl⟩ := returns_pure.mp hr
        refine ⟨Std.Refl.refl s, ?_, ?_⟩
        · rintro _ _ ⟨⟩
          exact hlt
        · rintro _ ⟨⟩
  · rw [if_neg hlt] at hr
    obtain ⟨rfl, rfl⟩ := returns_pure.mp hr
    refine ⟨Std.Refl.refl s, ?_, ?_⟩
    · rintro _ _ ⟨⟩
    · rintro _ ⟨⟩ _ _ _ ⟨⟩
      exact hi

theorem matchName_searched {s t : CliState} {i : ℕ} {name : CString} {r : Option (ℕ × CString × ℕ)}
    (hi : i ≤ s.autocompleteEndIndex) (hs : s.autocompleteStartIndex ≤ s.autocompleteEndIndex)
    (hr : (matchName cfg lists i name).Returns s r t) : Searched s t ∧ MatchEnds r t := by
  refine loop_partial (I := fun x u => Searched s u ∧ x.1 ≤ u.autocompleteEndIndex)
    (Q := fun r u => Searched s u ∧ MatchEnds r u) ?_ ?_ ⟨Std.Refl.refl s, hi⟩ hr
  · rintro ⟨i, k⟩ u ⟨i', k'⟩ v ⟨hu, hiu⟩ hv
    obtain ⟨huv, hgo, -⟩ := matchRound_searched hiu (hu.start_le hs) hv
    exact ⟨IsTrans.trans _ _ _ hu huv, hgo i' k' rfl⟩
  · rintro ⟨i, k⟩ u r v ⟨hu, hiu⟩ hv
    obtain ⟨huv, -, hleave⟩ := matchRound_searched hiu (hu.start_le hs) hv
    exact ⟨IsTrans.trans _ _ _ hu huv, hleave r rfl⟩

theorem findRound_searched {s t : CliState} {i : ℕ} {p : ItemPtr} {z : ℕ ⊕ Option (ℕ × CString × ℕ)}
    (hi : i ≤ s.autocompleteEndIndex) (hs : s.autocompleteStartIndex ≤ s.autocompleteEndIndex)
    (hr : (findRound cfg lists p i).Returns s z t) :
    Searched s t ∧ (∀ i', z = .inl i' → i' ≤ t.autocompleteEndIndex) ∧
      ∀ i name k, z = .inr (some (i, name, k)) → i = t.autocompleteEndIndex := by
  obtain ⟨name, u, hu, hr⟩ := returns_bind.mp hr
  have hsu : Searched s u := still_searched itemName_still hu
  obtain ⟨r, v, hv, hr⟩ := returns_bind.mp hr
  have hend := hsu.end_eq
  obtain ⟨huv, hends⟩ := matchName_searched (by omega) (hsu.start_le hs) hv
  have hsv : Searched s v := IsTrans.trans _ _ _ hsu huv
  cases r with
  | none =>
    obtain ⟨rfl, rfl⟩ := returns_pure.mp hr
    exact ⟨hsv, by simp, by simp⟩
  | some x =>
    obtain ⟨i₁, name₁, k⟩ := x
    have hle := hends i₁ name₁ k rfl
    simp only [get_bind_returns] at hr
    split at hr
    · obtain ⟨rfl, rfl⟩ := returns_pure.mp hr
      refine ⟨hsv, by simp, ?_⟩
      rintro _ _ _ ⟨⟩
      omega
    · split at hr
      · obtain ⟨rfl, rfl⟩ := returns_pure.mp hr
        exact ⟨hsv, by simp, by simp⟩
      · obtain ⟨rfl, rfl⟩ := returns_pure.mp hr
        refine ⟨hsv, ?_, by simp⟩
        rintro _ ⟨⟩
        exact hle

theorem findMatch_searched {s t : CliState} {i : ℕ} {p : ItemPtr} {r : Option (ℕ × CString × ℕ)}
    (hi : i ≤ s.autocompleteEndIndex) (hs : s.autocompleteStartIndex ≤ s.autocompleteEndIndex)
    (hr : (findMatch cfg lists p i).Returns s r t) :
    Searched s t ∧ ∀ i name k, r = some (i, name, k) → i = t.autocompleteEndIndex := by
  refine loop_partial (I := fun i u => Searched s u ∧ i ≤ u.autocompleteEndIndex)
    (Q := fun r u => Searched s u ∧ ∀ i name k, r = some (i, name, k) → i = u.autocompleteEndIndex) ?_ ?_
    ⟨Std.Refl.refl s, hi⟩ hr
  · rintro i u i' v ⟨hu, hiu⟩ hv
    obtain ⟨huv, hgo, -⟩ := findRound_searched hiu (hu.start_le hs) hv
    exact ⟨IsTrans.trans _ _ _ hu huv, hgo i' rfl⟩
  · rintro i u r v ⟨hu, hiu⟩ hv
    obtain ⟨huv, -, hend⟩ := findRound_searched hiu (hu.start_le hs) hv
    refine ⟨IsTrans.trans _ _ _ hu huv, ?_⟩
    rintro i' name k rfl
    exact hend i' name k rfl

theorem completeName_line {s t : CliState} {i j : ℕ} {name : CString} {k : ℕ} (hi : i ≤ cfg.lineLengthMax - 1)
    (hnz : ∀ m < i, s.lineBuf m ≠ 0) (hr : (completeName cfg i name k).Returns s j t) :
    i ≤ j ∧ j ≤ cfg.lineLengthMax - 1 ∧ (∀ m < j, t.lineBuf m ≠ 0) ∧ t.kept = s.kept ∧
      t.autocompleteStartIndex = s.autocompleteStartIndex ∧ t.autocompleteEndIndex = s.autocompleteEndIndex := by
  let I (j : ℕ) (t : CliState) : Prop := i ≤ j ∧ j ≤ cfg.lineLengthMax - 1 ∧ (∀ m < j, t.lineBuf m ≠ 0) ∧
    t.kept = s.kept ∧ t.autocompleteStartIndex = s.autocompleteStartIndex ∧
    t.autocompleteEndIndex = s.autocompleteEndIndex
  refine loop_partial (I := fun x t => I x.1 t) (Q := I) ?_ ?_ ⟨Nat.le_refl i, hi, hnz, rfl, rfl, rfl⟩ hr
  · rintro ⟨j, k⟩ u ⟨j', k'⟩ v ⟨hij, hj, hju, hk, hst, hen⟩ hv
    obtain ⟨c, w, hc, hv⟩ := returns_bind.mp hv
    rw [(nameChar_returns hc).2.2] at hv
    split at hv
    · simp at hv
    · rename_i hc0
      split at hv
      · simp at hv
      · rename_i hlt
        simp only [setLine, xputc, send, bind_assoc, check_bind_returns, modify_bind_returns, returns_pure] at hv
        obtain ⟨-, ⟨⟩, rfl⟩ := hv
        refine ⟨by omega, by omega, ?_, hk, hst, hen⟩
        intro m hm
        change Function.update u.lineBuf j c m ≠ 0
        rw [Function.update_apply]
        split
        · exact hc0
        · exact hju m (by omega)
  · rintro ⟨j, k⟩ u j' v hu hv
    obtain ⟨c, w, hc, hv⟩ := returns_bind.mp hv
    rw [(nameChar_returns hc).2.2] at hv
    split at hv
    · obtain ⟨⟨⟩, rfl⟩ := returns_pure.mp hv
      exact hu
    · split at hv
      · obtain ⟨⟨⟩, rfl⟩ := returns_pure.mp hv
        exact hu
      · simp [setLine, xputc, send] at hv

/-- Where a completion leaves the line. -/
structure Completed (cfg : Config) (s t : CliState) : Prop where
  history : t.history = s.history
  vt100State : t.vt100State = s.vt100State
  sound : LineSound cfg t
  end_eq : t.autocompleteEndIndex = s.autocompleteEndIndex
  index_le : t.lineBufIndex = s.lineBufIndex ∨ s.autocompleteEndIndex ≤ t.lineBufIndex

theorem autocomplete_completed {s t : CliState} {b : Bool} (hs : LineSound cfg s)
    (hr : (cliAutocomplete cfg lists).Returns s b t) : Completed cfg s t := by
  unfold cliAutocomplete at hr
  rw [get_bind_returns] at hr
  obtain ⟨r, u, hu, hr⟩ := returns_bind.mp hr
  obtain ⟨hsu, hend⟩ := findMatch_searched hs.start_le hs.start_le hu
  have hlu := hsu.lineBuf
  have hiu := hsu.lineBufIndex
  have heu := hsu.end_eq
  have hu' : LineSound cfg u := ⟨hiu ▸ hs.index_le, hsu.start_le hs.start_le, heu ▸ hs.end_le, by
    rw [hlu, hiu, heu]
    exact hs.nonzero⟩
  cases r with
  | none =>
    obtain ⟨rfl, rfl⟩ := returns_pure.mp hr
    exact ⟨hsu.history, hsu.vt100State, hu', heu, .inl hiu⟩
  | some x =>
    obtain ⟨i, name, k⟩ := x
    obtain rfl := hend i name k rfl
    rw [get_bind_returns, vt100DelChars, modify_bind_returns] at hr
    obtain ⟨j, v, hv, hr⟩ := returns_bind.mp hr
    obtain ⟨hij, hj, hjv, hk, hst, hen⟩ := completeName_line hu'.end_le
      (by exact fun m hm => hu'.nonzero m (.inr hm)) hv
    rw [modify_bind_returns] at hr
    obtain ⟨_, w, hw, hr⟩ := returns_bind.mp hr
    obtain ⟨rfl, rfl⟩ := returns_pure.mp hr
    have hvw := still_searched nextCyclic_still hw
    have hhist : v.history = u.history := congrArg Prod.fst hk
    have hvt : v.vt100State = u.vt100State := congrArg (fun x => x.2.2) hk
    have hew : w.autocompleteEndIndex = u.autocompleteEndIndex := hvw.end_eq.trans hen
    have hiw : w.lineBufIndex = j := hvw.lineBufIndex
    have hlw : w.lineBuf = v.lineBuf := hvw.lineBuf
    refine ⟨hvw.history.trans (hhist.trans hsu.history), hvw.vt100State.trans (hvt.trans hsu.vt100State),
      ⟨by omega, hvw.start_le ?_, by have := hs.end_le; omega, ?_⟩, by omega, .inr (by omega)⟩
    · change v.autocompleteStartIndex ≤ v.autocompleteEndIndex
      rw [hst, hen]
      exact hu'.start_le
    · intro m hm
      rw [hlw]
      exact hjv m (by omega)

end autocomplete

end Lpc1788Libraries.Cli

import Lpc1788Libraries.Cli.CliHistoryRing

namespace Lpc1788Libraries.Cli

open Lpc1788Libraries.Support BoundedProgram BoundedProgram.Prog

variable {cfg : Config} {lists : Lists} {s t u : CliState} {l : List UInt8} {data : UInt8}

/-- The part to be completed lies within the line. -/
structure Ordered (cfg : Config) (s : CliState) : Prop where
  start_le : s.autocompleteStartIndex ≤ s.autocompleteEndIndex
  end_le : s.autocompleteEndIndex ≤ s.lineBufIndex
  index_le : s.lineBufIndex ≤ cfg.lineLengthMax - 1

/-- The key shows a line of the history that is shorter than the part to be completed. -/
def RecallsShort (cfg : Config) (s : CliState) (data : UInt8) : Prop :=
  cfg.historySize ≠ 0 ∧ ∃ h : History cfg, Represents cfg s h ∧
    ∃ h' ∈ h.recalled (keyOf s data), h'.line.length < s.autocompleteEndIndex

variable (lists) in
theorem arrow_returns {h : History cfg} (hr : Represents cfg s h) {h' : History cfg}
    (hh : h' ∈ h.recalled (keyOf s data)) :
    ∃ t, (cliOnRxChar cfg lists data).Returns s () t ∧ t.lineBufIndex = h'.line.length ∧
      t.autocompleteEndIndex = s.autocompleteEndIndex := by
  unfold History.recalled keyOf at hh
  split at hh
  · simp at hh
  · rename_i hH
    have hpos := Nat.pos_of_ne_zero hH
    obtain ⟨v, hv⟩ : ∃ v, v = { s with vt100State := (vt100OnRxChar s.vt100State data).2 } := ⟨_, rfl⟩
    have hrv : Represents cfg v h := hv ▸ hr.congr rfl
    have hend : v.autocompleteEndIndex = s.autocompleteEndIndex := by rw [hv]
    unfold cliOnRxChar
    simp only [get_bind_returns, modify_bind_returns, ← hv]
    split at hh
    · rename_i hk
      simp only [hk, ne_eq, hH, not_false_eq_true, if_true]
      have hret := older_returns hrv hpos
      rw [Option.mem_def.mp hh] at hret
      exact ⟨_, hret, rfl, hend⟩
    · rename_i hk
      simp only [hk, ne_eq, hH, not_false_eq_true, if_true]
      have hret := newer_returns hrv hpos
      rw [Option.mem_def.mp hh] at hret
      exact ⟨_, hret, rfl, hend⟩
    · simp at hh

theorem ordered_step (ho : Ordered cfg s) (hs : LineSound cfg s)
    (hr : cfg.historySize ≠ 0 → ∃ h : History cfg, Represents cfg s h) (hno : ¬ RecallsShort cfg s data)
    (hret : (cliOnRxChar cfg lists data).Returns s () t) : Ordered cfg t := by
  obtain ⟨h, hr⟩ : ∃ h : History cfg, cfg.historySize ≠ 0 → Represents cfg s h := by
    by_cases hH : cfg.historySize = 0
    · exact ⟨History.empty cfg, fun hne => absurd hH hne⟩
    · obtain ⟨h, hr⟩ := hr hH
      exact ⟨h, fun _ => hr⟩
  have hrec := onRxChar_received hs hr hret
  refine ⟨hrec.sound.start_le, ?_, hrec.sound.index_le⟩
  cases hh : h.recalled (keyOf s data) with
  | none => exact hrec.order hh ho.end_le
  | some h' =>
    obtain ⟨hi, he⟩ := hrec.shown h' hh
    have hH : cfg.historySize ≠ 0 := by
      intro hH
      simp [History.recalled, hH] at hh
    have hlong : ¬ h'.line.length < s.autocompleteEndIndex := fun hlt => hno ⟨hH, h, hr hH, h', hh, hlt⟩
    omega

/-- The indices stay in order exactly as long as no arrow key shows a line that is shorter than
what has been typed or completed since the last reset. -/
theorem indices_ordered_iff {startup : Option CString} (hinit : Reached cfg lists startup [] s) :
    (∀ l' t, l' <+: l → (feed cfg lists l').Returns s () t → Ordered cfg t) ↔
      ∀ l' data t, l' ++ [data] <+: l → (feed cfg lists l').Returns s () t → ¬ RecallsShort cfg t data := by
  constructor
  · rintro hall l' data t hpre hf ⟨hH, h, hr, h', hh, hlt⟩
    obtain ⟨u, hu, hi, he⟩ := arrow_returns lists hr hh
    have hf' : (feed cfg lists (l' ++ [data])).Returns s () u :=
      feed_append.mpr ⟨t, hf, hu.bind (returns_pure.mpr ⟨rfl, rfl⟩)⟩
    have ho := (hall _ u hpre hf').end_le
    omega
  · intro hno l'
    induction l' using List.reverseRecOn with
    | nil =>
      intro t _ hf
      obtain ⟨-, rfl⟩ := returns_pure.mp hf
      obtain ⟨boot, hret⟩ := hinit.initial
      obtain ⟨hi, hst, hen, -, -⟩ := init_spec hret
      exact ⟨by omega, by omega, by omega⟩
    | append_singleton l' data ih =>
      intro t hpre hf
      obtain ⟨u, hu, hf⟩ := feed_append.mp hf
      obtain ⟨_, v, hv, hf⟩ := returns_bind.mp hf
      obtain ⟨-, rfl⟩ := returns_pure.mp hf
      have hpre' : l' <+: l := (List.prefix_append _ _).trans hpre
      obtain ⟨hs, hr⟩ := (reached_feed hinit hu).sound
      exact ordered_step (ih u hpre' hu) hs hr (hno l' data u hpre hu) hv

theorem indices_ordered_typed : ∃ s t, Reached smallConsole (fun _ => []) none [] s ∧
    (feed smallConsole (fun _ => []) [0x61]).Returns s () t ∧ Ordered smallConsole t := by
  obtain ⟨s, t, hs, hf, -⟩ := @exists_run smallConsole (fun _ => []) [0x61] none 20 (fun _ => true) (by decide)
  refine ⟨s, t, hs, hf, (indices_ordered_iff hs).mpr ?_ _ t List.prefix_rfl hf⟩
  rintro l' data u ⟨rest, hl⟩ hu ⟨hH, h, hr, h', hh, hlt⟩
  obtain ⟨rfl, rfl⟩ : l' = [] ∧ data = 0x61 := by
    rcases l' with _ | ⟨c, l'⟩
    · simp at hl
      exact ⟨rfl, hl.1⟩
    · simp at hl
  obtain ⟨-, rfl⟩ := returns_pure.mp hu
  obtain ⟨boot, hret⟩ := hs.initial
  have hk : keyOf s 0x61 = .charNormal := by
    rw [keyOf, (init_spec hret).2.2.2.1]
    rfl
  have hnone : h.recalled .charNormal = none := ite_self none
  rw [hk, hnone] at hh
  cases hh

/-- A recalled line of two characters in the place of three typed ones. -/
theorem indices_not_ordered : ∃ s t, Reached smallConsole (fun _ => []) none [] s ∧
    (feed smallConsole (fun _ => []) [0x61, 0x62, 0x0d, 0x78, 0x79, 0x7a, 0x1b, 0x5b, 0x41]).Returns s () t ∧
    ¬ Ordered smallConsole t := by
  obtain ⟨s, t, hs, hf, hlt⟩ := @exists_run smallConsole (fun _ => [])
    [0x61, 0x62, 0x0d, 0x78, 0x79, 0x7a, 0x1b, 0x5b, 0x41] none 20
    (fun t => decide (t.lineBufIndex < t.autocompleteEndIndex)) (by decide)
  exact ⟨s, t, hs, hf, fun ho => Nat.not_lt.mpr ho.end_le (of_decide_eq_true hlt)⟩

end Lpc1788Libraries.Cli

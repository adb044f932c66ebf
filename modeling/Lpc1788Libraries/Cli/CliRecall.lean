import Lpc1788Libraries.Cli.CliHistoryRing

namespace Lpc1788Libraries.Cli

open Lpc1788Libraries.Support BoundedProgram BoundedProgram.Prog DelimitedRing

variable {cfg : Config} {lists : Lists} {s t u : CliState} {h : History cfg} {l : List UInt8}

def upKey : List UInt8 := [0x1b, 0x5b, 0x41]

def downKey : List UInt8 := [0x1b, 0x5b, 0x42]

def press (n : ℕ) (key : List UInt8) : List UInt8 := (List.replicate n key).flatten

/-- Lines as they are entered. -/
def entered (ls : List (List UInt8)) : List UInt8 := ls.flatMap (· ++ [0x0d])

/-- A line of visible characters. -/
def Typed (cfg : Config) (l : List UInt8) : Prop :=
  l.length ≤ cfg.lineLengthMax - 1 ∧ ∀ c ∈ l, 0x20 ≤ c ∧ c < 0x80

/-- The history as a list, the newest line first: a line goes in front unless it is there, and of
the older ones those stay that still fit. -/
def remember (cfg : Config) (es : List (List UInt8)) (l : List UInt8) : List (List UInt8) :=
  if l = [] ∨ es.head? = some l then es else l :: fit (cfg.historySize - (l.length + 1)) es

def remembered (cfg : Config) (ls : List (List UInt8)) : List (List UInt8) := ls.foldl (remember cfg) []

/-- UP shows the lines of the list, from the newest one back, and DOWN leads forward again. -/
def Recalls (cfg : Config) (lists : Lists) (s : CliState) (es : List (List UInt8)) : Prop :=
  ∀ k (hk : k < es.length), ∃ t, (feed cfg lists (press (k + 1) upKey)).Returns s () t ∧ t.line = es[k] ∧
    ∀ j (hj : j ≤ k), ∃ u, (feed cfg lists (press j downKey)).Returns t () u ∧ u.line = es[k - j]

theorem remember_evicts {es kept older : List (List UInt8)} {e l : List UInt8} (hes : es = kept ++ e :: older)
    (hr : remember cfg es l = l :: kept) (hl : l.length + 1 ≤ cfg.historySize) (hne : l ≠ [])
    (hnew : es.head? ≠ some l) : cfg.historySize < size (l :: kept) + (e.length + 1) := by
  rw [remember, if_neg (by simp [hne, hnew]), List.cons.injEq] at hr
  have hmax := fit_maximal (hr.2.symm ▸ hes)
  rw [hr.2] at hmax
  rw [size_cons]
  omega

section feeding

/-- Between two lines: nothing has been typed, and the history is at its end. -/
structure AtPrompt (cfg : Config) (s : CliState) (h : History cfg) : Prop where
  sound : LineSound cfg s
  represents : Represents cfg s h
  index_eq : s.lineBufIndex = 0
  shown_eq : h.shown = 0
  vt100State_eq : s.vt100State = 0

theorem typed_line (hs : LineSound cfg s) (hv : s.vt100State = 0) (hc : ∀ c ∈ l, 0x20 ≤ c ∧ c < 0x80)
    (hlen : s.lineBufIndex + l.length ≤ cfg.lineLengthMax - 1) (hf : (feed cfg lists l).Returns s () t) :
    LineSound cfg t ∧ t.history = s.history ∧ t.vt100State = 0 ∧ t.line = s.line ++ l := by
  induction l generalizing s with
  | nil =>
    obtain ⟨-, rfl⟩ := returns_pure.mp hf
    exact ⟨hs, rfl, hv, (List.append_nil _).symm⟩
  | cons c l ih =>
    rw [List.length_cons] at hlen
    have hroom : s.lineBufIndex < cfg.lineLengthMax - 1 := by omega
    have hcc := hc c List.mem_cons_self
    obtain ⟨_, v, hchar, hf⟩ := returns_bind.mp hf
    rw [typed_char hcc hv hroom] at hchar
    have hother := onOther_spec hs ((@onOther_typed _ lists _ _ _ hcc.1 hroom).mpr hchar)
    subst hchar
    obtain ⟨ht, hhist, hvt, hline⟩ := ih hother.1 hv (fun d hd => hc d (List.mem_cons_of_mem _ hd))
      (by change s.lineBufIndex + 1 + l.length ≤ _; omega) hf
    refine ⟨ht, hhist, hvt, ?_⟩
    rw [hline, line_typed, List.append_assoc, List.singleton_append]

theorem entered_line (hLH : cfg.lineLengthMax ≤ cfg.historySize) (hp : AtPrompt cfg s h) (hl : Typed cfg l)
    (hf : (feed cfg lists (l ++ [0x0d])).Returns s () u) : ∃ h' : History cfg, AtPrompt cfg u h' ∧
      h'.lines = if l <:+ h.lines.headD [] then h.lines
        else l :: fit (cfg.historySize - (l.length + 1)) h.lines := by
  obtain ⟨t, ht, hf⟩ := feed_append.mp hf
  obtain ⟨hst, hhist, hvt, hline⟩ := typed_line hp.sound hp.vt100State_eq hl.2
    (by rw [hp.index_eq, Nat.zero_add]; exact hl.1) ht
  have hnil : s.line = [] := by simp [CliState.line, hp.index_eq]
  rw [hnil, List.nil_append] at hline
  obtain ⟨_, v, hcr, hf⟩ := returns_bind.mp hf
  obtain ⟨-, rfl⟩ := returns_pure.mp hf
  unfold cliOnRxChar at hcr
  have hkey : vt100OnRxChar t.vt100State 0x0d = (.charNormal, 0) := by
    rw [hvt]
    rfl
  rw [get_bind_returns, modify_bind_returns, hkey] at hcr
  have hst' : LineSound cfg { t with vt100State := 0 } := ⟨hst.index_le, hst.start_le, hst.end_le, hst.nonzero⟩
  obtain ⟨hi, hstart, hend, hv, hrep⟩ := onEnter_spec hst' (fun _ => (hp.represents.congr hhist).congr rfl) hcr
  have hH : cfg.historySize ≠ 0 := Nat.ne_of_gt (Nat.lt_of_lt_of_le cfg.line_pos hLH)
  refine ⟨_, ⟨⟨by omega, by omega, by omega, fun i hlt => by omega⟩, hrep hH, hi, ?_, hv⟩, ?_⟩
  · unfold History.save
    split <;> rfl
  · have hline' : CliState.line { t with vt100State := 0 } = l := hline
    simp only [History.save, hline']
    split
    · rfl
    · simp only [History.push]

end feeding

section arrows

theorem escape_returns {c : UInt8} (hv : s.vt100State = 0) :
    (feed cfg lists [0x1b, 0x5b, c]).Returns s () t ↔
      (cliOnRxChar cfg lists c).Returns { s with vt100State := 2 } () t := by
  have hesc : vt100OnRxChar s.vt100State 0x1b = (.escSeqBusy, 1) := by
    rw [hv]
    rfl
  have hbracket : vt100OnRxChar 1 0x5b = (.escSeqBusy, 2) := rfl
  have h₁ : (cliOnRxChar cfg lists 0x1b).Returns s () { s with vt100State := 1 } := by
    unfold cliOnRxChar
    rw [get_bind_returns, modify_bind_returns, hesc]
    exact returns_pure.mpr ⟨rfl, rfl⟩
  have h₂ : (cliOnRxChar cfg lists 0x5b).Returns { s with vt100State := 1 } () { s with vt100State := 2 } := by
    unfold cliOnRxChar
    rw [get_bind_returns, modify_bind_returns, hbracket]
    exact returns_pure.mpr ⟨rfl, rfl⟩
  simp only [feed]
  rw [h₁.bind_iff, h₂.bind_iff]
  constructor
  · intro h
    obtain ⟨_, u, hu, h⟩ := returns_bind.mp h
    obtain ⟨-, rfl⟩ := returns_pure.mp h
    exact hu
  · exact fun h => h.bind (returns_pure.mpr ⟨rfl, rfl⟩)

variable (lists)

theorem up_returns (hr : Represents cfg s h) (hH : 0 < cfg.historySize) (hv : s.vt100State = 0) :
    (feed cfg lists upKey).Returns s () (showRecalled s h.older) := by
  have hkey : vt100OnRxChar 2 0x41 = (.arrowUp, 0) := rfl
  rw [upKey, escape_returns hv]
  unfold cliOnRxChar
  rw [get_bind_returns, modify_bind_returns, hkey]
  simp only [if_pos hH.ne', vt100State_zero hv]
  exact older_returns hr hH

theorem down_returns (hr : Represents cfg s h) (hH : 0 < cfg.historySize) (hv : s.vt100State = 0) :
    (feed cfg lists downKey).Returns s () (showRecalled s (some h.forth)) := by
  have hkey : vt100OnRxChar 2 0x42 = (.arrowDn, 0) := rfl
  rw [downKey, escape_returns hv]
  unfold cliOnRxChar
  rw [get_bind_returns, modify_bind_returns, hkey]
  simp only [if_pos hH.ne', vt100State_zero hv]
  exact newer_returns hr hH

/-- The lines are saved, and the history is `k` lines back. -/
def Shows (cfg : Config) (s : CliState) (es : List (List UInt8)) (k : ℕ) : Prop :=
  s.vt100State = 0 ∧ ∃ h : History cfg, Represents cfg s h ∧ h.lines = es ∧ h.shown = k

variable {es : List (List UInt8)} {k : ℕ}

theorem up_step (hH : 0 < cfg.historySize) (hs : Shows cfg s es k) (hk : k < es.length)
    (hone : (es.headD []).length ≠ 1) :
    ∃ t, (feed cfg lists upKey).Returns s () t ∧ Shows cfg t es (k + 1) ∧ t.line = es[k] := by
  obtain ⟨hv, h, hr, rfl, rfl⟩ := hs
  have hshort : ¬ (h.shown = 0 ∧ (h.lines[h.shown]).length = 1) := by
    rintro ⟨h0, h1⟩
    apply hone
    rw [← h1]
    simp only [h0, List.headD_eq_head?_getD, List.head?_eq_getElem?]
    rw [List.getElem?_eq_getElem (by omega)]
    rfl
  have hold : h.older = some (h.back hk) := by rw [History.older, dif_pos hk, if_neg hshort]
  have hret := up_returns lists hr hH hv
  rw [hold] at hret
  refine ⟨_, hret, ⟨hv, h.back hk, ?_, rfl, rfl⟩, ?_⟩
  · exact Represents.congr (hr.move rfl : Represents cfg _ (h.back hk)) rfl
  · change (showLine _ (h.back hk).line).line = _
    rw [showLine_line, History.line]
    simp only [History.back_lines, History.back_shown, List.getElem?_cons_succ]
    rw [List.getElem?_eq_getElem hk]
    rfl

theorem down_step (hH : 0 < cfg.historySize) (hs : Shows cfg s es (k + 1)) :
    ∃ t, (feed cfg lists downKey).Returns s () t ∧ Shows cfg t es k ∧ t.line = (([] :: es)[k]?).getD [] := by
  obtain ⟨hv, h, hr, rfl, hk⟩ := hs
  have hf : h.forth.shown = k := by rw [History.forth_shown, hk, Nat.add_sub_cancel]
  refine ⟨_, down_returns lists hr hH hv, ⟨hv, h.forth, ?_, rfl, hf⟩, ?_⟩
  · exact Represents.congr (hr.move rfl : Represents cfg _ h.forth) rfl
  · change (showLine _ h.forth.line).line = _
    rw [showLine_line, History.line, hf]
    rfl

theorem press_succ {n : ℕ} {key : List UInt8} : press (n + 1) key = press n key ++ key := by
  rw [press, List.replicate_succ', List.flatten_concat]
  rfl

theorem up_run (hH : 0 < cfg.historySize) (hs : Shows cfg s es 0) (hone : (es.headD []).length ≠ 1)
    (hk : k < es.length) :
    ∃ t, (feed cfg lists (press (k + 1) upKey)).Returns s () t ∧ Shows cfg t es (k + 1) ∧ t.line = es[k] := by
  induction k with
  | zero =>
    rw [press_succ]
    exact up_step lists hH hs hk hone
  | succ k ih =>
    obtain ⟨t, ht, hst, -⟩ := ih (by omega)
    obtain ⟨u, hu, hsu, hline⟩ := up_step lists hH hst hk hone
    rw [press_succ]
    exact ⟨u, feed_append.mpr ⟨t, ht, hu⟩, hsu, hline⟩

theorem down_run (hH : 0 < cfg.historySize) (hs : Shows cfg s es (k + 1)) (hk : k < es.length)
    (hline : s.line = es[k]) {j : ℕ} (hj : j ≤ k) :
    ∃ t, (feed cfg lists (press j downKey)).Returns s () t ∧ Shows cfg t es (k - j + 1) ∧ t.line = es[k - j] := by
  induction j with
  | zero => exact ⟨s, returns_pure.mpr ⟨rfl, rfl⟩, hs, hline⟩
  | succ j ih =>
    obtain ⟨t, ht, hst, -⟩ := ih (by omega)
    obtain ⟨u, hu, hsu, hline⟩ := down_step lists hH hst
    rw [press_succ]
    have hkj : k - j = k - (j + 1) + 1 := by omega
    refine ⟨u, feed_append.mpr ⟨t, ht, hu⟩, hkj ▸ hsu, ?_⟩
    rw [hline, hkj, List.getElem?_cons_succ, List.getElem?_eq_getElem (by omega)]
    rfl

theorem recalls_of_atPrompt (hH : 0 < cfg.historySize) (hp : AtPrompt cfg s h)
    (hone : (h.lines.headD []).length ≠ 1) : Recalls cfg lists s h.lines := by
  intro k hk
  have hs : Shows cfg s h.lines 0 := ⟨hp.vt100State_eq, h, hp.represents, rfl, hp.shown_eq⟩
  obtain ⟨t, ht, hst, hline⟩ := up_run lists hH hs hone hk
  refine ⟨t, ht, hline, ?_⟩
  intro j hj
  obtain ⟨u, hu, -, hline'⟩ := down_run lists hH hst hk hline hj
  exact ⟨u, hu, hline'⟩

end arrows

section runs

variable {startup : Option CString} {ls ls' : List (List UInt8)}

/-- The history is the list: it holds these lines and shows them. -/
def HistoryIs (cfg : Config) (lists : Lists) (s : CliState) (es : List (List UInt8)) : Prop :=
  (∃ h : History cfg, Represents cfg s h ∧ h.lines = es) ∧ Recalls cfg lists s es

/-- The newest line is found again, and the next one does not pass for it. -/
def Unmistakable (es : List (List UInt8)) (l : List UInt8) : Prop :=
  l <:+ es.headD [] → l = [] ∨ es.head? = some l

theorem remember_eq {es : List (List UInt8)} (hu : Unmistakable es l) : remember cfg es l =
    if l <:+ es.headD [] then es else l :: fit (cfg.historySize - (l.length + 1)) es := by
  have hiff : (l = [] ∨ es.head? = some l) ↔ l <:+ es.headD [] := by
    refine ⟨?_, hu⟩
    rintro (rfl | h)
    · exact List.nil_suffix
    · rw [List.headD_eq_head?_getD, h]
      exact List.suffix_rfl
  unfold remember
  by_cases hs : l <:+ es.headD []
  · rw [if_pos hs, if_pos (hiff.mpr hs)]
  · rw [if_neg hs, if_neg (fun h => hs (hiff.mp h))]

theorem remembered_concat : remembered cfg (ls ++ [l]) = remember cfg (remembered cfg ls) l := by
  simp [remembered]

theorem entered_concat : entered (ls ++ [l]) = entered ls ++ (l ++ [0x0d]) := by simp [entered]

theorem atPrompt_init (hLH : cfg.lineLengthMax ≤ cfg.historySize) (hs : Reached cfg lists startup [] s) :
    AtPrompt cfg s (History.empty cfg) := by
  obtain ⟨boot, hret⟩ := hs.initial
  obtain ⟨hi, hst, hen, hv, hrep⟩ := init_spec hret
  exact ⟨⟨by omega, by omega, by omega, fun i hlt => by omega⟩,
    hrep (Nat.lt_of_lt_of_le cfg.line_pos hLH), hi, rfl, hv⟩

theorem mirror_step (hLH : cfg.lineLengthMax ≤ cfg.historySize) (hl : Typed cfg l)
    (hp : AtPrompt cfg s h) (hm : h.lines = remembered cfg ls) (hu : Unmistakable (remembered cfg ls) l)
    (hf : (feed cfg lists (l ++ [0x0d])).Returns s () t) :
    ∃ h' : History cfg, AtPrompt cfg t h' ∧ h'.lines = remembered cfg (ls ++ [l]) := by
  obtain ⟨h', hp', hl'⟩ := entered_line hLH hp hl hf
  refine ⟨h', hp', ?_⟩
  rw [hl', hm, remembered_concat, remember_eq hu]

theorem mirror_run (hLH : cfg.lineLengthMax ≤ cfg.historySize) (hls : ∀ l ∈ ls, Typed cfg l)
    (hinit : AtPrompt cfg s (History.empty cfg))
    (hu : ∀ ls' l, ls' ++ [l] <+: ls → Unmistakable (remembered cfg ls') l)
    (hf : (feed cfg lists (entered ls)).Returns s () t) :
    ∃ h : History cfg, AtPrompt cfg t h ∧ h.lines = remembered cfg ls := by
  induction ls using List.reverseRecOn generalizing t with
  | nil =>
    obtain ⟨-, rfl⟩ := returns_pure.mp hf
    exact ⟨_, hinit, rfl⟩
  | append_singleton ls l ih =>
    rw [entered_concat] at hf
    obtain ⟨u, hfu, hft⟩ := feed_append.mp hf
    obtain ⟨h, hp, hm⟩ := ih (fun d hd => hls d (by simp [hd]))
      (fun ls' l' hpre => hu ls' l' (hpre.trans (List.prefix_append _ _))) hfu
    exact mirror_step hLH (hls l (by simp)) hp hm (hu ls l List.prefix_rfl) hft

theorem not_recalls_single (hH : 0 < cfg.historySize) (hp : AtPrompt cfg s h)
    (hone : (h.lines.headD []).length = 1) : ¬ Recalls cfg lists s h.lines := by
  intro hrec
  cases hl : h.lines with
  | nil =>
    rw [hl] at hone
    exact absurd hone (by decide)
  | cons e es =>
    have hlt : 0 < h.lines.length := by simp [hl]
    have he : e.length = 1 := by rwa [hl] at hone
    obtain ⟨t, ht, hline, -⟩ := hrec 0 hlt
    have hnone : h.older = none := by
      unfold History.older
      simp only [hp.shown_eq, hl, List.getElem_cons_zero, he, and_self, if_true, dite_eq_ite, ite_self]
    have hup := up_returns lists hp.represents hH hp.vt100State_eq
    rw [hnone] at hup
    obtain ⟨-, hts⟩ := ht.unique hup
    have hnil : s.line = [] := by simp [CliState.line, hp.index_eq]
    have he' : e = [] := by
      have h0 : h.lines[0] = e := by simp only [hl, List.getElem_cons_zero]
      rw [← h0, ← hline, hts]
      exact hnil
    rw [he'] at he
    exact absurd he (by decide)

theorem unmistakable_of_recalls (hLH : cfg.lineLengthMax ≤ cfg.historySize) (hl : Typed cfg l)
    (hp : AtPrompt cfg s h) (hm : h.lines = remembered cfg ls) (hone : (h.lines.headD []).length ≠ 1)
    (hf : (feed cfg lists (l ++ [0x0d])).Returns s () t) (hrec : Recalls cfg lists t (remembered cfg (ls ++ [l]))) :
    Unmistakable (remembered cfg ls) l := by
  have hH : 0 < cfg.historySize := Nat.lt_of_lt_of_le cfg.line_pos hLH
  intro hs
  by_contra hne
  obtain ⟨h', hp', hl'⟩ := entered_line hLH hp hl hf
  rw [← hm] at hs hne
  rw [if_pos hs] at hl'
  rw [remembered_concat, ← hm, remember, if_neg hne] at hrec
  obtain ⟨u, hu, hline, -⟩ := hrec 0 (Nat.succ_pos _)
  rw [List.getElem_cons_zero] at hline
  cases hle : h.lines with
  | nil =>
    rw [hle] at hs hne
    exact hne (.inl (List.suffix_nil.mp hs))
  | cons e es =>
    rw [hle] at hl' hone hne
    have hlt : 0 < h'.lines.length := by simp [hl']
    have hone' : (h'.lines.headD []).length ≠ 1 := by rwa [hl']
    obtain ⟨v, hv, hline', -⟩ := recalls_of_atPrompt lists hH hp' hone' 0 hlt
    obtain ⟨-, rfl⟩ := hu.unique hv
    apply hne
    right
    rw [List.head?_cons, ← hline, hline']
    simp only [hl', List.getElem_cons_zero]

theorem feed_next (hf : (feed cfg lists (entered ls)).Returns s () t) (hpre : ls' ++ [l] <+: ls)
    (hfu : (feed cfg lists (entered ls')).Returns s () u) :
    ∃ v, (feed cfg lists (l ++ [0x0d])).Returns u () v := by
  obtain ⟨rest, rfl⟩ := hpre
  have happ : entered (ls' ++ [l] ++ rest) = entered ls' ++ ((l ++ [0x0d]) ++ entered rest) := by simp [entered]
  rw [happ] at hf
  obtain ⟨u', hu', hf⟩ := feed_append.mp hf
  obtain ⟨-, rfl⟩ := hfu.unique hu'
  obtain ⟨v, hv, -⟩ := feed_append.mp hf
  exact ⟨v, hv⟩

/-- The history behaves as a list exactly as long as no line of one character is the newest and no
line ends the newest one without being it. -/
theorem history_recall_iff (hLH : cfg.lineLengthMax ≤ cfg.historySize) (hls : ∀ l ∈ ls, Typed cfg l)
    (hinit : Reached cfg lists startup [] s) (hf : (feed cfg lists (entered ls)).Returns s () t) :
    (∀ ls' u, ls' <+: ls → (feed cfg lists (entered ls')).Returns s () u →
      HistoryIs cfg lists u (remembered cfg ls')) ↔
      (∀ ls', ls' <+: ls → ((remembered cfg ls').headD []).length ≠ 1) ∧
        ∀ ls' l, ls' ++ [l] <+: ls → Unmistakable (remembered cfg ls') l := by
  have hH : 0 < cfg.historySize := Nat.lt_of_lt_of_le cfg.line_pos hLH
  have hinit' := atPrompt_init hLH hinit
  constructor
  · intro hall
    have single : ∀ ls' u (h : History cfg), ls' <+: ls → (feed cfg lists (entered ls')).Returns s () u →
        AtPrompt cfg u h → h.lines = remembered cfg ls' → (h.lines.headD []).length ≠ 1 := by
      intro ls' u h hpre hfu hp hm hone
      have hrec := (hall ls' u hpre hfu).2
      rw [← hm] at hrec
      exact not_recalls_single hH hp hone hrec
    have next : ∀ ls' l u v (h : History cfg), ls' ++ [l] <+: ls → (feed cfg lists (entered ls')).Returns s () u →
        (feed cfg lists (l ++ [0x0d])).Returns u () v → AtPrompt cfg u h → h.lines = remembered cfg ls' →
        Unmistakable (remembered cfg ls') l := by
      intro ls' l u v h hpre hfu hfv hp hm
      have hfv' : (feed cfg lists (entered (ls' ++ [l]))).Returns s () v := by
        rw [entered_concat]
        exact feed_append.mpr ⟨u, hfu, hfv⟩
      exact unmistakable_of_recalls hLH (hls l (hpre.subset (by simp))) hp hm
        (single ls' u h ((List.prefix_append _ _).trans hpre) hfu hp hm) hfv (hall _ v hpre hfv').2
    have mirror : ∀ ls', ls' <+: ls → ∃ u, (feed cfg lists (entered ls')).Returns s () u ∧
        ∃ h : History cfg, AtPrompt cfg u h ∧ h.lines = remembered cfg ls' := by
      intro ls'
      induction ls' using List.reverseRecOn with
      | nil => exact fun _ => ⟨s, returns_pure.mpr ⟨rfl, rfl⟩, _, hinit', rfl⟩
      | append_singleton ls' l ih =>
        intro hpre
        obtain ⟨u, hfu, h, hp, hm⟩ := ih ((List.prefix_append _ _).trans hpre)
        obtain ⟨v, hfv⟩ := feed_next hf hpre hfu
        obtain ⟨h', hp', hm'⟩ := mirror_step hLH (hls l (hpre.subset (by simp))) hp hm (next ls' l u v h hpre hfu hfv hp hm) hfv
        refine ⟨v, ?_, h', hp', hm'⟩
        rw [entered_concat]
        exact feed_append.mpr ⟨u, hfu, hfv⟩
    constructor
    · intro ls' hpre
      obtain ⟨u, hfu, h, hp, hm⟩ := mirror ls' hpre
      exact hm ▸ single ls' u h hpre hfu hp hm
    · intro ls' l hpre
      obtain ⟨u, hfu, h, hp, hm⟩ := mirror ls' ((List.prefix_append _ _).trans hpre)
      obtain ⟨v, hfv⟩ := feed_next hf hpre hfu
      exact next ls' l u v h hpre hfu hfv hp hm
  · rintro ⟨hone, hu⟩ ls' u hpre hfu
    obtain ⟨h, hp, hm⟩ := mirror_run hLH (fun l hl => hls l (hpre.subset hl)) hinit'
      (fun d l hd => hu d l (hd.trans hpre)) hfu
    refine ⟨⟨h, hp.represents, hm⟩, ?_⟩
    rw [← hm]
    exact recalls_of_atPrompt lists hH hp (hm ▸ hone ls' hpre)

theorem history_recall_iff_short : ∃ s t, Reached smallConsole (fun _ => []) none [] s ∧
    (feed smallConsole (fun _ => []) (entered [[0x61, 0x62], [0x63, 0x64, 0x65]])).Returns s () t ∧
    HistoryIs smallConsole (fun _ => []) t [[0x63, 0x64, 0x65], [0x61, 0x62]] := by
  obtain ⟨s, t, hs, hf, -⟩ := @exists_run smallConsole (fun _ => [])
    (entered [[0x61, 0x62], [0x63, 0x64, 0x65]]) none 20 (fun _ => true) (by decide)
  have typed : ∀ l ∈ [[0x61, 0x62], [0x63, 0x64, 0x65]], Typed smallConsole l := by
    simp [Typed, smallConsole]
  have single : ∀ ls' ∈ [[0x61, 0x62], [0x63, 0x64, 0x65]].inits,
      ((remembered smallConsole ls').headD []).length ≠ 1 := by decide
  refine ⟨s, t, hs, hf, (history_recall_iff (by decide) typed hs hf).mpr ⟨?_, ?_⟩ _ t List.prefix_rfl hf⟩
  · intro ls' hpre
    exact single ls' ((List.mem_inits _ _).mpr hpre)
  · rintro ls' l ⟨rest, hls⟩ hsuf
    left
    rcases ls' with _ | ⟨d, _ | ⟨d', ls'⟩⟩
    · exact List.suffix_nil.mp hsuf
    · simp at hls
      obtain ⟨rfl, rfl, -⟩ := hls
      exact absurd hsuf (by decide)
    · simp at hls

/-- A line of one character is not found again, and `ab` is not saved behind `xab`. -/
theorem history_recall_fails :
    (∃ s t, Reached smallConsole (fun _ => []) none [] s ∧
      (feed smallConsole (fun _ => []) (entered [[0x61]])).Returns s () t ∧
      ¬ HistoryIs smallConsole (fun _ => []) t (remembered smallConsole [[0x61]])) ∧
    ∃ s t, Reached smallConsole (fun _ => []) none [] s ∧
      (feed smallConsole (fun _ => []) (entered [[0x78, 0x61, 0x62], [0x61, 0x62]])).Returns s () t ∧
      ¬ HistoryIs smallConsole (fun _ => []) t (remembered smallConsole [[0x78, 0x61, 0x62], [0x61, 0x62]]) := by
  have typed : ∀ l ∈ [[0x61], [0x78, 0x61, 0x62], [0x61, 0x62]], Typed smallConsole l := by
    simp [Typed, smallConsole]
  have first : ∀ (l : List UInt8) ls' l', ls' ++ [l'] <+: [l] → Unmistakable (remembered smallConsole ls') l' := by
    rintro l ls' l' ⟨rest, hls⟩ hsuf
    left
    rcases ls' with _ | ⟨d, ls'⟩
    · exact List.suffix_nil.mp hsuf
    · simp at hls
  constructor
  · obtain ⟨s, t, hs, hf, -⟩ := @exists_run smallConsole (fun _ => []) (entered [[0x61]]) none 20 (fun _ => true) (by decide)
    obtain ⟨h, hp, hm⟩ := mirror_run (by decide) (fun l hl => typed l (by simp at hl; simp [hl]))
      (atPrompt_init (by decide) hs) (first [0x61]) hf
    refine ⟨s, t, hs, hf, fun hall => ?_⟩
    rw [← hm] at hall
    exact not_recalls_single (by decide) hp (hm ▸ by decide) hall.2
  · obtain ⟨s, t, hs, hf, -⟩ := @exists_run smallConsole (fun _ => [])
      (entered [[0x78, 0x61, 0x62], [0x61, 0x62]]) none 20 (fun _ => true) (by decide)
    have hf' := hf
    rw [show entered [[0x78, 0x61, 0x62], [0x61, 0x62]] = entered [[0x78, 0x61, 0x62]] ++ ([0x61, 0x62] ++ [0x0d])
      from rfl] at hf'
    obtain ⟨u, hu, hv⟩ := feed_append.mp hf'
    obtain ⟨h, hp, hm⟩ := mirror_run (by decide) (fun l hl => typed l (by simp at hl; simp [hl]))
      (atPrompt_init (by decide) hs) (first [0x78, 0x61, 0x62]) hu
    refine ⟨s, t, hs, hf, fun hall => ?_⟩
    have hun := unmistakable_of_recalls (by decide) (typed [0x61, 0x62] (by simp)) hp hm (hm ▸ by decide) hv hall.2
    exact absurd (hun (by decide)) (by decide)

end runs

end Lpc1788Libraries.Cli

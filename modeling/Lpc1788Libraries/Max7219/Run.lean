import Lpc1788Libraries.Max7219.Drawn

namespace Lpc1788Libraries.Max7219

open Lpc1788Libraries.Support

namespace Call

def Beyond (n : UInt8) (call : Call) : Prop := ∃ dev, call.target = some dev ∧ n ≤ dev

/-- The devices that a call of a chain of `n` devices is meant for. -/
def For (n : UInt8) (call : Call) (d : ℕ) : Prop := d < n.toNat ∧ ∀ dev, call.target = some dev → d = dev.toNat

/-- A call for a device of the chain draws nothing but what the shadow holds already, and one for
another device is silent. -/
def Allowed (rom : ℕ → UInt8) (n : UInt8) (s : State) (call : Call) : Prop :=
  (call.Beyond n → call.Silent n) ∧ (¬call.Beyond n → ∀ d, call.For n d → ∀ row < 8, ∀ v,
    call.drawn rom row = some v → s.matrix (d * 8 + row) = v)

/-- What is asked of one call: a device number that is not in the chain has no clock edge sent,
and otherwise every new frame has one word a device and a command for the named one only, and
the shadow and the display agree. -/
def Meets (rom : ℕ → UInt8) (n : UInt8) (s : State) (call : Call) : Prop :=
  (call.Beyond n → (call.exec rom s).chain.clocks = s.chain.clocks) ∧ (¬call.Beyond n →
    (∃ new : List Frame, (call.exec rom s).chain.frames = new ++ s.chain.frames ∧
      ∀ f ∈ new, f.Addresses n.toNat (call.For n)) ∧ Shadowed n.toNat (call.exec rom s))

end Call

/-- A property of every call of a run, in the state in which it is made. -/
def Along (rom : ℕ → UInt8) (P : State → Call → Prop) : List Call → State → Prop
  | [], _ => True
  | call :: calls, s => P s call ∧ Along rom P calls (call.exec rom s)

/-- The power-up state of a chain of `n` devices. -/
def State.powerUp (n : UInt8) (c : Chain) : State := ⟨0, fun _ => 0, { c with length := n.toNat }⟩

variable {s s' : State} {reg data dev n : UInt8} {l : List Act} {device address row : ℕ} {p : ℕ → Prop}
  {v : UInt8} {rom : ℕ → UInt8} {call : Call} {calls : List Call}

section keeps

/-- A function with a shadow keeps the display and the shadow together. -/
structure Keeps (dev : UInt8) (s s' : State) : Prop where
  framed : Extends (· = dev.toNat) s s'
  coherent : ∀ n, s.Coherent n → s'.Coherent n

variable {dev row col value digit pos : UInt8} (hw : s.Wired) (hdev : dev.toNat < s.maxDevNumber.toNat)

include hw hdev in
theorem put_keeps (hrow : ¬7 < row) : Keeps dev s (put dev row v s) :=
  ⟨put_extends hw hdev, fun _ hc => put_coherent hw hdev (lt_eight hrow) hc⟩

theorem Keeps.refl (hw : s.Wired) : Keeps dev s s := ⟨.refl hw, fun _ h => h⟩

theorem Keeps.trans {s'' : State} (h : Keeps dev s s') (h' : Keeps dev s' s'') : Keeps dev s s'' :=
  ⟨h.framed.trans h'.framed, fun n hc => h'.coherent n (h.coherent n hc)⟩

include hw hdev in
theorem foldl_keeps {α : Type} {f : State → α → State} (xs : List α)
    (hf : ∀ t : State, t.Wired → dev.toNat < t.maxDevNumber.toNat → ∀ x, Keeps dev t (f t x)) :
    Keeps dev s (xs.foldl f s) := by
  induction xs generalizing s with
  | nil => exact .refl hw
  | cons x xs ih =>
    have hstep := hf s hw hdev x
    exact hstep.trans (ih hstep.framed.wired (hstep.framed.maxDevNumber.symm ▸ hdev))

include hw hdev

theorem setled_keeps {state : Bool} : Keeps dev s (max7219LedmtrxSetled dev row col state s) := by
  rw [max7219LedmtrxSetled, if_neg (not_le_of_lt hdev)]
  split_ifs with h
  · exact .refl hw
  · exact put_keeps hw hdev fun hrow => h (Or.inl hrow)

theorem setrow_keeps : Keeps dev s (max7219LedmtrxSetrow dev row value s) := by
  rw [max7219LedmtrxSetrow, if_neg (not_le_of_lt hdev)]
  split_ifs with h
  · exact .refl hw
  · exact put_keeps hw hdev h

theorem setcol_keeps : Keeps dev s (max7219LedmtrxSetcol dev col value s) := by
  rw [max7219LedmtrxSetcol, if_neg (not_le_of_lt hdev)]
  split_ifs
  · exact .refl hw
  · exact foldl_keeps hw hdev _ fun t ht hdev' x => setled_keeps ht hdev'

theorem printchar_keeps : Keeps dev s (max7219LedmtrxPrintchar dev value s) :=
  foldl_keeps hw hdev _ fun _ ht hdev' _ => setrow_keeps ht hdev'

theorem dispDigit_keeps {dp : Bool} : Keeps dev s (max7219DispDigit rom dev digit value dp s) := by
  rw [max7219DispDigit, if_neg (not_le_of_lt hdev)]
  by_cases h : 7 < digit ∨ 15 < value
  · rw [if_pos h]
    exact .refl hw
  · rw [if_neg h]
    exact put_keeps hw hdev fun hrow => h (Or.inl hrow)

theorem dispChar_keeps {dp : Bool} : Keeps dev s (max7219DispChar rom dev digit value dp s) := by
  rw [max7219DispChar, if_neg (not_le_of_lt hdev)]
  by_cases h : 7 < digit
  · rw [if_pos h]
    exact .refl hw
  · rw [if_neg h]
    exact put_keeps hw hdev h

theorem dispStringRounds_keeps (str : List UInt8) : Keeps dev s (dispStringRounds rom dev pos str s) := by
  induction str generalizing s pos with
  | nil => exact .refl hw
  | cons value str ih =>
    have hstep : Keeps dev s (max7219DispChar rom dev pos value false s) := dispChar_keeps hw hdev
    exact hstep.trans (ih hstep.framed.wired (hstep.framed.maxDevNumber.symm ▸ hdev))

theorem dispString_keeps {str : List UInt8} : Keeps dev s (max7219DispString rom dev pos str s) := by
  rw [max7219DispString, if_neg (not_le_of_lt hdev)]
  split_ifs
  · exact .refl hw
  · exact .refl hw
  · exact dispStringRounds_keeps hw hdev str

end keeps

section step

theorem keeps_of_no_acts (hacts : call.acts rom = none) (ht : call.target = some dev) (hw : s.Wired)
    (hdev : dev.toNat < s.maxDevNumber.toNat) : Keeps dev s (call.exec rom s) := by
  cases call <;> simp only [Call.acts, Call.target, Option.some.injEq, reduceCtorEq] at hacts ht <;> subst ht
  case dispDigit => exact dispDigit_keeps hw hdev
  case dispChar => exact dispChar_keeps hw hdev
  case dispString => exact dispString_keeps hw hdev
  case ledmtrxSetcol => exact setcol_keeps hw hdev
  case ledmtrxSetrow => exact setrow_keeps hw hdev
  case ledmtrxSetled => exact setled_keeps hw hdev
  case ledmtrxPrintchar => exact printchar_keeps hw hdev

theorem exec_of_no_acts (hacts : call.acts rom = none) (ht : call.target = some dev) (hdev : s.maxDevNumber ≤ dev) :
    call.exec rom s = s := by
  cases call <;> simp only [Call.acts, Call.target, Option.some.injEq, reduceCtorEq] at hacts ht <;> subst ht
  case ledmtrxPrintchar =>
    have hrow : ∀ row value, max7219LedmtrxSetrow _ row value s = s := fun _ _ => if_pos hdev
    simp only [Call.exec, max7219LedmtrxPrintchar, List.foldl_cons, List.foldl_nil, hrow]
  all_goals exact if_pos hdev

theorem drawn_of_no_acts (hacts : call.acts rom = none) (ht : call.target = some dev) :
    call.drawn rom row = none ∧ call.Silent n := by
  cases call <;> simp only [Call.acts, Call.target, reduceCtorEq] at hacts ht <;> exact ⟨rfl, trivial⟩

theorem beyond_iff (hmax : s.maxDevNumber = n) (ht : call.target = some dev) (hn : n ≤ dev) :
    (call.exec rom s).chain.clocks = s.chain.clocks ↔ call.Silent n := by
  cases hacts : call.acts rom with
  | none =>
    rw [exec_of_no_acts hacts ht (hmax ▸ hn)]
    exact ⟨fun _ => (@drawn_of_no_acts dev n 0 rom call hacts ht).2, fun _ => rfl⟩
  | some l => rw [exec_of_acts hacts, perform_clocks, hmax, idle_acts_iff hacts ht hn]

theorem exec_of_silent (hmax : s.maxDevNumber = n) (ht : call.target = some dev) (hn : n ≤ dev)
    (hsilent : call.Silent n) : call.exec rom s = s := by
  cases hacts : call.acts rom with
  | none => exact exec_of_no_acts hacts ht (hmax ▸ hn)
  | some l =>
    rw [exec_of_acts hacts]
    apply perform_idle
    rw [hmax]
    exact (idle_acts_iff hacts ht hn).mpr hsilent

theorem Extends.mono (h : Extends p s s') {q : ℕ → Prop} (hpq : ∀ d, p d → q d) : Extends q s s' := by
  obtain ⟨new, hnew, hgood⟩ := h.frames
  refine ⟨h.wired, h.maxDevNumber, new, hnew, fun f hf => ?_⟩
  obtain ⟨hclocks, d, hd, hexecuted⟩ := hgood f hf
  exact ⟨hclocks, d, hpq d hd, hexecuted⟩

theorem lt_of_not_beyond (ht : call.target = some dev) (hb : ¬call.Beyond n) : dev.toNat < n.toNat := by
  by_contra hge
  exact hb ⟨dev, ht, UInt8.le_iff_toNat_le.mpr (Nat.le_of_not_lt hge)⟩

theorem for_target (ht : call.target = some dev) (hdev : dev.toNat < n.toNat) : call.For n dev.toNat :=
  ⟨hdev, fun _ hd => congrArg UInt8.toNat (Option.some.inj (ht.symm.trans hd))⟩

theorem for_no_target (ht : call.target = none) {d : ℕ} (hd : d < n.toNat) : call.For n d := by
  refine ⟨hd, fun dev hdev => ?_⟩
  rw [ht] at hdev
  exact absurd hdev (Option.some_ne_none dev).symm

theorem init_eq {a b c : UInt8} (hw : s.Wired) (hmax : s.maxDevNumber = n) :
    (Call.init a b c).exec rom s = perform (initDevices a b c n) s := by
  rw [Call.exec, max7219Init, Chain.deselect, hw.selected, ← hmax]
  rfl

theorem exec_framed (hw : s.Wired) (hmax : s.maxDevNumber = n) (hb : ¬call.Beyond n) :
    Extends (call.For n) s (call.exec rom s) := by
  cases ht : call.target with
  | none =>
    cases call <;> simp only [Call.target, reduceCtorEq] at ht
    rw [init_eq hw hmax]
    refine (perform_extends hw initDevices_to (fun _ hd => ?_)).mono fun _ hd => for_no_target rfl hd
    rwa [hmax]
  | some dev =>
    have hdev := lt_of_not_beyond ht hb
    have hfor : ∀ d, d = dev.toNat → call.For n d := by
      rintro d rfl
      exact for_target ht hdev
    subst hmax
    cases hacts : call.acts rom with
    | none => exact (keeps_of_no_acts hacts ht hw hdev).framed.mono hfor
    | some l =>
      rw [exec_of_acts hacts]
      refine (perform_extends hw (acts_to hacts ht) ?_).mono hfor
      rintro d rfl
      exact hdev

theorem exec_coherent_iff (hw : s.Wired) (hmax : s.maxDevNumber = n) (hb : ¬call.Beyond n) (hc : s.Coherent n.toNat) :
    (call.exec rom s).Coherent n.toNat ↔ ∀ d, call.For n d → ∀ row < 8, ∀ v,
      call.drawn rom row = some v → s.matrix (d * 8 + row) = v := by
  cases ht : call.target with
  | none =>
    cases call <;> simp only [Call.target, reduceCtorEq] at ht
    rename_i a b c
    have hreg : ∀ d < n.toNat, ∀ r < 8, ((Call.init a b c).exec rom s).chain.reg d (r + 1) = 0 := by
      intro d hd r hr
      rw [Call.exec, hmax]
      exact init_reg (hmax ▸ hw.length) hd hr
    have hmatrix : ((Call.init a b c).exec rom s).matrix = s.matrix := by
      rw [init_eq hw hmax, perform_matrix]
    constructor
    · intro h d hd row hrow v hv
      cases hv
      rw [← hmatrix, h d hd.1 row hrow, hreg d hd.1 row hrow]
    · intro h d hd r hr
      rw [hmatrix, hreg d hd r hr]
      exact h d (for_no_target rfl hd) r hr 0 rfl
  | some dev =>
    have hdev := lt_of_not_beyond ht hb
    subst hmax
    cases hacts : call.acts rom with
    | none =>
      constructor
      · intro _ d _ row _ v hv
        rw [(@drawn_of_no_acts dev 0 row rom call hacts ht).1] at hv
        exact absurd hv (Option.some_ne_none v).symm
      · exact fun _ => (keeps_of_no_acts hacts ht hw hdev).coherent _ hc
    | some l =>
      have hmatrix : (call.exec rom s).matrix = s.matrix := by rw [exec_of_acts hacts, perform_matrix]
      have hreg : ∀ d r, (call.exec rom s).chain.reg d (r + 1) =
          (lastSent d (r + 1) l).getD (s.chain.reg d (r + 1)) := by
        intro d r
        rw [exec_of_acts hacts, perform_reg hw (acts_to hacts ht) (by rintro d rfl; exact hdev) (Nat.succ_ne_zero r)]
      constructor
      · intro h d hd row hrow v hv
        have hcell := h d hd.1 row hrow
        rwa [hmatrix, hreg, hd.2 dev ht, lastSent_acts hacts ht hrow, hv, Option.getD_some, ← hd.2 dev ht] at hcell
      · intro h d hd r hr
        rw [hmatrix, hreg]
        by_cases heq : d = dev.toNat
        · rw [heq, lastSent_acts hacts ht hr]
          cases hv : call.drawn rom r with
          | none => exact hc _ hdev r hr
          | some v => exact h _ (for_target ht hdev) r hr v hv
        · rw [lastSent_of_to (acts_to hacts ht) heq]
          exact hc d hd r hr

theorem meets_iff (hw : s.Wired) (hmax : s.maxDevNumber = n) (hn : n.toNat ≤ 8) (hc : s.Coherent n.toNat) :
    call.Meets rom n s ↔ call.Allowed rom n s := by
  apply and_congr
  · apply forall_congr'
    rintro ⟨dev, ht, hle⟩
    exact beyond_iff hmax ht hle
  · apply forall_congr'
    intro hb
    have hframed := @exec_framed s n rom call hw hmax hb
    have hmax' : (call.exec rom s).maxDevNumber = n := hframed.maxDevNumber.trans hmax
    have hshadowed : Shadowed n.toNat (call.exec rom s) ↔ (call.exec rom s).Coherent n.toNat := by
      have h := @shadowed_iff (call.exec rom s) hframed.wired
      rw [hmax'] at h
      exact h hn
    rw [hshadowed, exec_coherent_iff hw hmax hb hc]
    exact and_iff_right (hmax ▸ hframed.frames)

theorem allowed_step (hw : s.Wired) (hmax : s.maxDevNumber = n) (hc : s.Coherent n.toNat) (h : call.Allowed rom n s) :
    (call.exec rom s).Wired ∧ (call.exec rom s).maxDevNumber = n ∧ (call.exec rom s).Coherent n.toNat := by
  by_cases hb : call.Beyond n
  · obtain ⟨dev, ht, hle⟩ := id hb
    rw [exec_of_silent hmax ht hle (h.1 hb)]
    exact ⟨hw, hmax, hc⟩
  · have hframed := @exec_framed s n rom call hw hmax hb
    exact ⟨hframed.wired, hframed.maxDevNumber.trans hmax, (exec_coherent_iff hw hmax hb hc).mpr (h.2 hb)⟩

theorem along_iff (hw : s.Wired) (hmax : s.maxDevNumber = n) (hn : n.toNat ≤ 8) (hc : s.Coherent n.toNat) :
    Along rom (fun s call => call.Meets rom n s) calls s ↔ Along rom (fun s call => call.Allowed rom n s) calls s := by
  induction calls generalizing s with
  | nil => exact Iff.rfl
  | cons call calls ih =>
    rw [Along, Along, meets_iff hw hmax hn hc]
    apply and_congr_right
    intro hallowed
    obtain ⟨hw', hmax', hc'⟩ := allowed_step hw hmax hc hallowed
    exact ih hw' hmax' hc'

/-- The state after the initialisation of a chain of `n` devices. -/
def initialised (n digits intensity decode : UInt8) (c : Chain) : State :=
  max7219Init digits intensity decode n (.powerUp n c)

theorem initialised_wired {digits intensity decode : UInt8} {c : Chain} : (initialised n digits intensity decode c).Wired :=
  init_wired rfl

theorem initialised_maxDevNumber {digits intensity decode : UInt8} {c : Chain} :
    (initialised n digits intensity decode c).maxDevNumber = n := by
  rw [initialised, max7219Init, perform_maxDevNumber]

theorem initialised_matrix {digits intensity decode : UInt8} {c : Chain} (i : ℕ) :
    (initialised n digits intensity decode c).matrix i = 0 := by
  rw [initialised, max7219Init, perform_matrix]
  rfl

theorem initialised_coherent {digits intensity decode : UInt8} {c : Chain} :
    (initialised n digits intensity decode c).Coherent n.toNat := by
  intro d hd r hr
  rw [initialised_matrix]
  exact (init_reg rfl hd hr).symm

/-- From the initialisation on, a chain does what is asked of it exactly when `matrix` has a
cell for every digit, no call names the device behind the last one and draws there, and the
functions without a shadow draw what is there. -/
theorem max7219_run_iff (rom : ℕ → UInt8) (n digits intensity decode : UInt8) (c : Chain) (calls : List Call) :
    Shadowed n.toNat (initialised n digits intensity decode c) ∧
      Along rom (fun s call => call.Meets rom n s) calls (initialised n digits intensity decode c) ↔
    n.toNat ≤ 8 ∧
      Along rom (fun s call => call.Allowed rom n s) calls (initialised n digits intensity decode c) := by
  have hw : (initialised n digits intensity decode c).Wired := initialised_wired
  have hmax : (initialised n digits intensity decode c).maxDevNumber = n := initialised_maxDevNumber
  have hc : (initialised n digits intensity decode c).Coherent n.toNat := initialised_coherent
  constructor
  · rintro ⟨hs, hcalls⟩
    have hn : n.toNat ≤ 8 := by
      by_contra hgt
      have hcell := (hs.cell 8 (by omega) 0 (by omega)).1
      omega
    exact ⟨hn, (along_iff hw hmax hn hc).mp hcalls⟩
  · rintro ⟨hn, hcalls⟩
    have h := @shadowed_iff _ hw
    rw [hmax] at h
    exact ⟨(h hn).mpr hc, (along_iff hw hmax hn hc).mpr hcalls⟩

/-- One device, and a raw pattern on its first digit: the shadow still says that it is dark. -/
theorem max7219_dispRaw_not_shadowed : ¬Along (fun _ => 0) (fun s call => call.Meets (fun _ => 0) 1 s)
    [.dispRaw 0 0 0xff] (initialised 1 7 8 0 ⟨1, false, fun _ => false, 0, 0, [], fun _ _ => 0⟩) := by
  rintro ⟨hmeets, -⟩
  rw [meets_iff initialised_wired initialised_maxDevNumber (by decide) initialised_coherent] at hmeets
  have hb : ¬(Call.dispRaw 0 0 0xff).Beyond 1 := by
    rintro ⟨dev, hdev, hle⟩
    cases hdev
    exact absurd hle (by decide)
  have hcell := hmeets.2 hb 0 ⟨Nat.zero_lt_one, fun dev hdev => by cases hdev; rfl⟩ 0 (by omega) 0xff rfl
  rw [initialised_matrix] at hcell
  exact absurd hcell (by decide)

end step

end Lpc1788Libraries.Max7219

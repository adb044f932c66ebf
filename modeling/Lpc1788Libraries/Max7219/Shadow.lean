import Lpc1788Libraries.Max7219.Frames
import Lpc1788Libraries.Max7219.Calls
import Lpc1788Libraries.Support.ByteBits

namespace Lpc1788Libraries.Max7219

open Lpc1788Libraries.Support

variable {s s' s'' : State} {reg data dev n : UInt8} {acts acts' : List Act} {device address row : ℕ} {p q : ℕ → Prop}
  {v : UInt8} {rom : ℕ → UInt8}

/-- What leads from `s` to `s'` kept the chain wired and sent frames to devices in `p` only. -/
structure Extends (p : ℕ → Prop) (s s' : State) : Prop where
  wired : s'.Wired
  maxDevNumber : s'.maxDevNumber = s.maxDevNumber
  frames : ∃ new : List Frame, s'.chain.frames = new ++ s.chain.frames ∧
    ∀ f ∈ new, f.Addresses s.maxDevNumber.toNat p

namespace Extends

theorem refl (hw : s.Wired) : Extends p s s := ⟨hw, rfl, [], rfl, fun _ hf => absurd hf List.not_mem_nil⟩

theorem trans (h : Extends p s s') (h' : Extends p s' s'') : Extends p s s'' := by
  obtain ⟨new, hnew, hgood⟩ := h.frames
  obtain ⟨new', hnew', hgood'⟩ := h'.frames
  refine ⟨h'.wired, h'.maxDevNumber.trans h.maxDevNumber, new' ++ new, ?_, ?_⟩
  · rw [hnew', hnew, List.append_assoc]
  · intro f hf
    rcases List.mem_append.mp hf with hf | hf
    · rw [← h.maxDevNumber]
      exact hgood' f hf
    · exact hgood f hf

theorem sendData (hw : s.Wired) (hdev : dev.toNat < s.maxDevNumber.toNat) (hp : p dev.toNat) :
    Extends p s (sendData reg data dev s) := by
  obtain ⟨f, hf, hframes⟩ := @sendData_frames s reg data dev hw hdev
  refine ⟨sendData_wired hw, sendData_maxDevNumber, [f], hframes, ?_⟩
  intro g hg
  obtain ⟨hclocks, d, rfl, hd⟩ := hf
  rw [List.mem_singleton.mp hg]
  exact ⟨hclocks, dev.toNat, hp, hd⟩

end Extends

def Act.To (p : ℕ → Prop) : Act → Prop
  | .send _ _ dev => p dev.toNat
  | .writeShort _ => True

/-- What an act leaves in a register. -/
def Act.sent (device address : ℕ) : Act → Option UInt8
  | .send reg data dev => if device = dev.toNat ∧ reg.toNat % 16 = address then some data else none
  | .writeShort _ => none

def lastSent (device address : ℕ) : List Act → Option UInt8
  | [] => none
  | a :: acts => (lastSent device address acts).or (a.sent device address)

theorem lastSent_append : lastSent device address (acts ++ acts') =
    (lastSent device address acts').or (lastSent device address acts) := by
  induction acts with
  | nil => rw [List.nil_append, lastSent, Option.or_none]
  | cons a acts ih => rw [List.cons_append, lastSent, ih, lastSent, Option.or_assoc]

theorem lastSent_eq_none (h : ∀ a ∈ acts, a.sent device address = none) : lastSent device address acts = none := by
  induction acts with
  | nil => rfl
  | cons a acts ih =>
    rw [lastSent, ih (fun b hb => h b (List.mem_cons_of_mem a hb)), h a List.mem_cons_self]
    rfl

theorem lastSent_eq_some (h : ∀ a ∈ acts, a.sent device address = none ∨ a.sent device address = some v)
    (hex : ∃ a ∈ acts, a.sent device address = some v) : lastSent device address acts = some v := by
  induction acts with
  | nil =>
    obtain ⟨a, ha, -⟩ := hex
    exact absurd ha List.not_mem_nil
  | cons a acts ih =>
    have htail := fun b hb => h b (List.mem_cons_of_mem a hb)
    rw [lastSent]
    by_cases hlater : ∃ b ∈ acts, b.sent device address = some v
    · rw [ih htail hlater]
      rfl
    · have hnone : lastSent device address acts = none := by
        apply lastSent_eq_none
        intro b hb
        exact (htail b hb).resolve_right fun hv => hlater ⟨b, hb, hv⟩
      obtain ⟨b, hb, hv⟩ := hex
      rcases List.mem_cons.mp hb with rfl | hb
      · rw [hnone, hv]
        rfl
      · exact absurd ⟨b, hb, hv⟩ hlater

theorem writeShort_extends (hw : s.Wired) (w : ℕ) : Extends p s { s with chain := writeShort w s.chain } := by
  refine ⟨?_, rfl, [], ?_, fun _ hf => absurd hf List.not_mem_nil⟩
  · rw [writeShort_eq, Chain.clockIn_eq]
    exact ⟨hw.length, hw.selected⟩
  · rw [writeShort_eq, Chain.clockIn_eq]
    rfl

theorem perform_extends (hw : s.Wired) (hacts : ∀ a ∈ acts, a.To p) (hp : ∀ d, p d → d < s.maxDevNumber.toNat) :
    Extends p s (perform acts s) := by
  induction acts generalizing s with
  | nil => exact .refl hw
  | cons a acts ih =>
    have hstep : Extends p s (a.perform s) := by
      cases a with
      | send reg data dev =>
        have hdev := hacts _ List.mem_cons_self
        exact .sendData hw (hp _ hdev) hdev
      | writeShort w => exact writeShort_extends hw w
    refine hstep.trans (ih hstep.wired (fun b hb => hacts b (List.mem_cons_of_mem a hb)) ?_)
    rwa [hstep.maxDevNumber]

theorem perform_matrix : (perform acts s).matrix = s.matrix := by
  induction acts generalizing s with
  | nil => rfl
  | cons a acts ih =>
    change (perform acts (a.perform s)).matrix = _
    rw [ih]
    cases a with
    | send reg data dev => exact sendData_matrix
    | writeShort w => rw [Act.perform]

theorem perform_reg (hw : s.Wired) (hacts : ∀ a ∈ acts, a.To p) (hp : ∀ d, p d → d < s.maxDevNumber.toNat)
    (hne : address ≠ 0) : (perform acts s).chain.reg device address =
      (lastSent device address acts).getD (s.chain.reg device address) := by
  induction acts generalizing s with
  | nil => rfl
  | cons a acts ih =>
    change (perform acts (a.perform s)).chain.reg device address = _
    have htail := fun b hb => hacts b (List.mem_cons_of_mem a hb)
    have hor : ∀ (x y : Option UInt8) z, (x.or y).getD z = x.getD (y.getD z) := by
      intro x y z
      cases x <;> rfl
    rw [lastSent, hor]
    cases a with
    | send reg data dev =>
      have hdev := hp _ (hacts _ List.mem_cons_self)
      have hp' : ∀ d, p d → d < (sendData reg data dev s).maxDevNumber.toNat := by rwa [sendData_maxDevNumber]
      rw [Act.perform, ih (sendData_wired hw) htail hp', sendData_reg hw hdev, Act.sent]
      congr 1
      by_cases h : device = dev.toNat ∧ reg.toNat % 16 = address
      · rw [if_pos ⟨h.1, hne, h.2⟩, if_pos h]
        rfl
      · rw [if_neg (fun h' => h ⟨h'.1, h'.2.2⟩), if_neg h]
        rfl
    | writeShort w =>
      have hstep : Extends p s { s with chain := writeShort w s.chain } := writeShort_extends hw w
      rw [Act.perform, ih hstep.wired htail hp, Act.sent, Option.getD_none, writeShort_eq, Chain.clockIn_eq]

/-- The light at a row and a column of a device. -/
def State.led (s : State) (device row col : ℕ) : Bool := (s.chain.reg device (row + 1)).toNat.testBit (7 - col)

/-- The shadow holds what the digit registers of the first `n` devices hold. -/
def State.Coherent (n : ℕ) (s : State) : Prop :=
  ∀ d < n, ∀ r < 8, s.matrix (d * 8 + r) = s.chain.reg d (r + 1)

/-- Every digit register has its cell of `matrix`, and a light is switched alone. -/
structure Shadowed (n : ℕ) (s : State) : Prop where
  cell : ∀ d < n, ∀ r < 8, d * 8 + r < 64 ∧ s.matrix (d * 8 + r) = s.chain.reg d (r + 1)
  led : ∀ (dev row col : UInt8) (state : Bool), dev.toNat < n → row.toNat < 8 → col.toNat < 8 →
    ∀ d < n, ∀ r < 8, ∀ c < 8, (max7219LedmtrxSetled dev row col state s).led d r c =
      if d = dev.toNat ∧ r = row.toNat ∧ c = col.toNat then state else s.led d r c

section put

variable {row col : UInt8} {state : Bool}

/-- The write to the shadow and to the device that the functions with a shadow end in. -/
def put (dev row v : UInt8) (s : State) : State :=
  sendData (row + 1) v dev (setMatrix (dev.toNat * 8 + row.toNat) v s)

theorem put_extends (hw : s.Wired) (hdev : dev.toNat < s.maxDevNumber.toNat) : Extends (· = dev.toNat) s (put dev row v s) := by
  have h : Extends (· = dev.toNat) (setMatrix (dev.toNat * 8 + row.toNat) v s) (put dev row v s) :=
    .sendData ⟨hw.length, hw.selected⟩ hdev rfl
  exact ⟨h.wired, h.maxDevNumber, h.frames⟩

theorem succ_row (hrow : row.toNat < 8) : (row + 1).toNat = row.toNat + 1 := by
  rw [UInt8.toNat_add]
  exact Nat.mod_eq_of_lt (by change row.toNat + 1 < 256; omega)

theorem put_reg (hw : s.Wired) (hdev : dev.toNat < s.maxDevNumber.toNat) (hrow : row.toNat < 8) {d r : ℕ} (hr : r < 8) :
    (put dev row v s).chain.reg d (r + 1) =
      if d = dev.toNat ∧ r = row.toNat then v else s.chain.reg d (r + 1) := by
  have hw' : (setMatrix (dev.toNat * 8 + row.toNat) v s).Wired := ⟨hw.length, hw.selected⟩
  rw [put, sendData_reg hw' hdev, succ_row hrow]
  by_cases h : d = dev.toNat ∧ r = row.toNat
  · rw [if_pos h, if_pos ⟨h.1, Nat.succ_ne_zero r, by omega⟩]
  · rw [if_neg h, if_neg (fun h' => h ⟨h'.1, by omega⟩)]
    rfl

theorem put_coherent (hw : s.Wired) (hdev : dev.toNat < s.maxDevNumber.toNat) (hrow : row.toNat < 8) {n : ℕ}
    (hc : s.Coherent n) : (put dev row v s).Coherent n := by
  intro d hd r hr
  rw [put_reg hw hdev hrow hr, put, sendData_matrix]
  change Function.update s.matrix _ v _ = _
  by_cases h : d = dev.toNat ∧ r = row.toNat
  · rw [if_pos h, h.1, h.2, Function.update_self]
  · rw [if_neg h, Function.update_of_ne (by omega)]
    exact hc d hd r hr

theorem le_seven (hrow : row.toNat < 8) : ¬7 < row := by
  intro h
  have h' := UInt8.lt_iff_toNat_lt.mp h
  change 7 < row.toNat at h'
  omega

theorem lt_eight (h : ¬7 < row) : row.toNat < 8 := by
  by_contra hge
  apply h
  rw [UInt8.lt_iff_toNat_lt]
  change 7 < row.toNat
  omega

theorem not_le_of_lt (hdev : dev.toNat < s.maxDevNumber.toNat) : ¬s.maxDevNumber ≤ dev := fun h =>
  absurd (UInt8.le_iff_toNat_le.mp h) (Nat.not_le_of_lt hdev)

theorem setled_eq (hdev : dev.toNat < s.maxDevNumber.toNat) (hrow : row.toNat < 8) (hcol : col.toNat < 8) :
    max7219LedmtrxSetled dev row col state s =
      put dev row (switchLed (s.matrix (dev.toNat * 8 + row.toNat)) col state) s := by
  rw [max7219LedmtrxSetled, if_neg (not_le_of_lt hdev), if_neg (not_or_intro (le_seven hrow) (le_seven hcol))]
  rfl

theorem ledMask (hcol : col.toNat < 8) : ((0x80 : UInt8) >>> col).toNat = 2 ^ (7 - col.toNat) := by
  rw [UInt8.toNat_shiftRight, Nat.mod_eq_of_lt hcol]
  change 2 ^ 7 >>> col.toNat = _
  rw [Nat.shiftRight_eq_div_pow, Nat.pow_div (by omega) (by omega)]

theorem switchLed_testBit {old : UInt8} (hcol : col.toNat < 8) {c : ℕ} (hc : c < 8) :
    (switchLed old col state).toNat.testBit (7 - c) =
      if c = col.toNat then state else old.toNat.testBit (7 - c) := by
  have hplace : 7 - c = 7 - col.toNat ↔ c = col.toNat := by omega
  cases state with
  | true =>
    change (old ||| _).toNat.testBit _ = _
    simp only [ByteBits.testBit_or_pow (ledMask hcol), hplace]
  | false =>
    change (old &&& ~~~_).toNat.testBit _ = _
    simp only [ByteBits.testBit_and_not_pow (ledMask hcol) (show 7 - c < 8 by omega), hplace]

theorem setled_led (hw : s.Wired) (hc : s.Coherent s.maxDevNumber.toNat) (hdev : dev.toNat < s.maxDevNumber.toNat)
    (hrow : row.toNat < 8) (hcol : col.toNat < 8) {d r c : ℕ} (hr : r < 8) (hc' : c < 8) :
    (max7219LedmtrxSetled dev row col state s).led d r c =
      if d = dev.toNat ∧ r = row.toNat ∧ c = col.toNat then state else s.led d r c := by
  rw [setled_eq hdev hrow hcol, State.led, put_reg hw hdev hrow hr, State.led]
  by_cases h : d = dev.toNat ∧ r = row.toNat
  · obtain ⟨rfl, rfl⟩ := h
    rw [if_pos ⟨rfl, rfl⟩, switchLed_testBit hcol hc', hc _ hdev _ hrow]
    simp only [true_and]
  · rw [if_neg h, if_neg (fun h' => h ⟨h'.1, h'.2.1⟩)]

theorem shadowed_iff (hw : s.Wired) (hn : s.maxDevNumber.toNat ≤ 8) :
    Shadowed s.maxDevNumber.toNat s ↔ s.Coherent s.maxDevNumber.toNat := by
  constructor
  · intro h d hd r hr
    exact (h.cell d hd r hr).2
  · intro h
    constructor
    · intro d hd r hr
      exact ⟨by omega, h d hd r hr⟩
    · intro dev row col state hdev hrow hcol d _ r hr c hc
      exact setled_led hw h hdev hrow hcol hr hc

end put

end Lpc1788Libraries.Max7219

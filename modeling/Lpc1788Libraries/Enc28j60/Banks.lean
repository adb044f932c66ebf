import Lpc1788Libraries.Enc28j60.Bus
import Lpc1788Libraries.Enc28j60.Registers

namespace Lpc1788Libraries.Enc28j60

open Lpc1788Libraries.Support

variable {hw : Hardware} {polls : ℕ} {a d e β : UInt8}

section bits

theorem bankOf_zero : bankOf 0 = 0 := by decide

theorem bankOf_set (hd : bankOf d = 0) : bankOf (e ||| d) = bankOf e := by
  rw [bankOf_or, hd, UInt8.or_zero]

theorem bankOf_clear (hd : ~~~d &&& (econ1Bsel1 ||| econ1Bsel0) = econ1Bsel1 ||| econ1Bsel0) :
    bankOf (e &&& ~~~d) = bankOf e := by
  rw [bankOf, UInt8.and_assoc, hd]
  rfl

theorem select_ne_econ1 {c : Chip} (ha : a &&& addrMask ≠ econ1) : c.select (a &&& addrMask) ≠ econ1 := by
  have hidem : a &&& addrMask &&& addrMask = a &&& addrMask := by
    rw [UInt8.and_assoc]
    rfl
  have hbits : ∀ e : UInt8, bankOf e &&& addrMask = 0 := by
    intro e
    rw [bankOf, UInt8.shiftLeft_and, UInt8.and_assoc]
    exact UInt8.and_zero
  simp only [Chip.select, hidem]
  split_ifs
  · exact ha
  · intro heq
    have hmask := congrArg (· &&& addrMask) heq
    simp only [or_and_mask, hbits, hidem, UInt8.zero_or] at hmask
    exact ha hmask

theorem select_econ1 (c : Chip) : c.select (econ1 &&& addrMask) = econ1 := by
  unfold Chip.select
  exact if_pos (by decide)

end bits

section chip

variable {c : Chip} {op : WriteCommand}

theorem set_econ1_of_ne {r : UInt8} (hr : r ≠ econ1) : (c.set r d).econ1 = c.econ1 := by
  rw [Chip.set, if_neg hr]

theorem write_econ1_of_ne (ha : a &&& addrMask ≠ econ1) : (c.write op (a &&& addrMask) d).econ1 = c.econ1 := by
  have hr := select_ne_econ1 (c := c) ha
  cases op with
  | writeCtrlReg => exact set_econ1_of_ne hr
  | bitFieldSet =>
    rw [Chip.write]
    split_ifs
    · exact set_econ1_of_ne hr
    · exact set_econ1_of_ne hr
  | bitFieldClr => exact set_econ1_of_ne hr

theorem write_econ1_self : (c.write .writeCtrlReg (a &&& addrMask) d).econ1 =
    if a &&& addrMask = econ1 then d else c.econ1 := by
  by_cases ha : a &&& addrMask = econ1
  · have hselect : c.select (a &&& addrMask) = econ1 := by
      rw [ha]
      exact select_econ1 c
    rw [if_pos ha, Chip.write, hselect]
    rfl
  · rw [if_neg ha, write_econ1_of_ne ha]

theorem write_econ1_set : (c.write .bitFieldSet (econ1 &&& addrMask) d).econ1 = c.econ1 ||| d := by
  have hne : ¬(econ1 = econ2 ∧ d &&& econ2Pktdec ≠ 0) := fun h => absurd h.1 (by decide)
  simp only [Chip.write, select_econ1, if_neg hne]
  rfl

theorem write_econ1_clear : (c.write .bitFieldClr (econ1 &&& addrMask) d).econ1 = c.econ1 &&& ~~~d := by
  rw [Chip.write, select_econ1]
  rfl

end chip

namespace Bus

theorem right_econ1 : Access.Right ⟨econ1, β⟩ := by
  have hlow : ¬econ1 &&& addrMask < 0x1b := by decide
  exact fun h => absurd h hlow

/-- Every register command so far was right. -/
def Logged (b : Bus) : Prop := ∀ x ∈ b.accesses, x.Right

/-- Besides, the driver knows the bank. -/
def Coherent (b : Bus) : Prop := b.Logged ∧ bankOf b.enc.chip.econ1 = b.enc.enc28j60Bank

def At (β : UInt8) (b : Bus) : Prop := b.Coherent ∧ b.enc.enc28j60Bank = β

/-- The driver is not wrong about the bank if it thinks that it is the one of the address. -/
def Ready (a : UInt8) (b : Bus) : Prop :=
  b.Logged ∧ (a &&& bankMask = b.enc.enc28j60Bank → bankOf b.enc.chip.econ1 = b.enc.enc28j60Bank)

abbrev Ensures {α : Type} := Waiting.Ensures (α := α) Logged

theorem At.coherent {b : Bus} (h : b.At β) : b.Coherent := h.1

theorem Coherent.ready {b : Bus} (h : b.Coherent) : b.Ready a := ⟨h.1, fun _ => h.2⟩

theorem Coherent.logged {b : Bus} (h : b.Coherent) : b.Logged := h.1

section commands

variable {α : Type} {f : Enc → Enc × α} {register : Option UInt8} {P : Bus → Prop} {Q : α → Bus → Prop}

theorem command_ensures (hlog : ∀ b, P b → b.Logged)
    (hright : ∀ b, P b → ∀ a, register = some a → Access.Right ⟨a, bankOf b.enc.chip.econ1⟩)
    (hQ : ∀ b, P b → ∀ t : Bus, t.Logged → t.enc.enc28j60Bank = (f b.enc).1.enc28j60Bank →
      bankOf t.enc.chip.econ1 = bankOf (f b.enc).1.chip.econ1 → Q (f b.enc).2 t) :
    Ensures P (command hw f register) Q := by
  intro b hb
  have hlogged : ((command hw f register) b).2.Logged := by
    intro x hx
    rcases List.mem_append.mp hx with hx | hx
    · cases register with
      | none => exact absurd hx List.not_mem_nil
      | some a =>
        rw [List.mem_singleton.mp hx]
        exact hright b hb a rfl
    · exact hlog b hb x hx
  refine ⟨hlogged, fun x hx => ?_⟩
  cases hx
  exact hQ b hb _ hlogged rfl (hw.bank _ _)

theorem quiet_ensures (hf : ∀ s, (f s).1.enc28j60Bank = s.enc28j60Bank ∧ (f s).1.chip.econ1 = s.chip.econ1) :
    Ensures (At β) (command hw f none) fun _ => At β := by
  apply command_ensures
  · exact fun b hb => hb.1.1
  · exact fun _ _ _ h => absurd h (Option.some_ne_none _).symm
  · rintro b ⟨⟨-, hbank⟩, rfl⟩ t hlogged hdriver hchip
    rw [(hf b.enc).1] at hdriver
    rw [(hf b.enc).2, hbank] at hchip
    exact ⟨⟨hlogged, hchip.trans hdriver.symm⟩, hdriver⟩

end commands

theorem readCtrlReg_ensures (h : a &&& addrMask < 0x1b → β = a &&& bankMask) :
    Ensures (At β) (readCtrlReg hw a) fun _ => At β := by
  apply command_ensures
  · exact fun b hb => hb.1.1
  · rintro b ⟨⟨-, hbank⟩, rfl⟩ _ hsome hlow
    cases hsome
    exact hbank.trans (h hlow)
  · rintro b ⟨⟨-, hbank⟩, rfl⟩ t hlogged hdriver hchip
    exact ⟨⟨hlogged, hchip.trans (hbank.trans hdriver.symm)⟩, hdriver⟩

theorem readBufMem_ensures : Ensures (At β) (readBufMem hw) fun _ => At β := quiet_ensures fun _ => ⟨rfl, rfl⟩

theorem writeOp_ensures {op : WriteCommand} (h : a &&& addrMask < 0x1b → β = a &&& bankMask)
    (hkeep : ∀ c : Chip, bankOf (c.write op (a &&& addrMask) d).econ1 = bankOf c.econ1) :
    Ensures (At β) (enc28j60WriteOp hw op a d) fun _ => At β := by
  apply command_ensures
  · exact fun b hb => hb.1.1
  · rintro b ⟨⟨-, hbank⟩, rfl⟩ _ hsome hlow
    cases hsome
    exact hbank.trans (h hlow)
  · rintro b ⟨⟨-, hbank⟩, rfl⟩ t hlogged hdriver hchip
    have hkept : bankOf t.enc.chip.econ1 = bankOf b.enc.chip.econ1 := hchip.trans (hkeep b.enc.chip)
    exact ⟨⟨hlogged, hkept.trans (hbank.trans hdriver.symm)⟩, hdriver⟩

theorem setBank_ensures : Ensures (Ready a) (enc28j60SetBank hw a) fun _ => At (a &&& bankMask) := by
  apply Waiting.ensures_get_bind
  rintro s ⟨hlogged, hready⟩
  apply Waiting.ensures_ite
  · intro hne
    have hcleared : Ensures (fun t => t = s) (enc28j60WriteOp hw .bitFieldClr econ1 (econ1Bsel1 ||| econ1Bsel0))
        fun _ t => t.Logged ∧ bankOf t.enc.chip.econ1 = 0 := by
      apply command_ensures
      · rintro b rfl
        exact hlogged
      · rintro b rfl _ hsome
        cases hsome
        exact right_econ1
      · rintro b rfl t ht - hchip
        refine ⟨ht, hchip.trans ?_⟩
        change bankOf (b.enc.chip.write _ _ _).econ1 = 0
        rw [write_econ1_clear]
        exact bankOf_cleared _
    have hset : Ensures (fun t => t.Logged ∧ bankOf t.enc.chip.econ1 = 0)
        (enc28j60WriteOp hw .bitFieldSet econ1 ((a &&& bankMask) >>> 5))
        fun _ t => t.Logged ∧ bankOf t.enc.chip.econ1 = a &&& bankMask := by
      apply command_ensures
      · exact fun b hb => hb.1
      · rintro b - _ hsome
        cases hsome
        exact right_econ1
      · rintro b ⟨-, hzero⟩ t ht - hchip
        refine ⟨ht, hchip.trans ?_⟩
        change bankOf (b.enc.chip.write _ _ _).econ1 = _
        rw [write_econ1_set, bankOf_or, hzero, bankOf_bits, UInt8.zero_or]
    apply hcleared.bind
    intro _
    apply hset.bind
    intro _
    apply Waiting.ensures_modify
    · exact fun t ht => ht.1
    · exact fun t ht => ⟨ht, rfl⟩
  · intro heq
    have hsame := not_not.mp heq
    apply Waiting.ensures_pure
    · rintro t rfl
      exact hlogged
    · rintro t rfl
      exact ⟨⟨hlogged, hready hsame⟩, hsame.symm⟩

theorem read_ensures : Ensures (Ready a) (enc28j60Read hw a) fun _ => At (a &&& bankMask) :=
  Waiting.Ensures.bind setBank_ensures fun _ => readCtrlReg_ensures fun _ => rfl

/-- The bank bits that a write puts into ECON1 are those of its address. -/
def Call.Selects (a d : UInt8) : Prop := a &&& addrMask = econ1 → bankOf d = a &&& bankMask

theorem write_ensures (h : Call.Selects a d) :
    Ensures (Ready a) (enc28j60Write hw a d) fun _ => At (a &&& bankMask) := by
  apply Waiting.Ensures.bind setBank_ensures
  intro _
  apply command_ensures
  · exact fun b hb => hb.1.1
  · rintro b ⟨⟨-, hbank⟩, hdriver⟩ _ hsome -
    cases hsome
    exact hbank.trans hdriver
  · rintro b ⟨⟨-, hbank⟩, hdriver⟩ t hlogged hdriver' hchip
    have hdriver' : t.enc.enc28j60Bank = a &&& bankMask := hdriver'.trans hdriver
    have hchip' : bankOf t.enc.chip.econ1 = a &&& bankMask := by
      refine hchip.trans ?_
      change bankOf (b.enc.chip.write _ _ _).econ1 = _
      rw [write_econ1_self]
      split_ifs with ha
      · exact h ha
      · exact hbank.trans hdriver
    exact ⟨⟨hlogged, hchip'.trans hdriver'.symm⟩, hdriver'⟩

end Bus

end Lpc1788Libraries.Enc28j60

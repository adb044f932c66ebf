import Lpc1788Libraries.Max7219.Shadow
import Mathlib.Tactic.IntervalCases

namespace Lpc1788Libraries.Max7219

open Lpc1788Libraries.Support

namespace Call

/-- The device that a call names; an initialisation goes through all of them. -/
def target : Call → Option UInt8
  | init _ _ _ => none
  | testCycle dev => some dev
  | blink dev _ => some dev
  | clear dev => some dev
  | shutdown dev _ => some dev
  | clearDigit dev _ => some dev
  | blinkDisplay dev _ => some dev
  | dispDigit dev _ _ _ => some dev
  | dispChar dev _ _ _ => some dev
  | dispString dev _ _ => some dev
  | dispRaw dev _ _ => some dev
  | print32 dev _ => some dev
  | print16 dev _ => some dev
  | printDec2digit dev _ _ _ => some dev
  | print8 dev _ _ => some dev
  | printHex8 dev _ => some dev
  | printHex16 dev _ => some dev
  | printHex32 dev _ => some dev
  | ledmtrxSetcol dev _ _ => some dev
  | ledmtrxSetrow dev _ _ => some dev
  | ledmtrxSetled dev _ _ _ => some dev
  | ledmtrxPrintchar _ dev => some dev

/-- What a function that leaves the shadow alone draws in a row of its device. -/
def drawn (rom : ℕ → UInt8) (row : ℕ) : Call → Option UInt8
  | init _ _ _ => some 0
  | testCycle _ => some 0xff
  | blink _ _ => some 0xff
  | clear _ => some 0
  | clearDigit _ digit => if digit.toNat % 16 = row + 1 then some 0 else none
  | dispRaw _ pos value => if (pos.toNat + 1) % 16 = row + 1 then some value else none
  | print32 _ number => some (getAscii rom (number.toNat / 10 ^ row % 10))
  | print16 _ number => if row < 5 then some (getAscii rom (number.toNat / 10 ^ row % 10)) else none
  | printDec2digit _ pos number dp =>
    if (pos.toNat + 1) % 16 = row + 1 then
      some (if dp then getAscii rom (number.toNat % 10) ||| 0x80 else getAscii rom (number.toNat % 10))
    else if (pos.toNat + 2) % 16 = row + 1 then some (getAscii rom (number.toNat / 10 % 10))
    else none
  | print8 _ pos number =>
    if (pos.toNat + 1) % 16 = row + 1 then some (getAscii rom (number.toNat % 10))
    else if (pos.toNat + 2) % 16 = row + 1 ∧ number.toNat / 100 % 10 = 0 ∧ number.toNat / 10 % 10 ≠ 0 then
      some (getAscii rom (number.toNat / 10 % 10))
    else if (pos.toNat + 3) % 16 = row + 1 ∧ number.toNat / 100 % 10 ≠ 0 then
      some (getAscii rom (number.toNat / 100 % 10))
    else none
  | printHex8 _ hexnum => if row < 2 then some (getAscii rom ((hexnum.toNat >>> (4 * row)) &&& 0x0f)) else none
  | printHex16 _ hexnum => if row < 4 then some (getAscii rom ((hexnum.toNat >>> (4 * row)) &&& 0x0f)) else none
  | printHex32 _ hexnum => some (getAscii rom ((hexnum.toNat >>> (4 * row)) &&& 0x0f))
  | _ => none

/-- For a device number that is not in a chain of `n` devices: the calls that send nothing. The
functions with a shadow look at the number themselves. -/
def Silent (n : UInt8) : Call → Prop
  | testCycle _ => False
  | blink dev _ => dev ≠ n
  | clear dev => dev ≠ n
  | shutdown dev _ => dev ≠ n
  | clearDigit dev _ => dev ≠ n
  | blinkDisplay dev blinkTimes => dev ≠ n ∨ blinkRounds blinkTimes = 0
  | dispRaw dev _ _ => dev ≠ n
  | print32 dev _ => dev ≠ n
  | print16 dev _ => dev ≠ n
  | printDec2digit dev _ _ _ => dev ≠ n
  | print8 dev _ _ => dev ≠ n
  | printHex8 dev _ => dev ≠ n
  | printHex16 dev _ => dev ≠ n
  | printHex32 dev _ => dev ≠ n
  | _ => True

end Call

variable {s s' : State} {reg data dev n : UInt8} {l : List Act} {device address row : ℕ} {p : ℕ → Prop}
  {v : UInt8} {rom : ℕ → UInt8} {call : Call} {calls : List Call}

section idle

/-- An act that leaves a chain of `n` devices alone. -/
def Act.Idle (n : UInt8) : Act → Prop
  | .send _ _ dev => n < dev
  | .writeShort _ => False

theorem perform_maxDevNumber : (perform l s).maxDevNumber = s.maxDevNumber := by
  induction l generalizing s with
  | nil => rfl
  | cons a l ih =>
    change (perform l (a.perform s)).maxDevNumber = _
    rw [ih]
    cases a with
    | send reg data dev => exact sendData_maxDevNumber
    | writeShort w => rw [Act.perform]

theorem act_clocks (a : Act) : s.chain.clocks ≤ (a.perform s).chain.clocks ∧
    ((a.perform s).chain.clocks = s.chain.clocks ↔ a.Idle s.maxDevNumber) := by
  cases a with
  | send reg data dev =>
    rw [Act.perform, sendData_clocks, Act.Idle]
    split_ifs with h
    · exact ⟨le_rfl, fun _ => h, fun _ => rfl⟩
    · have hlen : 0 < (frameWords reg data dev s.maxDevNumber).length := by
        rw [frameWords, List.length_append, List.length_cons]
        omega
      exact ⟨Nat.le_add_right _ _, fun heq => by omega, fun hlt => absurd hlt h⟩
  | writeShort w =>
    rw [Act.perform, writeShort_eq, Chain.clockIn_eq]
    change s.chain.clocks ≤ s.chain.clocks + _ ∧ (s.chain.clocks + _ = s.chain.clocks ↔ False)
    rw [ShiftChain.length_wordBits]
    exact ⟨Nat.le_add_right _ _, fun heq => by omega, False.elim⟩

theorem clocks_le_perform : s.chain.clocks ≤ (perform l s).chain.clocks := by
  induction l generalizing s with
  | nil => exact le_rfl
  | cons a l ih => exact (act_clocks a).1.trans ih

theorem perform_clocks : (perform l s).chain.clocks = s.chain.clocks ↔ ∀ a ∈ l, a.Idle s.maxDevNumber := by
  induction l generalizing s with
  | nil => exact ⟨fun _ a ha => absurd ha List.not_mem_nil, fun _ => rfl⟩
  | cons a l ih =>
    have hmax : (a.perform s).maxDevNumber = s.maxDevNumber := @perform_maxDevNumber s [a]
    have hfirst := @act_clocks s a
    have hrest : (a.perform s).chain.clocks ≤ (perform l (a.perform s)).chain.clocks := clocks_le_perform
    have ih := @ih (a.perform s)
    rw [hmax] at ih
    rw [List.forall_mem_cons, ← hfirst.2, ← ih]
    change (perform l (a.perform s)).chain.clocks = _ ↔ _
    omega

theorem perform_idle (h : ∀ a ∈ l, a.Idle s.maxDevNumber) : perform l s = s := by
  induction l with
  | nil => rfl
  | cons a l ih =>
    have ha := h a List.mem_cons_self
    cases a with
    | send reg data dev =>
      have hskip : sendData reg data dev s = s := if_pos ha
      change perform l (sendData reg data dev s) = s
      rw [hskip]
      exact ih fun b hb => h b (List.mem_cons_of_mem _ hb)
    | writeShort w => exact absurd ha not_false

end idle

section direct

/-- The functions that read no state, as what they do. -/
def Call.acts (rom : ℕ → UInt8) : Call → Option (List Act)
  | testCycle dev => some (max7219TestCycle dev)
  | blink dev blinkTimes => some (max7219Blink dev blinkTimes)
  | clear dev => some (max7219Clear dev)
  | shutdown dev mode => some (max7219Shutdown dev mode)
  | clearDigit dev digit => some (max7219ClearDigit dev digit)
  | blinkDisplay dev blinkTimes => some (max7219BlinkDisplay dev blinkTimes)
  | dispRaw dev pos value => some (max7219DispRaw dev pos value)
  | print32 dev number => some (max7219Print32 rom dev number)
  | print16 dev number => some (max7219Print16 rom dev number)
  | printDec2digit dev pos number dp => some (max7219PrintDec2digit rom dev pos number dp)
  | print8 dev pos number => some (max7219Print8 rom dev pos number)
  | printHex8 dev hexnum => some (max7219PrintHex8 rom dev hexnum)
  | printHex16 dev hexnum => some (max7219PrintHex16 rom dev hexnum)
  | printHex32 dev hexnum => some (max7219PrintHex32 rom dev hexnum)
  | _ => none

theorem exec_of_acts (h : call.acts rom = some l) : call.exec rom s = perform l s := by
  cases call <;> simp_all [Call.acts, Call.exec]

def Act.SendsTo (dev : UInt8) : Act → Prop
  | .send _ _ d => d = dev
  | .writeShort _ => False

theorem sendsTo_map {α : Type} (xs : List α) (f g : α → UInt8) :
    ∀ a ∈ xs.map fun x => Act.send (f x) (g x) dev, a.SendsTo dev := by
  intro a ha
  obtain ⟨x, -, rfl⟩ := List.mem_map.mp ha
  exact rfl

theorem digits_sendsTo : ∀ a ∈ digits dev data, a.SendsTo dev :=
  sendsTo_map (List.range 8) (fun i => UInt8.ofNat (i + 1)) fun _ => data

theorem blinkDisplay_sendsTo {blinkTimes : ℤ} : ∀ a ∈ max7219BlinkDisplay dev blinkTimes, a.SendsTo dev := by
  intro a ha
  rw [max7219BlinkDisplay, List.mem_flatten] at ha
  obtain ⟨r, hr, ha⟩ := ha
  rw [List.eq_of_mem_replicate hr] at ha
  revert a
  simp only [List.forall_mem_cons, Act.SendsTo, List.not_mem_nil, IsEmpty.forall_iff, implies_true, and_self]

theorem blink_sendsTo {blinkTimes : ℤ} : ∀ a ∈ max7219Blink dev blinkTimes, a.SendsTo dev :=
  List.forall_mem_append.mpr ⟨digits_sendsTo, blinkDisplay_sendsTo⟩

theorem print8_sendsTo {pos number : UInt8} : ∀ a ∈ max7219Print8 rom dev pos number, a.SendsTo dev := by
  have hsend : ∀ reg data, ∀ a ∈ [Act.send reg data dev], a.SendsTo dev := by
    intro reg data a ha
    rw [List.mem_singleton.mp ha]
    exact rfl
  have hopt : ∀ (c : Prop) [Decidable c] reg data, ∀ a ∈ (if c then [Act.send reg data dev] else []), a.SendsTo dev := by
    intro c _ reg data
    split_ifs
    · exact hsend reg data
    · exact fun a ha => absurd ha List.not_mem_nil
  exact List.forall_mem_append.mpr ⟨List.forall_mem_append.mpr ⟨hopt _ _ _, hopt _ _ _⟩, hsend _ _⟩

theorem acts_sendsTo (h : call.acts rom = some l) (ht : call.target = some dev)
    (hne : ∀ d, call ≠ .testCycle d) : ∀ a ∈ l, a.SendsTo dev := by
  cases call <;> simp only [Call.acts, Call.target, Option.some.injEq, reduceCtorEq] at h ht <;> subst h ht
  case testCycle => exact absurd rfl (hne _)
  case blink => exact blink_sendsTo
  case clear => exact sendsTo_map _ _ _
  case blinkDisplay => exact blinkDisplay_sendsTo
  case print32 => exact sendsTo_map _ _ _
  case print16 => exact sendsTo_map _ _ _
  case print8 => exact print8_sendsTo
  case printHex8 => exact sendsTo_map _ _ _
  case printHex16 => exact sendsTo_map _ _ _
  case printHex32 => exact sendsTo_map _ _ _
  all_goals
    simp only [max7219Shutdown, max7219ClearDigit, max7219DispRaw, max7219PrintDec2digit, List.forall_mem_cons,
      Act.SendsTo, List.not_mem_nil, IsEmpty.forall_iff, implies_true, and_self]

theorem testCycle_to : ∀ a ∈ max7219TestCycle dev, a.SendsTo dev ∨ ∃ w, a = .writeShort w := by
  rw [max7219TestCycle, List.forall_mem_append, List.forall_mem_append]
  refine ⟨⟨?_, ?_⟩, fun a ha => Or.inl (blink_sendsTo a ha)⟩
  · simp only [List.forall_mem_cons, Act.SendsTo, List.not_mem_nil, IsEmpty.forall_iff, implies_true, and_self, true_or]
  · intro a ha
    obtain ⟨i, -, ha⟩ := List.mem_flatMap.mp ha
    rcases List.mem_cons.mp ha with rfl | ha
    · exact Or.inr ⟨_, rfl⟩
    · exact Or.inl (digits_sendsTo a ha)

theorem Act.SendsTo.to {a : Act} (h : a.SendsTo dev) : a.To (· = dev.toNat) := by
  cases a with
  | send reg data d => exact congrArg UInt8.toNat h
  | writeShort w => exact trivial

theorem acts_to (h : call.acts rom = some l) (ht : call.target = some dev) : ∀ a ∈ l, a.To (· = dev.toNat) := by
  intro a ha
  by_cases htest : ∃ d, call = .testCycle d
  · obtain ⟨d, rfl⟩ := htest
    cases ht
    cases h
    rcases testCycle_to a ha with hs | ⟨w, rfl⟩
    · exact hs.to
    · exact trivial
  · exact (acts_sendsTo h ht (fun d hd => htest ⟨d, hd⟩) a ha).to

theorem idle_iff (hl : ∀ a ∈ l, a.SendsTo dev) (hn : n ≤ dev) : (∀ a ∈ l, a.Idle n) ↔ l = [] ∨ dev ≠ n := by
  have hidle : ∀ a : Act, a.SendsTo dev → (a.Idle n ↔ dev ≠ n) := by
    intro a ha
    cases a with
    | send reg data d =>
      cases ha
      exact ⟨fun hlt heq => absurd (heq ▸ hlt) (UInt8.lt_irrefl n), fun hne => UInt8.lt_of_le_of_ne hn hne.symm⟩
    | writeShort w => exact absurd ha not_false
  constructor
  · intro h
    cases l with
    | nil => exact Or.inl rfl
    | cons a l => exact Or.inr ((hidle a (hl a List.mem_cons_self)).mp (h a List.mem_cons_self))
  · rintro (rfl | hne)
    · exact fun a ha => absurd ha List.not_mem_nil
    · exact fun a ha => (hidle a (hl a ha)).mpr hne

theorem idle_acts_iff (h : call.acts rom = some l) (ht : call.target = some dev) (hn : n ≤ dev) :
    (∀ a ∈ l, a.Idle n) ↔ call.Silent n := by
  by_cases htest : ∃ d, call = .testCycle d
  · obtain ⟨d, rfl⟩ := htest
    cases h
    constructor
    · intro hidle
      have hword : Act.writeShort 0 ∈ max7219TestCycle d := by
        apply List.mem_append_left
        apply List.mem_append_right
        exact List.mem_flatMap.mpr ⟨0, List.mem_range.mpr (by omega), List.mem_cons_self⟩
      exact hidle _ hword
    · exact False.elim
  · rw [idle_iff (acts_sendsTo h ht fun d hd => htest ⟨d, hd⟩) hn]
    cases call <;> simp only [Call.acts, Call.target, Option.some.injEq, reduceCtorEq] at h ht <;> subst h ht
    case testCycle => exact absurd ⟨_, rfl⟩ htest
    case blinkDisplay =>
      rw [max7219BlinkDisplay, Call.Silent, or_comm]
      apply or_congr_right
      cases blinkRounds _ with
      | zero => exact ⟨fun _ => rfl, fun _ => rfl⟩
      | succ k => exact ⟨fun h => absurd h (List.cons_ne_nil _ _), fun h => absurd h (Nat.succ_ne_zero k)⟩
    all_goals
      simp [Call.Silent, max7219Blink, digits, max7219Clear, max7219Shutdown, max7219ClearDigit, max7219DispRaw,
        max7219Print32, max7219Print16, printDecimal, max7219PrintDec2digit, max7219Print8, max7219PrintHex8,
        max7219PrintHex16, max7219PrintHex32, printHex]

theorem sent_send {reg : UInt8} {reg' : ℕ} (hreg : reg.toNat % 16 = reg') :
    (Act.send reg data dev).sent dev.toNat address = if reg' = address then some data else none := by
  rw [Act.sent, hreg]
  simp only [true_and]

theorem lastSent_counted {xs : List ℕ} {f : ℕ → UInt8} (hxs : ∀ i ∈ xs, i < 8) :
    lastSent dev.toNat (row + 1) (xs.map fun i => .send (UInt8.ofNat (i + 1)) (f i) dev) =
      if row ∈ xs then some (f row) else none := by
  have hsent : ∀ i ∈ xs, (Act.send (UInt8.ofNat (i + 1)) (f i) dev).sent dev.toNat (row + 1) =
      if i = row then some (f row) else none := by
    intro i hi
    have hlt := hxs i hi
    rw [sent_send (show (UInt8.ofNat (i + 1)).toNat % 16 = i + 1 by rw [UInt8.toNat_ofNat']; omega)]
    by_cases heq : i = row
    · rw [if_pos (congrArg (· + 1) heq), if_pos heq, heq]
    · rw [if_neg (fun h => heq (Nat.succ_injective h)), if_neg heq]
  split_ifs with hrow
  · apply lastSent_eq_some
    · intro a ha
      obtain ⟨i, hi, rfl⟩ := List.mem_map.mp ha
      rw [hsent i hi]
      exact (ite_eq_or_eq _ _ _).symm
    · exact ⟨_, List.mem_map.mpr ⟨row, hrow, rfl⟩, by rw [hsent row hrow, if_pos rfl]⟩
  · apply lastSent_eq_none
    intro a ha
    obtain ⟨i, hi, rfl⟩ := List.mem_map.mp ha
    rw [hsent i hi, if_neg]
    rintro rfl
    exact hrow hi

theorem lastSent_digits (hrow : row < 8) : lastSent dev.toNat (row + 1) (digits dev data) = some data := by
  have hcounted : digits dev data = (List.range 8).map fun i => .send (UInt8.ofNat (i + 1)) data dev := rfl
  rw [hcounted, lastSent_counted fun i hi => List.mem_range.mp hi, if_pos (List.mem_range.mpr hrow)]

theorem lastSent_blinkDisplay {blinkTimes : ℤ} (hrow : row < 8) :
    lastSent dev.toNat (row + 1) (max7219BlinkDisplay dev blinkTimes) = none := by
  apply lastSent_eq_none
  intro a ha
  rw [max7219BlinkDisplay, List.mem_flatten] at ha
  obtain ⟨r, hr, ha⟩ := ha
  rw [List.eq_of_mem_replicate hr, List.mem_cons, List.mem_singleton] at ha
  have hreg : (0x0c : UInt8).toNat % 16 = 12 := rfl
  rcases ha with rfl | rfl
  · rw [sent_send hreg, if_neg (by omega)]
  · rw [sent_send hreg, if_neg (by omega)]

theorem lastSent_blink {blinkTimes : ℤ} (hrow : row < 8) :
    lastSent dev.toNat (row + 1) (max7219Blink dev blinkTimes) = some 0xff := by
  rw [max7219Blink, lastSent_append, lastSent_blinkDisplay hrow, lastSent_digits hrow]
  rfl

theorem lastSent_clear (hrow : row < 8) : lastSent dev.toNat (row + 1) (max7219Clear dev) = some 0 := by
  apply lastSent_eq_some
  · intro a ha
    obtain ⟨i, -, rfl⟩ := List.mem_map.mp ha
    rw [sent_send rfl]
    exact (ite_eq_or_eq _ _ _).symm
  · refine ⟨.send (UInt8.ofNat (row + 1)) 0 dev, List.mem_map.mpr ⟨row + 1, ?_, rfl⟩, ?_⟩
    · rw [List.mem_reverse, List.mem_range]
      omega
    · rw [sent_send (show (UInt8.ofNat (row + 1)).toNat % 16 = row + 1 by rw [UInt8.toNat_ofNat']; omega), if_pos rfl]

theorem lastSent_printDecimal {count number : ℕ} (hcount : count ≤ 8) :
    lastSent dev.toNat (row + 1) (printDecimal rom dev count number) =
      if row < count then some (getAscii rom (number / 10 ^ row % 10)) else none := by
  rw [printDecimal, lastSent_counted fun i hi => (List.mem_range.mp hi).trans_le hcount]
  simp only [List.mem_range]

theorem lastSent_printHex {count hexnum : ℕ} (hcount : count ≤ 8) :
    lastSent dev.toNat (row + 1) (printHex rom dev count hexnum) =
      if row < count then some (getAscii rom ((hexnum >>> (4 * row)) &&& 0x0f)) else none := by
  rw [printHex, lastSent_counted fun i hi => (List.mem_range.mp (List.mem_reverse.mp hi)).trans_le hcount]
  simp only [List.mem_reverse, List.mem_range]

theorem add_mod_sixteen (a b : UInt8) : (a + b).toNat % 16 = (a.toNat + b.toNat) % 16 := by
  rw [UInt8.toNat_add]
  exact Nat.mod_mod_of_dvd _ (by omega)

theorem add_two_mod_sixteen (a : UInt8) : (a + 1 + 1).toNat % 16 = (a.toNat + 2) % 16 := by
  have h := add_mod_sixteen a 1
  have h' := add_mod_sixteen (a + 1) 1
  change _ = (a.toNat + 1) % 16 at h
  change _ = ((a + 1).toNat + 1) % 16 at h'
  omega

theorem add_three_mod_sixteen (a : UInt8) : (a + 1 + 2).toNat % 16 = (a.toNat + 3) % 16 := by
  have h := add_mod_sixteen a 1
  have h' := add_mod_sixteen (a + 1) 2
  change _ = (a.toNat + 1) % 16 at h
  change _ = ((a + 1).toNat + 2) % 16 at h'
  omega

theorem lastSent_print8 {pos number : UInt8} : lastSent dev.toNat (row + 1) (max7219Print8 rom dev pos number) =
    (Call.print8 dev pos number).drawn rom row := by
  rw [max7219Print8, lastSent_append, lastSent_append, lastSent, lastSent, sent_send (add_mod_sixteen _ _), Call.drawn]
  have hopt : ∀ (c : Prop) [Decidable c] a, lastSent dev.toNat (row + 1) (if c then [a] else []) =
      if c then a.sent dev.toNat (row + 1) else none := by
    intro c _ a
    split_ifs
    · exact Option.none_or
    · rfl
  rw [hopt, hopt, sent_send (add_two_mod_sixteen _), sent_send (add_three_mod_sixteen _)]
  change (Option.or none (if (pos.toNat + 1) % 16 = row + 1 then _ else none)).or _ = _
  rw [Option.none_or]
  split_ifs <;> first | rfl | omega

theorem lastSent_acts (h : call.acts rom = some l) (ht : call.target = some dev) (hrow : row < 8) :
    lastSent dev.toNat (row + 1) l = call.drawn rom row := by
  cases call <;> simp only [Call.acts, Call.target, Option.some.injEq, reduceCtorEq] at h ht <;> subst h ht
  case testCycle =>
    rw [max7219TestCycle, lastSent_append, lastSent_blink hrow]
    rfl
  case blink => exact lastSent_blink hrow
  case clear => exact lastSent_clear hrow
  case shutdown =>
    have hreg : (0x0c : UInt8).toNat % 16 = 12 := rfl
    rw [max7219Shutdown, lastSent, sent_send hreg, if_neg (by omega)]
    rfl
  case clearDigit =>
    rw [max7219ClearDigit, lastSent, sent_send rfl]
    rfl
  case blinkDisplay => exact lastSent_blinkDisplay hrow
  case dispRaw =>
    rw [max7219DispRaw, lastSent, sent_send (add_mod_sixteen _ _)]
    rfl
  case print32 =>
    rw [max7219Print32, lastSent_printDecimal le_rfl, if_pos hrow]
    rfl
  case print16 => exact lastSent_printDecimal (by omega)
  case printDec2digit =>
    rw [max7219PrintDec2digit, lastSent, lastSent, lastSent, sent_send (add_mod_sixteen _ _),
      sent_send (add_two_mod_sixteen _), Call.drawn, Option.none_or]
    change (if (_ + 1) % 16 = row + 1 then _ else none : Option UInt8).or _ = _
    split_ifs <;> rfl
  case print8 => exact lastSent_print8
  case printHex8 => exact lastSent_printHex (by omega)
  case printHex16 => exact lastSent_printHex (by omega)
  case printHex32 =>
    rw [max7219PrintHex32, lastSent_printHex le_rfl, if_pos hrow]
    rfl

end direct

section init

theorem initDevice_sendsTo {a b c : UInt8} : ∀ x ∈ initDevice dev a b c, x.SendsTo dev := by
  rw [initDevice, List.forall_mem_append]
  constructor
  · simp only [List.forall_mem_cons, Act.SendsTo, List.not_mem_nil, IsEmpty.forall_iff, implies_true, and_true]
  · exact sendsTo_map _ _ _

theorem initDevice_sent {a b c : UInt8} (hrow : row < 8) : ∀ x ∈ initDevice dev a b c,
    x.sent device (row + 1) = none ∨ x.sent device (row + 1) = some 0 := by
  have hcontrol : ∀ reg data : UInt8, 8 < reg.toNat % 16 →
      (Act.send reg data dev).sent device (row + 1) = none ∨ (Act.send reg data dev).sent device (row + 1) = some 0 :=
    fun reg data hreg => Or.inl (if_neg fun h => by omega)
  rw [initDevice, List.forall_mem_append]
  constructor
  · simp only [List.forall_mem_cons, List.not_mem_nil, IsEmpty.forall_iff, implies_true, and_true]
    exact ⟨hcontrol _ _ (by decide), hcontrol _ _ (by decide), hcontrol _ _ (by decide), hcontrol _ _ (by decide),
      hcontrol _ _ (by decide)⟩
  · intro x hx
    obtain ⟨j, -, rfl⟩ := List.mem_map.mp hx
    exact (ite_eq_or_eq _ _ _).symm

theorem initDevices_to {a b c : UInt8} : ∀ x ∈ initDevices a b c n, x.To (· < n.toNat) := by
  intro x hx
  obtain ⟨i, hi, hx⟩ := List.mem_flatMap.mp hx
  have hlt := List.mem_range.mp hi
  have hdev : (UInt8.ofNat i).toNat = i := by
    rw [UInt8.toNat_ofNat', Nat.mod_eq_of_lt (hlt.trans n.toNat_lt)]
  have hto := (initDevice_sendsTo x hx).to
  cases x with
  | send reg data d =>
    change d.toNat = _ at hto
    change d.toNat < _
    omega
  | writeShort w => exact trivial

theorem lastSent_initDevices {a b c : UInt8} (hd : device < n.toNat) (hrow : row < 8) :
    lastSent device (row + 1) (initDevices a b c n) = some 0 := by
  have hlt := n.toNat_lt
  have hdevice : (UInt8.ofNat device).toNat = device := by
    rw [UInt8.toNat_ofNat', Nat.mod_eq_of_lt (hd.trans hlt)]
  apply lastSent_eq_some
  · intro x hx
    obtain ⟨i, -, hx⟩ := List.mem_flatMap.mp hx
    exact initDevice_sent hrow x hx
  · refine ⟨.send (UInt8.ofNat (row + 1)) 0 (UInt8.ofNat device), List.mem_flatMap.mpr ⟨device, List.mem_range.mpr hd, ?_⟩, ?_⟩
    · apply List.mem_append_right
      refine List.mem_map.mpr ⟨row + 1, ?_, rfl⟩
      rw [List.mem_reverse, List.mem_range]
      omega
    · rw [Act.sent, if_pos]
      refine ⟨hdevice.symm, ?_⟩
      rw [UInt8.toNat_ofNat']
      omega

theorem lastSent_of_to (hl : ∀ a ∈ l, a.To p) (hd : ¬p device) : lastSent device address l = none := by
  apply lastSent_eq_none
  intro a ha
  cases a with
  | send reg data dev =>
    apply if_neg
    rintro ⟨rfl, -⟩
    exact hd (hl _ ha)
  | writeShort w => rfl

theorem deselect_wired (hlen : s.chain.length = n.toNat) :
    State.Wired { s with maxDevNumber := n, chain := s.chain.deselect } := by
  rw [Chain.deselect]
  split_ifs with hsel
  · exact ⟨hlen, rfl⟩
  · exact ⟨hlen, eq_false_of_ne_true hsel⟩

theorem init_reg {a b c : UInt8} (hlen : s.chain.length = n.toNat) (hd : device < n.toNat) (hrow : row < 8) :
    (max7219Init a b c n s).chain.reg device (row + 1) = 0 := by
  rw [max7219Init, perform_reg (deselect_wired hlen) initDevices_to (fun _ h => h) (Nat.succ_ne_zero row), lastSent_initDevices hd hrow]
  rfl

theorem init_wired {a b c : UInt8} (hlen : s.chain.length = n.toNat) : (max7219Init a b c n s).Wired :=
  (perform_extends (deselect_wired hlen) initDevices_to fun _ h => h).wired

end init

end Lpc1788Libraries.Max7219

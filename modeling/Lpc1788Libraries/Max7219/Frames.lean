import Lpc1788Libraries.Max7219.Chain
import Mathlib.Tactic.Ring

namespace Lpc1788Libraries.Max7219

open Lpc1788Libraries.Support

variable {c : Chain} {s : State} {reg data dev maxDev : UInt8} {acts : List Act} {device address : ℕ}

namespace Chain

def clockIn (c : Chain) (l : List Bool) : Chain := l.foldl clockBit c

theorem clockIn_append (l l' : List Bool) : c.clockIn (l ++ l') = (c.clockIn l).clockIn l' := List.foldl_append

theorem clockIn_eq (l : List Bool) : c.clockIn l =
    { c with
      bits := ShiftChain.shiftIn c.bits l
      clocks := c.clocks + l.length
      frameClocks := if c.selected then c.frameClocks + l.length else c.frameClocks } := by
  induction l generalizing c with
  | nil =>
    cases c
    simp [clockIn, ShiftChain.shiftIn]
  | cons b l ih =>
    change (c.clockBit b).clockIn l = _
    rw [ih]
    simp only [clockBit, ShiftChain.shiftIn, List.foldl_cons, List.length_cons]
    congr 1
    · omega
    · split_ifs
      · omega
      · rfl

end Chain

theorem writeShortRounds_eq {count temp : ℕ} (hcount : count ≤ 16) : writeShortRounds count temp c =
    c.clockIn ((List.range count).map fun j => temp.testBit (15 - j)) := by
  induction count generalizing temp c with
  | zero => rfl
  | succ count ih =>
    have hbit : decide (temp &&& 0x8000 ≠ 0) = temp.testBit 15 := by
      have hpow : (0x8000 : ℕ) = 2 ^ 15 := rfl
      rw [hpow, Nat.and_two_pow]
      cases temp.testBit 15 <;> rfl
    rw [writeShortRounds, ih (Nat.le_of_succ_le hcount), hbit, List.range_succ_eq_map, List.map_cons, List.map_map]
    change _ = (c.clockBit (temp.testBit 15)).clockIn _
    congr 1
    apply List.map_congr_left
    intro j hj
    have hj' : j < count := List.mem_range.mp hj
    have hpow : (0x10000 : ℕ) = 2 ^ 16 := rfl
    rw [hpow, Nat.testBit_mod_two_pow, Nat.testBit_shiftLeft, Function.comp_apply,
      decide_eq_true (show 15 - j < 16 by omega), decide_eq_true (show 15 - j ≥ 1 by omega), Bool.true_and,
      Bool.true_and, Nat.sub_sub]

theorem writeShort_eq (w : ℕ) : writeShort w c = c.clockIn (ShiftChain.wordBits 16 w) :=
  writeShortRounds_eq le_rfl

def commandWord (reg data : ℕ) : ℕ := ((reg <<< 8) &&& 0x0f00) ||| (data &&& 0x00ff)

theorem commandWord_eq (reg data : ℕ) : commandWord reg data = reg % 16 * 256 + data % 256 := by
  have hlow : data &&& 0x00ff = data % 256 := Nat.and_two_pow_sub_one_eq_mod data 8
  have hhigh : (reg <<< 8) &&& 0x0f00 = reg % 16 * 2 ^ 8 := by
    have hmask : (0x0f00 : ℕ) = 0xf <<< 8 := rfl
    have hreg : reg &&& 0xf = reg % 16 := Nat.and_two_pow_sub_one_eq_mod reg 4
    rw [hmask, ← Nat.shiftLeft_and_distrib, hreg, Nat.shiftLeft_eq]
  rw [commandWord, hlow, hhigh, Nat.mul_comm, ← Nat.two_pow_add_eq_or_of_lt (Nat.mod_lt _ (by omega)), Nat.mul_comm]

theorem nops_eq (n : ℕ) : nops n c = c.clockIn ((List.replicate n 0).flatMap (ShiftChain.wordBits 16)) := by
  induction n generalizing c with
  | zero => rfl
  | succ n ih =>
    rw [nops, ih, List.replicate_succ, List.flatMap_cons, Chain.clockIn_append, max7219, writeShort_eq]
    rfl

/-- The words of one frame, in the order in which they are sent. -/
def frameWords (reg data dev maxDev : UInt8) : List ℕ :=
  List.replicate (precedNop maxDev dev).toNat 0 ++
    commandWord reg.toNat data.toNat :: List.replicate (followNop maxDev dev).toNat 0

theorem sendData_eq : sendData reg data dev s =
    if s.maxDevNumber < dev then s
    else { s with chain := (s.chain.select.clockIn
      ((frameWords reg data dev s.maxDevNumber).flatMap (ShiftChain.wordBits 16))).deselect } := by
  rw [sendData, nops_eq, nops_eq, max7219, writeShort_eq, frameWords, List.flatMap_append, List.flatMap_cons,
    Chain.clockIn_append, Chain.clockIn_append]
  rfl

theorem length_frameWords (h : dev.toNat < maxDev.toNat) :
    (frameWords reg data dev maxDev).length = maxDev.toNat := by
  rw [frameWords, List.length_append, List.length_cons, List.length_replicate, List.length_replicate, followNop,
    precedNop]
  omega

theorem field_frameWords {bits : ℕ → Bool} (h : dev.toNat < maxDev.toNat) (hd : device < maxDev.toNat) :
    ShiftChain.field (ShiftChain.shiftIn bits
      ((frameWords reg data dev maxDev).flatMap (ShiftChain.wordBits 16))) (16 * device) 16 =
      if device = dev.toNat then commandWord reg.toNat data.toNat else 0 := by
  have hlen : device < (frameWords reg data dev maxDev).length := (length_frameWords h).symm ▸ hd
  have hfollow : (followNop maxDev dev).toNat = dev.toNat := by
    rw [followNop, precedNop]
    omega
  have hword : commandWord reg.toNat data.toNat < 2 ^ 16 := by
    rw [commandWord_eq]
    omega
  rw [ShiftChain.field_shiftIn_words hlen, frameWords, hfollow, List.reverse_append, List.reverse_cons,
    List.reverse_replicate, List.reverse_replicate, List.append_assoc, List.singleton_append]
  rcases Nat.lt_trichotomy device dev.toNat with hlt | heq | hgt
  · rw [List.getD_append _ _ _ _ (by rwa [List.length_replicate]), List.getD_replicate _ hlt,
      if_neg (Nat.ne_of_lt hlt)]
    rfl
  · rw [List.getD_append_right _ _ _ _ (by rw [List.length_replicate]; exact heq.ge), List.length_replicate, heq,
      Nat.sub_self, if_pos rfl]
    exact Nat.mod_eq_of_lt hword
  · obtain ⟨i, rfl⟩ : ∃ i, device = dev.toNat + (i + 1) := ⟨device - dev.toNat - 1, by omega⟩
    rw [List.getD_append_right _ _ _ _ (by rw [List.length_replicate]; omega), List.length_replicate,
      Nat.add_sub_cancel_left, List.getD_cons_succ, if_neg (Nat.ne_of_gt hgt),
      List.getD_replicate _ (by rw [precedNop]; omega)]
    rfl

/-- The code counts as many devices as the chain has, and no frame is open. -/
structure State.Wired (s : State) : Prop where
  length : s.chain.length = s.maxDevNumber.toNat
  selected : s.chain.selected = false

/-- A frame of one word a device, at which only one device, of those in `p`, executes a command. -/
def Frame.Addresses (n : ℕ) (p : ℕ → Prop) (f : Frame) : Prop :=
  f.clocks = 16 * n ∧ ∃ d, p d ∧ ∀ a ∈ f.executed, a.device = d

section sendData

variable (hw : s.Wired) (hdev : dev.toNat < s.maxDevNumber.toNat)

theorem sendData_matrix : (sendData reg data dev s).matrix = s.matrix := by
  rw [sendData]
  split_ifs
  · rfl
  · rfl

theorem sendData_maxDevNumber : (sendData reg data dev s).maxDevNumber = s.maxDevNumber := by
  rw [sendData]
  split_ifs
  · rfl
  · rfl

include hdev in
theorem sendData_chain : (sendData reg data dev s).chain = (s.chain.select.clockIn
    ((frameWords reg data dev s.maxDevNumber).flatMap (ShiftChain.wordBits 16))).deselect := by
  rw [sendData_eq, if_neg (fun h => absurd (UInt8.lt_iff_toNat_lt.mp h) (Nat.lt_asymm hdev))]

include hw hdev in
theorem frame_word {c : Chain} (hc : c = s.chain.select.clockIn
    ((frameWords reg data dev s.maxDevNumber).flatMap (ShiftChain.wordBits 16))) (hd : device < c.length) :
    c.word device = if device = dev.toNat then commandWord reg.toNat data.toNat else 0 := by
  rw [Chain.clockIn_eq] at hc
  subst hc
  have hd' : device < s.maxDevNumber.toNat := lt_of_lt_of_eq hd hw.length
  exact field_frameWords hdev hd'

include hw hdev in
theorem sendData_reg (device address : ℕ) : (sendData reg data dev s).chain.reg device address =
    if device = dev.toNat ∧ address ≠ 0 ∧ reg.toNat % 16 = address then data else s.chain.reg device address := by
  rw [sendData_chain hdev]
  generalize hc : s.chain.select.clockIn _ = c
  have hlen : c.length = s.maxDevNumber.toNat := by
    rw [← hw.length, ← hc, Chain.clockIn_eq]
    rfl
  have hsel : c.selected = true := by
    rw [← hc, Chain.clockIn_eq]
    rfl
  have hreg : c.reg = s.chain.reg := by
    rw [← hc, Chain.clockIn_eq]
    rfl
  rw [Chain.deselect, if_pos hsel, hreg]
  by_cases hd : device < c.length
  · have hword := frame_word hw hdev hc.symm hd
    simp only [Chain.command, hword, hd, true_and]
    by_cases heq : device = dev.toNat
    · rw [if_pos heq, commandWord_eq]
      simp only [heq, true_and]
      have haddress : (reg.toNat % 16 * 256 + data.toNat % 256) / 256 % 16 = reg.toNat % 16 := by omega
      have hdata : UInt8.ofNat (reg.toNat % 16 * 256 + data.toNat % 256) = data := by
        apply UInt8.toNat_inj.mp
        rw [UInt8.toNat_ofNat']
        have hlt := data.toNat_lt
        omega
      rw [haddress, hdata]
    · have hnop : ¬(address ≠ 0 ∧ 0 / 256 % 16 = address) := fun h => h.1 h.2.symm
      rw [if_neg heq, if_neg hnop, if_neg (fun h => heq h.1)]
  · have hother : device ≠ dev.toNat := by
      rintro rfl
      exact hd (hlen.symm ▸ hdev)
    simp only [hd, hother, false_and, if_false]

include hw hdev in
theorem sendData_frames : ∃ f : Frame, f.Addresses s.maxDevNumber.toNat (· = dev.toNat) ∧
    (sendData reg data dev s).chain.frames = f :: s.chain.frames := by
  rw [sendData_chain hdev]
  generalize hc : s.chain.select.clockIn _ = c
  have hsel : c.selected = true := by
    rw [← hc, Chain.clockIn_eq]
    rfl
  have hframes : c.frames = s.chain.frames := by
    rw [← hc, Chain.clockIn_eq]
    rfl
  have hclocks : c.frameClocks = 16 * s.maxDevNumber.toNat := by
    rw [← hc, Chain.clockIn_eq]
    change 0 + _ = _
    rw [Nat.zero_add, ShiftChain.length_words, length_frameWords hdev]
  rw [Chain.deselect, if_pos hsel, hframes]
  refine ⟨_, ⟨hclocks, dev.toNat, rfl, ?_⟩, rfl⟩
  intro a ha
  rw [List.mem_filter, List.mem_map] at ha
  obtain ⟨⟨device, hd, rfl⟩, hne⟩ := ha
  have hword := frame_word hw hdev hc.symm (List.mem_range.mp hd)
  by_contra hother
  change device ≠ dev.toNat at hother
  rw [Chain.command, hword, if_neg hother] at hne
  exact absurd hne Bool.false_ne_true

theorem sendData_wired (hw : s.Wired) : (sendData reg data dev s).Wired := by
  rw [sendData_eq]
  split_ifs
  · exact hw
  · rw [Chain.clockIn_eq]
    exact ⟨hw.length, rfl⟩

theorem sendData_clocks : (sendData reg data dev s).chain.clocks =
    s.chain.clocks + if s.maxDevNumber < dev then 0 else 16 * (frameWords reg data dev s.maxDevNumber).length := by
  rw [sendData_eq]
  split_ifs
  · rfl
  · rw [Chain.clockIn_eq, ShiftChain.length_words]
    rfl

end sendData

end Lpc1788Libraries.Max7219

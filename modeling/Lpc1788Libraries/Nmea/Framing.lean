import Mathlib.Algebra.Ring.Nat
import Mathlib.Data.List.TakeWhile
import Lpc1788Libraries.Nmea.Receiver

namespace Lpc1788Libraries.Nmea

open Lpc1788Libraries.Support

/-- The upper-case hexadecimal digit of a number below 16. -/
def hexDigit (n : UInt8) : UInt8 := if n < 10 then 0x30 + n else 0x41 + (n - 10)

def xorAll (p : List UInt8) : UInt8 := p.foldl (· ^^^ ·) 0

/-- What follows the payload in a sentence: `*`, the checksum, CR and LF. -/
def trailer (checksum : UInt8) : List UInt8 :=
  [0x2a, hexDigit (checksum / 16), hexDigit (checksum % 16), 0x0d, 0x0a]

def sentence (p : List UInt8) : List UInt8 := 0x24 :: p ++ trailer (xorAll p)

/-- The bytes that the receiver takes into its buffer: 7 bits, without `$`, `*`, CR and LF. -/
def Accepted (d : UInt8) : Prop := d < 0x80 ∧ d ≠ 0x24 ∧ d ≠ 0x2a ∧ d ≠ 0x0d ∧ d ≠ 0x0a

instance : DecidablePred Accepted := fun d => by unfold Accepted; infer_instance

structure Payload (p : List UInt8) : Prop where
  length_le : p.length ≤ 126
  accepted : ∀ d ∈ p, Accepted d
  nonzero : ∀ d ∈ p, d ≠ 0

/-- The receiver has taken `p` since the last `$`. -/
structure Receiver.Holds (r : Receiver) (p : List UInt8) : Prop where
  length_le : p.length ≤ 126
  accepted : ∀ d ∈ p, Accepted d
  index : r.index = p.length
  checksum : r.checksum = xorAll p
  stored : ∀ i < p.length, some (r.buffer i) = p[i]?

/-- How many bytes of the trailer the state has seen. -/
def NmeaRxState.seen : NmeaRxState → ℕ
  | .start => 0
  | .payload => 0
  | .checksum1 => 1
  | .checksum2 => 2
  | .endCr => 3
  | .endLf => 4

def NmeaRxState.next : NmeaRxState → NmeaRxState
  | .start => .payload
  | .payload => .checksum1
  | .checksum1 => .checksum2
  | .checksum2 => .endCr
  | .endCr => .endLf
  | .endLf => .start

variable {r r0 : Receiver} {p l : List UInt8} {d : UInt8}

section bytes

theorem nmeaCmpNibble_iff {n : UInt8} : nmeaCmpNibbleWithHexAscii n d = true ↔ d = hexDigit n := by
  have hhex : hexDigit n = if n ≤ 9 then n + 0x30 else n + (0x41 - 10) := by
    unfold hexDigit
    split_ifs with h1 h2 h2
    · apply UInt8.add_comm
    · rw [UInt8.lt_iff_toNat_lt] at h1
      rw [UInt8.le_iff_toNat_le] at h2
      exact absurd (Nat.le_of_lt_succ h1) h2
    · rw [UInt8.lt_iff_toNat_lt] at h1
      rw [UInt8.le_iff_toNat_le] at h2
      exact absurd (Nat.lt_succ_of_le h2) h1
    · rw [UInt8.add_comm, UInt8.sub_eq_add_neg, UInt8.add_assoc]
      rfl
  rw [hhex]
  simp only [nmeaCmpNibbleWithHexAscii, beq_iff_eq]
  exact eq_comm

theorem nmeaCmpNibble_eq_false_iff {n : UInt8} :
    nmeaCmpNibbleWithHexAscii n d = false ↔ d ≠ hexDigit n := by
  rw [← Bool.not_eq_true, nmeaCmpNibble_iff]

theorem low_nibble (c : UInt8) : c &&& 0x0f = c % 16 := by
  apply UInt8.toNat_inj.mp
  rw [UInt8.toNat_and, UInt8.toNat_mod]
  exact Nat.and_two_pow_sub_one_eq_mod c.toNat 4

theorem high_nibble (c : UInt8) : c >>> 4 &&& 0x0f = c / 16 := by
  have hdiv : c >>> 4 = c / 16 := by
    apply UInt8.toNat_inj.mp
    rw [UInt8.toNat_shiftRight, UInt8.toNat_div]
    exact Nat.shiftRight_eq_div_pow c.toNat 4
  rw [hdiv, low_nibble]
  apply UInt8.toNat_inj.mp
  have := c.toNat_lt
  rw [UInt8.toNat_mod, UInt8.toNat_div]
  change c.toNat / 16 % 16 = c.toNat / 16
  omega

theorem xorAll_concat : xorAll (p ++ [d]) = xorAll p ^^^ d := by
  simp [xorAll]

end bytes

section step

theorem step_start (h : r.state = .start) (hd : d = 0x24) :
    nmeaOnRxByte r d = ({ r with state := .payload, checksum := 0, index := 0 }, []) := by
  simp [nmeaOnRxByte, h, hd]

theorem step_start_other (h : r.state = .start) (hd : d ≠ 0x24) : nmeaOnRxByte r d = (r, []) := by
  cases r
  subst h
  simp [nmeaOnRxByte, hd]

theorem holds_nil : ({ r with state := .payload, checksum := 0, index := 0 } : Receiver).Holds [] := by
  constructor
  · exact Nat.zero_le _
  · simp
  · rfl
  · rfl
  · simp

theorem step_payload (h : r.Holds p) (hstate : r.state = .payload) (hd : Accepted d) (hlen : p.length < 126) :
    (nmeaOnRxByte r d).1.state = .payload ∧ (nmeaOnRxByte r d).1.Holds (p ++ [d]) ∧
      (nmeaOnRxByte r d).2 = [] := by
  have hindex := h.index
  obtain ⟨h80, hdollar, hstar, hcr, hlf⟩ := hd
  have heq : nmeaOnRxByte r d = ({ r with
      checksum := r.checksum ^^^ d
      buffer := Function.update r.buffer r.index d
      index := r.index + 1 }, []) := by
    have hroom : ¬ nmeaBufferSize - 1 ≤ r.index + 1 := by
      unfold nmeaBufferSize
      omega
    simp [nmeaOnRxByte, hstate, hdollar, hstar, hcr, hlf, UInt8.not_le.mpr h80, hroom]
  rw [heq]
  refine ⟨hstate, ?_, rfl⟩
  constructor
  · rw [List.length_append]
    exact hlen
  · intro e he
    rcases List.mem_append.mp he with he | he
    · exact h.accepted e he
    · rw [List.mem_singleton.mp he]
      exact ⟨h80, hdollar, hstar, hcr, hlf⟩
  · simp [hindex]
  · rw [xorAll_concat, ← h.checksum]
  · intro i hi
    rw [List.length_append, List.length_singleton] at hi
    by_cases hlast : i = p.length
    · simp [hlast, hindex]
    · have hi' : i < p.length := by omega
      rw [List.getElem?_append_left hi', ← h.stored i hi']
      simp [hindex, hlast]

theorem cString_eq (h : r.Holds p) :
    cString (Function.update r.buffer r.index 0) = p.takeWhile (· ≠ 0) := by
  have hlen := h.length_le
  have hmap : (List.range p.length).map (Function.update r.buffer r.index 0) = p := by
    apply List.ext_getElem?
    intro i
    by_cases hi : i < p.length
    · have hne : i ≠ r.index := by rw [h.index]; omega
      rw [← h.stored i hi, List.getElem?_map, List.getElem?_range hi]
      simp [hne]
    · rw [List.getElem?_eq_none (by simp; omega), List.getElem?_eq_none (by omega)]
  have hsplit : nmeaBufferSize = p.length + (1 + (127 - p.length)) := by
    unfold nmeaBufferSize
    omega
  unfold cString
  rw [hsplit, List.range_add, List.map_append, hmap, List.takeWhile_append]
  split
  · rename_i hall
    have hzero : Function.update r.buffer r.index 0 p.length = 0 := by
      rw [h.index, Function.update_self]
    rw [Nat.add_comm 1, List.range_succ_eq_map]
    simp only [List.map_cons, Nat.add_zero, hzero]
    rw [List.takeWhile_cons_of_neg (by simp), List.append_nil]
    exact (List.IsPrefix.eq_of_length (List.takeWhile_prefix _) hall).symm
  · rfl

theorem step_trailer (h : r.Holds p) (hbusy : r.state ≠ .start)
    (hd : (trailer (xorAll p))[r.state.seen]? = some d) :
    (nmeaOnRxByte r d).1.state = r.state.next ∧
      (r.state ≠ .endLf → (nmeaOnRxByte r d).1.Holds p ∧ (nmeaOnRxByte r d).2 = []) ∧
      (r.state = .endLf → (nmeaOnRxByte r d).2 = [p.takeWhile (· ≠ 0)]) ∧
      (nmeaOnRxByte r d).1.index = r.index := by
  have hkeep : ∀ s, ({ r with state := s } : Receiver).Holds p := fun _ =>
    ⟨h.length_le, h.accepted, h.index, h.checksum, h.stored⟩
  cases hs : r.state with
  | start => exact absurd hs hbusy
  | payload =>
    rw [hs] at hd
    obtain rfl : (0x2a : UInt8) = d := by simpa [trailer, NmeaRxState.seen] using hd
    have hlow : ¬ (0x80 : UInt8) ≤ 0x2a := by decide
    simp [nmeaOnRxByte, hs, hlow, NmeaRxState.next, hkeep]
  | checksum1 =>
    rw [hs] at hd
    have hd : hexDigit (xorAll p / 16) = d := by simpa [trailer, NmeaRxState.seen] using hd
    have hcmp : nmeaCmpNibbleWithHexAscii (r.checksum >>> 4 &&& 0x0f) d = true := by
      rw [nmeaCmpNibble_iff, high_nibble, h.checksum, hd]
    simp [nmeaOnRxByte, hs, hcmp, NmeaRxState.next, hkeep]
  | checksum2 =>
    rw [hs] at hd
    have hd : hexDigit (xorAll p % 16) = d := by simpa [trailer, NmeaRxState.seen] using hd
    have hcmp : nmeaCmpNibbleWithHexAscii (r.checksum &&& 0x0f) d = true := by
      rw [nmeaCmpNibble_iff, low_nibble, h.checksum, hd]
    simp [nmeaOnRxByte, hs, hcmp, NmeaRxState.next, hkeep]
  | endCr =>
    rw [hs] at hd
    obtain rfl : (0x0d : UInt8) = d := by simpa [trailer, NmeaRxState.seen] using hd
    simp [nmeaOnRxByte, hs, NmeaRxState.next, hkeep]
  | endLf =>
    rw [hs] at hd
    obtain rfl : (0x0a : UInt8) = d := by simpa [trailer, NmeaRxState.seen] using hd
    simp [nmeaOnRxByte, hs, NmeaRxState.next, cString_eq h]

theorem step_other (h : r.Holds p) (hbusy : r.state ≠ .start)
    (hd : (trailer (xorAll p))[r.state.seen]? ≠ some d)
    (hp : r.state = .payload → ¬ Accepted d ∨ p.length = 126) :
    (nmeaOnRxByte r d).1.state = .start ∧ (nmeaOnRxByte r d).2 = [] ∧
      (nmeaOnRxByte r d).1.index < nmeaBufferSize := by
  have hindex := h.index
  have hlen := h.length_le
  have hbound : r.index < nmeaBufferSize := by
    unfold nmeaBufferSize
    omega
  cases hs : r.state with
  | start => exact absurd hs hbusy
  | payload =>
    rw [hs] at hd
    have hd : d ≠ 0x2a := fun he => hd (by simp [trailer, NmeaRxState.seen, he])
    by_cases hbad : d = 0x24 ∨ d = 0x0d ∨ d = 0x0a ∨ 0x80 ≤ d
    · simp only [nmeaOnRxByte, hs, if_pos hbad]
      exact ⟨trivial, trivial, hbound⟩
    · have hacc : Accepted d := by
        simp only [not_or, UInt8.not_le] at hbad
        exact ⟨hbad.2.2.2, hbad.1, hd, hbad.2.1, hbad.2.2.1⟩
      have hfull := (hp hs).resolve_left fun hn => hn hacc
      have hover : nmeaBufferSize - 1 ≤ r.index + 1 := by
        unfold nmeaBufferSize
        omega
      simp only [nmeaOnRxByte, hs, if_neg hbad, if_neg hd, if_pos hover]
      refine ⟨trivial, trivial, ?_⟩
      unfold nmeaBufferSize
      omega
  | checksum1 =>
    rw [hs] at hd
    have hd : d ≠ hexDigit (xorAll p / 16) := fun he => hd (by simp [trailer, NmeaRxState.seen, he])
    have hcmp : nmeaCmpNibbleWithHexAscii (r.checksum >>> 4 &&& 0x0f) d = false := by
      rw [nmeaCmpNibble_eq_false_iff, high_nibble, h.checksum]
      exact hd
    simp [nmeaOnRxByte, hs, hcmp, hbound]
  | checksum2 =>
    rw [hs] at hd
    have hd : d ≠ hexDigit (xorAll p % 16) := fun he => hd (by simp [trailer, NmeaRxState.seen, he])
    have hcmp : nmeaCmpNibbleWithHexAscii (r.checksum &&& 0x0f) d = false := by
      rw [nmeaCmpNibble_eq_false_iff, low_nibble, h.checksum]
      exact hd
    simp [nmeaOnRxByte, hs, hcmp, hbound]
  | endCr =>
    rw [hs] at hd
    have hd : d ≠ 0x0d := fun he => hd (by simp [trailer, NmeaRxState.seen, he])
    simp [nmeaOnRxByte, hs, hd, hbound]
  | endLf =>
    rw [hs] at hd
    have hd : d ≠ 0x0a := fun he => hd (by simp [trailer, NmeaRxState.seen, he])
    simp [nmeaOnRxByte, hs, hd, hbound]

/-- Inside a sentence a byte is the next one of the trailer, one more of the payload, or an
error. -/
theorem step_cases (h : r.Holds p) (hbusy : r.state ≠ .start) (d : UInt8) :
    (trailer (xorAll p))[r.state.seen]? = some d ∨
      (r.state = .payload ∧ Accepted d ∧ p.length < 126) ∨
      ((nmeaOnRxByte r d).1.state = .start ∧ (nmeaOnRxByte r d).2 = [] ∧
        (nmeaOnRxByte r d).1.index < nmeaBufferSize) := by
  by_cases hd : (trailer (xorAll p))[r.state.seen]? = some d
  · exact .inl hd
  · by_cases hp : r.state = .payload ∧ Accepted d ∧ p.length < 126
    · exact .inr (.inl hp)
    · right
      right
      apply step_other h hbusy hd
      intro hstate
      by_contra hcon
      rw [not_or, not_not] at hcon
      have := h.length_le
      exact hp ⟨hstate, hcon.1, by omega⟩

end step

section sentences

theorem hexDigit_ne_dollar {n : UInt8} (hn : n.toNat < 16) : hexDigit n ≠ 0x24 := by
  have hall : ∀ i ∈ List.range 16, hexDigit (UInt8.ofNat i) ≠ 0x24 := by decide
  have := hall n.toNat (List.mem_range.mpr hn)
  rwa [UInt8.ofNat_toNat] at this

theorem dollar_notMem_trailer (c : UInt8) : 0x24 ∉ trailer c := by
  have hc := c.toNat_lt
  have hhigh : (c / 16).toNat < 16 := by
    rw [UInt8.toNat_div]
    change c.toNat / 16 < 16
    omega
  have hlow : (c % 16).toNat < 16 := by
    rw [UInt8.toNat_mod]
    exact Nat.mod_lt _ (by decide)
  simp [trailer, (hexDigit_ne_dollar hhigh).symm, (hexDigit_ne_dollar hlow).symm]

theorem dollar_notMem_tail (h : ∀ d ∈ p, Accepted d) : 0x24 ∉ p ++ trailer (xorAll p) := by
  rw [List.mem_append]
  rintro (hmem | hmem)
  · exact (h _ hmem).2.1 rfl
  · exact dollar_notMem_trailer _ hmem

theorem length_sentence : (sentence p).length = p.length + 6 := by
  simp [sentence, trailer]

theorem sentence_suffix {s : List UInt8} (h : ∀ d ∈ p, Accepted d) (hlen : s.length ≤ p.length)
    {pre pre' : List UInt8} (heq : pre ++ sentence p = pre' ++ sentence s) : s.length = p.length := by
  have hsuffix : sentence s <:+ sentence p := by
    have hs : sentence s <:+ pre ++ sentence p := ⟨pre', heq.symm⟩
    apply List.suffix_of_suffix_length_le hs
    · exact ⟨pre, rfl⟩
    · rw [length_sentence, length_sentence]
      omega
  obtain ⟨x, hx⟩ := hsuffix
  cases x with
  | nil =>
    have := congrArg List.length hx
    rw [List.nil_append, length_sentence, length_sentence] at this
    omega
  | cons y x =>
    have htail : x ++ sentence s = p ++ trailer (xorAll p) := (List.cons.inj hx).2
    refine absurd ?_ (dollar_notMem_tail h)
    rw [← htail]
    simp [sentence]

/-- A sentence without its LF. -/
def front (p : List UInt8) : List UInt8 := 0x24 :: (p ++ (trailer (xorAll p)).take 4)

theorem sentence_eq_front : sentence p = front p ++ [0x0a] := by
  simp [sentence, front, trailer]

theorem txLoop_eq {c : UInt8} (h : ∀ d ∈ p, d ≠ 0) : txLoop c p = (p, p.foldl (· ^^^ ·) c) := by
  induction p generalizing c with
  | nil => rfl
  | cons d p ih =>
    have hd := h d List.mem_cons_self
    simp only [txLoop, if_neg hd, ih fun e he => h e (List.mem_cons_of_mem _ he), List.foldl_cons]

theorem nmeaTxFrame_eq (h : ∀ d ∈ p, d ≠ 0) : nmeaTxFrame (0x24 :: p) = sentence p := by
  have hloop : txLoop 0x24 (0x24 :: p) = (0x24 :: p, xorAll p) := by
    rw [txLoop_eq]
    · simp [xorAll]
    · intro d hd
      rcases List.mem_cons.mp hd with rfl | hd
      · decide
      · exact h d hd
  have hdigit : ∀ n : UInt8, (if n < 0x0a then n + 0x30 else n + (0x41 - 10)) = hexDigit n := by
    intro n
    unfold hexDigit
    split
    · apply UInt8.add_comm
    · rw [UInt8.add_comm, UInt8.sub_eq_add_neg n, UInt8.add_comm n, ← UInt8.add_assoc]
      rfl
  have hhigh : ∀ c : UInt8, c < 0xa0 ↔ c / 16 < 0x0a := by
    intro c
    rw [UInt8.lt_iff_toNat_lt, UInt8.lt_iff_toNat_lt, UInt8.toNat_div]
    change c.toNat < 160 ↔ c.toNat / 16 < 10
    omega
  simp only [nmeaTxFrame, hloop, hhigh, high_nibble, hdigit]
  simp only [low_nibble]
  rfl

end sentences

section forward

theorem after_payload {q : List UInt8} (h : r.Holds q) (hstate : r.state = .payload)
    (hacc : ∀ d ∈ p, Accepted d) (hlen : q.length + p.length ≤ 126) :
    (nmeaOnRxByte.after r p).state = .payload ∧ (nmeaOnRxByte.after r p).Holds (q ++ p) ∧
      nmeaOnRxByte.outputs r p = [] := by
  induction p generalizing r q with
  | nil => exact ⟨hstate, by rwa [List.append_nil], rfl⟩
  | cons d p ih =>
    rw [List.length_cons] at hlen
    obtain ⟨hs, hholds, hout⟩ := step_payload h hstate (hacc d List.mem_cons_self) (by omega)
    obtain ⟨hs', hholds', hout'⟩ := ih hholds hs (fun e he => hacc e (List.mem_cons_of_mem _ he))
      (by rw [List.length_append, List.length_singleton]; omega)
    refine ⟨hs', ?_, ?_⟩
    · rwa [List.append_assoc] at hholds'
    · rw [StreamMachine.outputs_cons, hout, hout']
      rfl

theorem after_trailer (h : r.Holds p) (hstate : r.state = .payload) :
    (nmeaOnRxByte.after r ((trailer (xorAll p)).take 4)).state = .endLf ∧
      (nmeaOnRxByte.after r ((trailer (xorAll p)).take 4)).Holds p ∧
      nmeaOnRxByte.outputs r ((trailer (xorAll p)).take 4) = [] := by
  have hone : ∀ {r' : Receiver} {d : UInt8}, r'.Holds p → r'.state ≠ .start → r'.state ≠ .endLf →
      (trailer (xorAll p))[r'.state.seen]? = some d →
      (nmeaOnRxByte r' d).1.state = r'.state.next ∧ (nmeaOnRxByte r' d).1.Holds p ∧
        (nmeaOnRxByte r' d).2 = [] := by
    intro r' d hholds hbusy hend hd
    obtain ⟨hnext, hkeep, -, -⟩ := step_trailer hholds hbusy hd
    exact ⟨hnext, (hkeep hend).1, (hkeep hend).2⟩
  obtain ⟨s1, h1, o1⟩ := hone (d := 0x2a) h (by simp [hstate]) (by simp [hstate]) (by rw [hstate]; rfl)
  rw [hstate] at s1
  obtain ⟨s2, h2, o2⟩ := hone (d := hexDigit (xorAll p / 16)) h1 (by simp [s1, NmeaRxState.next])
    (by simp [s1, NmeaRxState.next]) (by rw [s1]; rfl)
  rw [s1] at s2
  obtain ⟨s3, h3, o3⟩ := hone (d := hexDigit (xorAll p % 16)) h2 (by simp [s2, NmeaRxState.next])
    (by simp [s2, NmeaRxState.next]) (by rw [s2]; rfl)
  rw [s2] at s3
  obtain ⟨s4, h4, o4⟩ := hone (d := 0x0d) h3 (by simp [s3, NmeaRxState.next])
    (by simp [s3, NmeaRxState.next]) (by rw [s3]; rfl)
  rw [s3] at s4
  refine ⟨s4, h4, ?_⟩
  simp only [trailer, List.take_succ_cons, List.take_zero, StreamMachine.outputs_cons,
    StreamMachine.outputs_nil, o1, o2, o3, o4, List.append_nil]

theorem after_front (hs : r.state = .start) (hlen : p.length ≤ 126) (hacc : ∀ d ∈ p, Accepted d) :
    (nmeaOnRxByte.after r (front p)).state = .endLf ∧ (nmeaOnRxByte.after r (front p)).Holds p ∧
      nmeaOnRxByte.outputs r (front p) = [] := by
  have hdollar := step_start (d := 0x24) hs rfl
  unfold front
  rw [StreamMachine.after_cons, StreamMachine.outputs_cons, StreamMachine.after_append,
    StreamMachine.outputs_append, hdollar]
  obtain ⟨hs1, hholds, hout⟩ := after_payload (holds_nil (r := r)) rfl hacc (by simpa using hlen)
  rw [List.nil_append] at hholds
  obtain ⟨hs2, hholds2, hout2⟩ := after_trailer hholds hs1
  refine ⟨hs2, hholds2, ?_⟩
  simp only [hout, hout2, List.append_nil]

theorem sentence_delivered (hs : r.state = .start) (hlen : p.length ≤ 126) (hacc : ∀ d ∈ p, Accepted d) :
    (nmeaOnRxByte (nmeaOnRxByte.after r (front p)) 0x0a).1.state = .start ∧
      (nmeaOnRxByte (nmeaOnRxByte.after r (front p)) 0x0a).2 = [p.takeWhile (· ≠ 0)] := by
  obtain ⟨hend, hholds, -⟩ := after_front hs hlen hacc
  obtain ⟨hnext, -, hout, -⟩ := step_trailer (d := 0x0a) hholds (by simp [hend]) (by rw [hend]; rfl)
  rw [hend] at hnext
  exact ⟨hnext, hout hend⟩

theorem takeWhile_payload (h : Payload p) : p.takeWhile (· ≠ 0) = p := by
  apply List.takeWhile_eq_self_iff.mpr
  intro d hd
  simpa using h.nonzero d hd

end forward

end Lpc1788Libraries.Nmea

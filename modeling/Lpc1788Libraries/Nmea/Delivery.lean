import Lpc1788Libraries.Nmea.Framing

namespace Lpc1788Libraries.Nmea

open Lpc1788Libraries.Support

variable {r r0 : Receiver} {p l : List UInt8} {d : UInt8}

section invariant

/-- The receiver is inside a sentence that began at the `$` after `pre`. -/
structure Receiving (r0 : Receiver) (l pre p : List UInt8) (r : Receiver) : Prop where
  busy : r.state ≠ .start
  stream : l = pre ++ 0x24 :: p ++ (trailer (xorAll p)).take r.state.seen
  idle : (nmeaOnRxByte.after r0 pre).state = .start
  holds : r.Holds p

structure Progress (r0 : Receiver) (l : List UInt8) (r : Receiver) : Prop where
  index_lt : r.index < nmeaBufferSize
  place : r.state = .start ∨ ∃ pre p, Receiving r0 l pre p r

theorem Receiver.Holds.index_lt (h : r.Holds p) : r.index < nmeaBufferSize := by
  have := h.length_le
  rw [h.index]
  unfold nmeaBufferSize
  omega

theorem take_seen_next {c : UInt8} {s : NmeaRxState} (hs : s ≠ .start) (hend : s ≠ .endLf)
    (hd : (trailer c)[s.seen]? = some d) :
    (trailer c).take s.seen ++ [d] = (trailer c).take s.next.seen := by
  have hsucc : s.next.seen = s.seen + 1 := by
    cases s <;> first | rfl | contradiction
  rw [hsucc, List.take_add_one, hd]
  rfl

theorem progress_step (h : Progress r0 l (nmeaOnRxByte.after r0 l)) :
    Progress r0 (l ++ [d]) (nmeaOnRxByte (nmeaOnRxByte.after r0 l) d).1 := by
  obtain ⟨hindex, hs | ⟨pre, p, hbusy, hstream, hidle, hholds⟩⟩ := h
  · by_cases hd : d = 0x24
    · rw [step_start hs hd]
      refine ⟨holds_nil.index_lt, .inr ⟨l, [], ?_⟩⟩
      constructor
      · simp
      · rw [hd]
        simp [NmeaRxState.seen]
      · exact hs
      · exact holds_nil
    · rw [step_start_other hs hd]
      exact ⟨hindex, .inl hs⟩
  · rcases step_cases hholds hbusy d with hd | ⟨hstate, hacc, hlen⟩ | hstep
    · obtain ⟨hnext, hkeep, -, hsame⟩ := step_trailer hholds hbusy hd
      refine ⟨by rw [hsame]; exact hindex, ?_⟩
      by_cases hend : (nmeaOnRxByte.after r0 l).state = .endLf
      · left
        rw [hnext, hend]
        rfl
      · right
        refine ⟨pre, p, ?_, ?_, hidle, (hkeep hend).1⟩
        · rw [hnext]
          cases hs : (nmeaOnRxByte.after r0 l).state <;>
            first | exact absurd hs hend | exact absurd hs hbusy | simp [NmeaRxState.next]
        · rw [hnext, ← take_seen_next hbusy hend hd, ← List.append_assoc, ← hstream]
    · obtain ⟨hs, hholds', -⟩ := step_payload hholds hstate hacc hlen
      refine ⟨hholds'.index_lt, .inr ⟨pre, p ++ [d], ?_, ?_, hidle, hholds'⟩⟩
      · simp [hs]
      · rw [hstate] at hstream
        rw [hs, hstream]
        simp [NmeaRxState.seen]
    · exact ⟨hstep.2.2, .inl hstep.1⟩

theorem progress (hs : r0.state = .start) (hindex : r0.index < nmeaBufferSize) (l : List UInt8) :
    Progress r0 l (nmeaOnRxByte.after r0 l) :=
  StreamMachine.after_induction ⟨hindex, .inl hs⟩ (fun _ _ h => progress_step h) l

/-- What is handed over at a byte is what the sentence that ends there holds before its first
zero. -/
theorem delivered (hs : r0.state = .start) (hindex : r0.index < nmeaBufferSize) {s : List UInt8}
    (h : s ∈ (nmeaOnRxByte (nmeaOnRxByte.after r0 l) d).2) :
    d = 0x0a ∧ ∃ pre p, l ++ [d] = pre ++ sentence p ∧ (nmeaOnRxByte.after r0 pre).state = .start ∧
      p.length ≤ 126 ∧ (∀ e ∈ p, Accepted e) ∧ s = p.takeWhile (· ≠ 0) := by
  rcases (progress hs hindex l).place with hstart | ⟨pre, p, hbusy, hstream, hidle, hholds⟩
  · by_cases hd : d = 0x24
    · rw [step_start hstart hd] at h
      cases h
    · rw [step_start_other hstart hd] at h
      cases h
  · rcases step_cases hholds hbusy d with hd | ⟨hstate, hacc, hlen⟩ | hstep
    · obtain ⟨-, hkeep, hout, -⟩ := step_trailer hholds hbusy hd
      by_cases hend : (nmeaOnRxByte.after r0 l).state = .endLf
      · rw [hout hend, List.mem_singleton] at h
        rw [hend] at hd hstream
        obtain rfl : (0x0a : UInt8) = d := by simpa [trailer, NmeaRxState.seen] using hd
        refine ⟨rfl, pre, p, ?_, hidle, hholds.length_le, hholds.accepted, h⟩
        rw [hstream, sentence_eq_front]
        simp [front, NmeaRxState.seen]
      · rw [(hkeep hend).2] at h
        cases h
    · rw [(step_payload hholds hstate hacc hlen).2.2] at h
      cases h
    · rw [hstep.2.1] at h
      cases h

end invariant

section framing

/-- The round trip, and what the string handler may see of the stream `l`. -/
structure FramingHolds (r0 : Receiver) (l : List UInt8) : Prop where
  round_trip : ∀ p, Payload p → ∀ r : Receiver, r.state = .start →
    nmeaOnRxByte.outputs r (nmeaTxFrame (0x24 :: p)) = [p] ∧
      (nmeaOnRxByte.after r (nmeaTxFrame (0x24 :: p))).state = .start
  sound : ∀ q d, q ++ [d] <+: l → ∀ s ∈ (nmeaOnRxByte (nmeaOnRxByte.after r0 q) d).2,
    d = 0x0a ∧ ∃ pre, q ++ [d] = pre ++ sentence s
  index_lt : ∀ q, q <+: l → (nmeaOnRxByte.after r0 q).index < nmeaBufferSize

theorem round_trip (h : Payload p) (hs : r.state = .start) :
    nmeaOnRxByte.outputs r (nmeaTxFrame (0x24 :: p)) = [p] ∧
      (nmeaOnRxByte.after r (nmeaTxFrame (0x24 :: p))).state = .start := by
  obtain ⟨-, -, hnone⟩ := after_front hs h.length_le h.accepted
  obtain ⟨hstart, hout⟩ := sentence_delivered hs h.length_le h.accepted
  rw [nmeaTxFrame_eq h.nonzero, sentence_eq_front]
  constructor
  · rw [StreamMachine.outputs_concat, hnone, hout, takeWhile_payload h]
    rfl
  · rw [StreamMachine.after_concat]
    exact hstart

theorem zero_cuts_string (pre : List UInt8) (hfront : pre ++ sentence p <+: l) (hlen : p.length ≤ 126)
    (hacc : ∀ d ∈ p, Accepted d) (hidle : (nmeaOnRxByte.after r0 pre).state = .start) (hzero : 0 ∈ p) :
    ¬ FramingHolds r0 l := by
  intro h
  have hout := (sentence_delivered hidle hlen hacc).2
  rw [← StreamMachine.after_append] at hout
  rw [sentence_eq_front, ← List.append_assoc] at hfront
  obtain ⟨-, pre', heq⟩ := h.sound _ _ hfront (p.takeWhile (· ≠ 0)) (by rw [hout]; simp)
  rw [List.append_assoc, ← sentence_eq_front] at heq
  have hsame := sentence_suffix hacc (List.IsPrefix.length_le (List.takeWhile_prefix _)) heq
  have hall := List.IsPrefix.eq_of_length (List.takeWhile_prefix _) hsame
  have hnonzero := List.takeWhile_eq_self_iff.mp hall 0 hzero
  simp at hnonzero

theorem framing_iff (r : Receiver) (l : List UInt8) :
    FramingHolds (nmeaInit r) l ↔
      ∀ pre p, pre ++ sentence p <+: l → p.length ≤ 126 → (∀ d ∈ p, Accepted d) →
        (nmeaOnRxByte.after (nmeaInit r) pre).state = .start → 0 ∉ p := by
  have hindex : (nmeaInit r).index < nmeaBufferSize := Nat.zero_lt_succ 127
  constructor
  · intro h pre p hfront hlen hacc hidle hzero
    exact zero_cuts_string pre hfront hlen hacc hidle hzero h
  · intro h
    constructor
    · intro p hp r' hs
      exact round_trip hp hs
    · intro q d hfront s hmem
      obtain ⟨hd, pre, p, heq, hidle, hlen, hacc, hs⟩ := delivered rfl hindex hmem
      have hnone := h pre p (heq ▸ hfront) hlen hacc hidle
      have hall : p.takeWhile (· ≠ 0) = p :=
        takeWhile_payload ⟨hlen, hacc, fun d hd hzero => hnone (hzero ▸ hd)⟩
      exact ⟨hd, pre, by rw [hs, hall, heq]⟩
    · intro q hfront
      exact (progress rfl hindex q).index_lt

/-- `$`, `a`, NUL, `*61`, CR, LF: the handler finds `a`. -/
theorem framing_not_sound :
    ¬ FramingHolds (nmeaInit ⟨.start, 0, 0, fun _ => 0⟩)
      [0x24, 0x61, 0x00, 0x2a, 0x36, 0x31, 0x0d, 0x0a] := by
  apply zero_cuts_string [] (p := [0x61, 0x00])
  · decide
  · decide
  · exact List.forall_mem_cons.mpr ⟨by decide, List.forall_mem_singleton.mpr (by decide)⟩
  · rfl
  · decide

end framing

section resynchronisation

/-- Nothing is handed over before the LF of the sentence, and its payload there. -/
def DeliveredAtLf (r : Receiver) (p : List UInt8) : Prop :=
  nmeaOnRxByte.outputs r (front p) = [] ∧ (nmeaOnRxByte (nmeaOnRxByte.after r (front p)) 0x0a).2 = [p]

theorem deliveredAtLf_of_start (h : Payload p) (hs : r.state = .start) : DeliveredAtLf r p := by
  refine ⟨(after_front hs h.length_le h.accepted).2.2, ?_⟩
  rw [(sentence_delivered hs h.length_le h.accepted).2, takeWhile_payload h]

theorem dollar_lost (h : r.Holds p) (hbusy : r.state ≠ .start) :
    (nmeaOnRxByte r 0x24).1.state = .start ∧ (nmeaOnRxByte r 0x24).2 = [] := by
  have hstep := step_other (d := 0x24) h hbusy
    (fun hd => dollar_notMem_trailer _ (List.mem_of_getElem? hd)) (fun _ => .inl fun hacc => hacc.2.1 rfl)
  exact ⟨hstep.1, hstep.2.1⟩

theorem not_deliveredAtLf {q : List UInt8} (hp : Payload p) (h : r.Holds q) (hbusy : r.state ≠ .start) :
    ¬ DeliveredAtLf r p := by
  obtain ⟨hstart, hnone⟩ := dollar_lost h hbusy
  have hquiet : ∀ t d, t.state = .start → d ≠ 0x24 →
      (nmeaOnRxByte t d).1.state = .start ∧ (nmeaOnRxByte t d).2 = [] := by
    intro t d ht hd
    rw [step_start_other ht hd]
    exact ⟨ht, rfl⟩
  have hrest : ∀ d ∈ p ++ (trailer (xorAll p)).take 4, d ≠ 0x24 := by
    rintro d hd rfl
    apply dollar_notMem_tail hp.accepted
    rw [List.mem_append] at hd ⊢
    exact hd.imp_right List.mem_of_mem_take
  have hafter := (StreamMachine.quiet hquiet hstart hrest).1
  rintro ⟨-, hlf⟩
  unfold front at hlf
  rw [StreamMachine.after_cons, (hquiet _ 0x0a hafter (by decide)).2] at hlf
  cases hlf

theorem resynchronises_iff (r : Receiver) (l p : List UInt8) (hp : Payload p) :
    DeliveredAtLf (nmeaOnRxByte.after (nmeaInit r) l) p ↔
      (nmeaOnRxByte.after (nmeaInit r) l).state = .start := by
  constructor
  · intro h
    by_contra hbusy
    have hplace : Progress (nmeaInit r) l _ := progress rfl (Nat.zero_lt_succ 127) l
    obtain ⟨pre, q, hrec⟩ := hplace.place.resolve_left hbusy
    exact not_deliveredAtLf hp hrec.holds hbusy h
  · exact deliveredAtLf_of_start hp

theorem resynchronises_iff_noise :
    DeliveredAtLf (nmeaOnRxByte.after (nmeaInit ⟨.payload, 7, 0, fun _ => 0⟩) [0x41, 0x42]) [0x47, 0x50] ↔
      (nmeaOnRxByte.after (nmeaInit ⟨.payload, 7, 0, fun _ => 0⟩) [0x41, 0x42]).state = .start :=
  resynchronises_iff _ _ _ ⟨by decide, List.forall_mem_cons.mpr ⟨by decide, List.forall_mem_singleton.mpr
    (by decide)⟩, List.forall_mem_cons.mpr ⟨by decide, List.forall_mem_singleton.mpr (by decide)⟩⟩

/-- A sentence cut short after `$G` takes the next one with it. -/
theorem sentence_lost_after_truncated :
    Payload [0x41] ∧
      ¬ DeliveredAtLf (nmeaOnRxByte.after (nmeaInit ⟨.start, 0, 0, fun _ => 0⟩) [0x24, 0x47]) [0x41] := by
  refine ⟨⟨by decide, List.forall_mem_singleton.mpr (by decide), List.forall_mem_singleton.mpr (by decide)⟩, ?_⟩
  rintro ⟨-, hlf⟩
  have hnone : (nmeaOnRxByte (nmeaOnRxByte.after (nmeaOnRxByte.after
      (nmeaInit ⟨.start, 0, 0, fun _ => 0⟩) [0x24, 0x47]) (front [0x41])) 0x0a).2 = [] := by decide
  rw [hnone] at hlf
  cases hlf

end resynchronisation

end Lpc1788Libraries.Nmea

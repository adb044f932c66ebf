import Lpc1788Libraries.WiFi.BufferFind
import Lpc1788Libraries.WiFi.Esp8266

namespace Lpc1788Libraries.WiFi

open Lpc1788Libraries.Support BoundedProgram BoundedProgram.Prog

variable {b : Buffer} {data : List UInt8} {e e' : Esp8266}

/-- The loop over the rest of the needle, as a walk along the list. -/
theorem matchLoop_returns (i out num retval : ℕ) (looked : List ℕ) {l : List UInt8} (hl : l = data.drop i) (hi : i ≤ data.length ∨ i = 1) :
    ∃ looked',
    (Prog.loop (matchRound b data) (i, out, num)).Returns looked
      ((findRest b l i out num retval).1, (findRest b l i out num retval).2.1, (findRest b l i out num retval).2.2.1) looked' ∧
    ((findRest b l i out num retval).1 = data.length → (findRest b l i out num retval).2.2.2 = retval) ∧
    ((findRest b l i out num retval).1 ≠ data.length →
      (findRest b l i out num retval).2.2.2 = retval + ((findRest b l i out num retval).1 - 1)) := by
  induction l generalizing i out num looked with
  | nil =>
    have hend := List.drop_eq_nil_iff.mp hl.symm
    refine ⟨looked, loop_inr ?_, fun _ => rfl, fun hne => ?_⟩
    · simp only [matchRound, findRest, Nat.not_lt.mpr hend, if_false]
      exact returns_pure.mpr ⟨rfl, rfl⟩
    · simp only [findRest] at hne ⊢
      omega
  | cons x l ih =>
    have hlt : i < data.length := by
      by_contra hge
      rw [List.drop_eq_nil_of_le (by omega)] at hl
      cases hl
    rw [List.drop_eq_getElem_cons hlt] at hl
    obtain ⟨rfl, hrest⟩ := List.cons.inj hl
    have hget : data.getD i 0 = data[i] := by simp [hlt]
    by_cases hdiff : b.mem (if b.size ≤ out then 0 else out) ≠ data[i]
    · have hstop : findRest b (data[i] :: l) i out num retval = (i, if b.size ≤ out then 0 else out, num, retval + (i - 1)) := by
        rw [findRest, if_pos hdiff]
      rw [hstop]
      refine ⟨looked ++ [outIndex b out], loop_inr ?_, fun h => absurd h (Nat.ne_of_lt hlt), fun _ => rfl⟩
      simp only [matchRound, hlt, if_true, lookAt, outIndex, bind_assoc, pure_bind, modify_bind_returns, hget, hdiff,
        not_false_eq_true, ne_eq]
      exact returns_pure.mpr ⟨rfl, rfl⟩
    · obtain ⟨looked', hr, hend⟩ := ih (i + 1) ((if b.size ≤ out then 0 else out) + 1)
        ((num + 0xffffffff) % 0x100000000) (looked ++ [outIndex b out]) hrest (.inl hlt)
      have hstep : findRest b (data[i] :: l) i out num retval = findRest b l (i + 1)
          ((if b.size ≤ out then 0 else out) + 1) ((num + 0xffffffff) % 0x100000000) retval := by
        rw [findRest, if_neg hdiff]
      rw [hstep]
      refine ⟨looked', loop_inl ?_ hr, hend⟩
      simp only [matchRound, hlt, if_true, lookAt, outIndex, bind_assoc, pure_bind, modify_bind_returns, hget, hdiff,
        if_false]
      exact returns_pure.mpr ⟨rfl, rfl⟩

/-- The variables of the two searches, of which one has `retval` in 32 bits. -/
def SameVars (x : ℕ × ℕ × ℕ × Bool) (y : Bool × ℕ × ℕ × ℕ) : Prop :=
  ∃ r, y = (x.2.2.2, x.2.1, x.1, r) ∧ r % 0x100000000 = x.2.2.1 % 0x100000000 ∧ x.1 < 0x100000000

/-- A result of `bufferFind` as the `int32_t` that the function returns. -/
def findResult : Option ℕ → ℤ
  | none => -1
  | some k => int32 k

theorem bmod_congr {m n : ℤ} {k : ℕ} (h : m % k = n % k) : m.bmod k = n.bmod k := by
  rw [← Int.emod_bmod, h, Int.emod_bmod]

theorem int32_congr {m n : ℕ} (h : m % 0x100000000 = n % 0x100000000) : int32 m = int32 n := by
  unfold int32
  exact bmod_congr (by omega)

theorem findRest_num (l : List UInt8) (i out num retval : ℕ) (h : num < 0x100000000) :
    (findRest b l i out num retval).2.2.1 < 0x100000000 := by
  induction l generalizing i out num with
  | nil => exact h
  | cons x l ih =>
    simp only [findRest]
    generalize (if b.size ≤ out then 0 else out) = out
    by_cases hdiff : b.mem out ≠ x
    · rw [if_pos hdiff]
      exact h
    · rw [if_neg hdiff]
      exact ih _ _ _ (Nat.mod_lt _ (by decide))

/-- A round of one search is a round of the other. -/
theorem findRound_returns {x : ℕ × ℕ × ℕ × Bool} {y : Bool × ℕ × ℕ × ℕ} {z : (ℕ × ℕ × ℕ × Bool) ⊕ Option ℕ}
    (hxy : SameVars x y) (h : (bufferFindRound b data data.length x).Returns e z e') (looked : List ℕ) :
    ∃ z' looked', (findRound b data y).Returns looked z' looked' ∧
      (∀ x', z = .inl x' → ∃ y', z' = .inl y' ∧ SameVars x' y') ∧ ∀ k, z = .inr k → z' = .inr (findResult k) := by
  obtain ⟨num, out, retval, found⟩ := x
  obtain ⟨r, rfl, hr, hnum⟩ := hxy
  simp only at hr hnum
  unfold bufferFindRound at h
  by_cases h0 : num = 0
  · simp only [h0, if_true] at h
    obtain ⟨rfl, -⟩ := returns_pure.mp h
    refine ⟨.inr (-1), looked, ?_, (fun x' hx' => by cases hx'), (fun k hk => by cases hk; rfl)⟩
    simp only [findRound, h0, Nat.lt_irrefl, if_false]
    exact returns_pure.mpr ⟨rfl, rfl⟩
  have hpos : 0 < num := Nat.pos_of_ne_zero h0
  have hwrap : (num + 0xffffffff) % 0x100000000 = num - 1 := by omega
  simp only [h0, if_false, List.take_length] at h
  simp only [findRound, hpos, if_true, lookAt, outIndex, bind_assoc, pure_bind, modify_bind_returns, hwrap]
  generalize (if b.size ≤ out then 0 else out) = out at h ⊢
  have hfound : (if b.mem out = data.getD 0 0 then true else found) = (found || decide (b.mem out = data.getD 0 0)) := by
    by_cases hc : b.mem out = data.getD 0 0
    · rw [if_pos hc, decide_eq_true hc, Bool.or_true]
    · rw [if_neg hc, decide_eq_false hc, Bool.or_false]
  rw [hfound]
  generalize (found || decide (b.mem out = data.getD 0 0)) = found at h ⊢
  cases found with
  | false =>
    obtain ⟨rfl, -⟩ := returns_pure.mp h
    refine ⟨_, looked ++ [out], returns_pure.mpr ⟨rfl, rfl⟩, ?_, fun k hk => by cases hk⟩
    intro x' hx'
    cases hx'
    refine ⟨_, rfl, r + 1, rfl, ?_, ?_⟩
    · simp only
      omega
    · simp only
      omega
  | true =>
    obtain ⟨looked', hloop, hsome, hnone⟩ := matchLoop_returns (b := b) 1 (out + 1) (num - 1) (retval + 1)
      (looked ++ [out]) (rfl : data.drop 1 = data.drop 1) (.inr rfl)
    have hn := findRest_num (b := b) (data.drop 1) 1 (out + 1) (num - 1) (retval + 1) (by omega)
    generalize findRest b (data.drop 1) 1 (out + 1) (num - 1) (retval + 1) = q at h hloop hsome hnone hn
    simp only [if_true] at h ⊢
    by_cases hall : q.1 = data.length
    · rw [if_pos hall] at h
      obtain ⟨rfl, -⟩ := returns_pure.mp h
      refine ⟨.inr (int32 (r + 1 + 0xffffffff)), looked', hloop.bind ?_, (fun x' hx' => by cases hx'), fun k hk => ?_⟩
      · simp only [hall, if_true]
        exact returns_pure.mpr ⟨rfl, rfl⟩
      · cases hk
        rw [hsome hall]
        refine congrArg Sum.inr (int32_congr ?_)
        omega
    · rw [if_neg hall] at h
      obtain ⟨rfl, -⟩ := returns_pure.mp h
      refine ⟨.inl (true, q.2.1, q.2.2.1, (r + 1 + (q.1 - 1)) % 0x100000000), looked', hloop.bind ?_, fun x' hx' => ?_,
        fun k hk => by cases hk⟩
      · simp only [hall, if_false]
        exact returns_pure.mpr ⟨rfl, rfl⟩
      · cases hx'
        refine ⟨_, rfl, _, rfl, ?_, hn⟩
        simp only [hnone hall]
        omega

/-- The two searches agree where the buffer has less than 2^32 bytes. -/
theorem bufferFind_agrees (hfull : bufferGetFull b < 0x100000000) {k : Option ℕ}
    (h : (bufferFind b data data.length).Returns e k e') :
    ∃ looked, (bufferFindInt32 b data).Returns [] (findResult k) looked := by
  unfold bufferFind at h
  unfold bufferFindInt32
  by_cases hshort : bufferGetFull b < data.length
  · rw [if_pos hshort] at h
    obtain ⟨rfl, -⟩ := returns_pure.mp h
    simp only [hshort, if_true]
    exact ⟨[], returns_pure.mpr ⟨rfl, rfl⟩⟩
  rw [if_neg hshort] at h
  simp only [hshort, if_false]
  let start : Bool × ℕ × ℕ × ℕ := (false, b.out, bufferGetFull b, 0)
  -- what the other search answers from here on, it answers from the start on
  let I : ℕ × ℕ × ℕ × Bool → Esp8266 → Prop := fun x _ => ∃ y looked, SameVars x y ∧ ∀ a looked',
    (Prog.loop (findRound b data) y).Returns looked a looked' → (Prog.loop (findRound b data) start).Returns [] a looked'
  refine loop_partial (I := I)
    (Q := fun k _ => ∃ looked, (Prog.loop (findRound b data) start).Returns [] (findResult k) looked)
    ?_ ?_ ⟨start, [], ⟨0, rfl, rfl, hfull⟩, fun _ _ hr => hr⟩ h
  · rintro x s x' t ⟨y, looked, hxy, hy⟩ hround
    obtain ⟨z', looked', hr, hinl, -⟩ := findRound_returns hxy hround looked
    obtain ⟨y', rfl, hxy'⟩ := hinl x' rfl
    exact ⟨y', looked', hxy', fun a l hl => hy a l (loop_inl hr hl)⟩
  · rintro x s k t ⟨y, looked, hxy, hy⟩ hround
    obtain ⟨z', looked', hr, -, hinr⟩ := findRound_returns hxy hround looked
    rw [hinr k rfl] at hr
    exact ⟨looked', hy _ _ (loop_inr hr)⟩

end Lpc1788Libraries.WiFi

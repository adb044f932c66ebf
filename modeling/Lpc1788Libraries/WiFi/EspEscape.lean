import Lpc1788Libraries.Support.BoundedProgram
import Lpc1788Libraries.WiFi.BufferFifo

namespace Lpc1788Libraries.WiFi

open Lpc1788Libraries.Support BoundedProgram

/-- A program that works on characters in memory. -/
abbrev CharM := Prog (ℕ → UInt8)

def loadChar (p : ℕ) : CharM UInt8 := do return (← Prog.get) p

def storeChar (p : ℕ) (c : UInt8) : CharM Unit := Prog.modify fun mem => Function.update mem p c

/-- The test for a comma, a double quote or a backslash. -/
def isSpecialChar (c : UInt8) : Prop := c = 0x2c ∨ c = 0x22 ∨ c = 0x5c

instance (c : UInt8) : Decidable (isSpecialChar c) := inferInstanceAs (Decidable (_ ∨ _ ∨ _))

/-- A round of the loop of `EscapeString`, for `str` and `str_ptr`. -/
def escapeRound : ℕ × ℕ → CharM (ℕ × ℕ ⊕ ℕ) := fun (str, strPtr) => do
  let c ← loadChar str
  if c ≠ 0 then
    let strPtr ← if isSpecialChar c then do
        storeChar strPtr 0x2f
        pure (strPtr + 1)
      else pure strPtr
    storeChar strPtr (← loadChar str)
    return .inl (str + 1, strPtr + 1)
  else
    return .inr strPtr

def escapeString (str buff : ℕ) : CharM ℕ := do
  let strPtr ← Prog.loop escapeRound (str, buff)
  storeChar strPtr 0
  return buff

/-- A round of the loop of `ReverseEscapeString`, for `str` and `str_ptr`. -/
def reverseEscapeRound : ℕ × ℕ → CharM (ℕ × ℕ ⊕ ℕ) := fun (str, strPtr) => do
  let c ← loadChar str
  if c ≠ 0 then
    let str ← if c = 0x2f then do
        if isSpecialChar (← loadChar (str + 1)) then pure (str + 1) else pure str
      else pure str
    storeChar strPtr (← loadChar str)
    return .inl (str + 1, strPtr + 1)
  else
    return .inr strPtr

def reverseEscapeString (str buff : ℕ) : CharM ℕ := do
  let strPtr ← Prog.loop reverseEscapeRound (str, buff)
  storeChar strPtr 0
  return buff

/-- The characters stand at `p`, with a NUL behind them. -/
def HoldsString (mem : ℕ → UInt8) : ℕ → List UInt8 → Prop
  | p, [] => mem p = 0
  | p, x :: s => mem p = x ∧ x ≠ 0 ∧ HoldsString mem (p + 1) s

def escaped : List UInt8 → List UInt8
  | [] => []
  | x :: s => if isSpecialChar x then 0x2f :: x :: escaped s else x :: escaped s

def unescaped : List UInt8 → List UInt8
  | [] => []
  | [x] => [x]
  | x :: y :: s => if x = 0x2f ∧ isSpecialChar y then y :: unescaped s else x :: unescaped (y :: s)

variable {mem mem' : ℕ → UInt8} {p q n : ℕ} {s t : List UInt8} {x : UInt8}

section characters

@[simp] theorem loadChar_bind {α : Type} {k : UInt8 → CharM α} {a : α} :
    (loadChar p >>= k).Returns mem a mem' ↔ (k (mem p)).Returns mem a mem' := by
  simp [loadChar]

@[simp] theorem storeChar_bind {α : Type} {k : Unit → CharM α} {a : α} :
    (storeChar p x >>= k).Returns mem a mem' ↔ (k ()).Returns (Function.update mem p x) a mem' := by
  simp [storeChar]

@[simp] theorem storeChar_returns {r : Unit} : (storeChar p x).Returns mem r mem' ↔ Function.update mem p x = mem' := by
  simp [storeChar]

theorem HoldsString.congr (h : HoldsString mem p s) (hsame : ∀ i, p ≤ i → i ≤ p + s.length → mem' i = mem i) :
    HoldsString mem' p s := by
  induction s generalizing p with
  | nil =>
    rw [HoldsString, hsame p (Nat.le_refl p) (Nat.le_add_right ..)]
    exact h
  | cons x s ih =>
    obtain ⟨hx, hne, hs⟩ := h
    rw [List.length_cons] at hsame
    refine ⟨?_, hne, ih hs fun i hi hi' => hsame i (by omega) (by omega)⟩
    rw [hsame p (Nat.le_refl p) (by omega), hx]

theorem HoldsString.update (h : HoldsString mem p s) (hq : q < p ∨ p + s.length < q) :
    HoldsString (Function.update mem q x) p s := by
  apply h.congr
  intro i hi hi'
  exact Function.update_of_ne (by omega) ..

theorem copyInto_snoc {l : List UInt8} :
    Function.update (copyInto mem p l) (p + l.length) x = copyInto mem p (l ++ [x]) := by
  induction l generalizing mem p with
  | nil => rw [List.nil_append, ← copyInto_update, copyInto_nil, copyInto_nil, List.length_nil, Nat.add_zero]
  | cons y l ih => rw [← copyInto_update, List.cons_append, ← copyInto_update, ← ih, List.length_cons, Nat.add_right_comm, Nat.add_assoc]

theorem holdsString_copyInto (hs : 0 ∉ s) : HoldsString (copyInto mem p (s ++ [0])) p s := by
  induction s generalizing mem p with
  | nil =>
    exact copyInto_inside (i := 0) rfl
  | cons x s ih =>
    obtain ⟨hx, hs⟩ := not_or.mp (List.mem_cons.not.mp hs)
    rw [List.cons_append, ← copyInto_update]
    refine ⟨?_, Ne.symm hx, ih hs⟩
    rw [copyInto_outside (.inl (Nat.lt_succ_self p)), Function.update_self]

end characters

section escape

theorem escape_loop (h : HoldsString mem p s) (hq : p + s.length < q ∨ q + (escaped s).length ≤ p) :
    (Prog.loop escapeRound (p, q)).Returns mem (q + (escaped s).length) (copyInto mem q (escaped s)) := by
  induction s generalizing mem p q with
  | nil =>
    apply Prog.loop_inr
    have hp : mem p = 0 := h
    rw [escaped, copyInto_nil]
    simp [escapeRound, hp]
  | cons x s ih =>
    obtain ⟨hp, hx, hs⟩ := h
    rw [List.length_cons] at hq
    by_cases hspecial : isSpecialChar x
    · have hescaped : escaped (x :: s) = 0x2f :: x :: escaped s := if_pos hspecial
      have hlen : q + (escaped (x :: s)).length = q + 1 + 1 + (escaped s).length := by
        rw [hescaped, List.length_cons, List.length_cons]
        omega
      rw [hlen] at hq ⊢
      rw [hescaped, ← copyInto_update, ← copyInto_update]
      have hload : Function.update mem q 0x2f p = x := by
        rw [Function.update_of_ne (by omega), hp]
      have hround : (escapeRound (p, q)).Returns mem (.inl (p + 1, q + 1 + 1))
          (Function.update (Function.update mem q 0x2f) (q + 1) x) := by
        simp [escapeRound, hp, hx, hspecial, hload]
      have hslash : HoldsString (Function.update mem q 0x2f) (p + 1) s := hs.update (by omega)
      have hchar : HoldsString (Function.update (Function.update mem q 0x2f) (q + 1) x) (p + 1) s := hslash.update (by omega)
      exact Prog.loop_inl hround (ih hchar (by omega))
    · have hescaped : escaped (x :: s) = x :: escaped s := if_neg hspecial
      have hlen : q + (escaped (x :: s)).length = q + 1 + (escaped s).length := by
        rw [hescaped, List.length_cons]
        omega
      rw [hlen] at hq ⊢
      rw [hescaped, ← copyInto_update]
      have hround : (escapeRound (p, q)).Returns mem (.inl (p + 1, q + 1)) (Function.update mem q x) := by
        simp [escapeRound, hp, hx, hspecial]
      have hchar : HoldsString (Function.update mem q x) (p + 1) s := hs.update (by omega)
      exact Prog.loop_inl hround (ih hchar (by omega))

theorem zero_not_mem_escaped (h : HoldsString mem p s) : 0 ∉ escaped s := by
  induction s generalizing p with
  | nil => exact List.not_mem_nil
  | cons x s ih =>
    have hs := ih h.2.2
    have hx : 0 ≠ x := Ne.symm h.2.1
    rw [escaped]
    split
    · rintro (_ | ⟨_, _ | ⟨_, hmem⟩⟩)
      · exact hx rfl
      · exact hs hmem
    · rintro (_ | ⟨_, hmem⟩)
      · exact hx rfl
      · exact hs hmem

end escape

section reverse

theorem reverseEscapeRound_copy (hp : mem p = x) (hx : x ≠ 0) (hno : ¬ (x = 0x2f ∧ isSpecialChar (mem (p + 1)))) :
    (reverseEscapeRound (p, q)).Returns mem (.inl (p + 1, q + 1)) (Function.update mem q x) := by
  by_cases hslash : x = 0x2f
  · have hnext : ¬ isSpecialChar (mem (p + 1)) := fun h => hno ⟨hslash, h⟩
    subst hslash
    simp [reverseEscapeRound, hp, hnext]
  · simp [reverseEscapeRound, hp, hx, hslash]

theorem reverseEscapeRound_skip (hp : mem p = 0x2f) (hy : isSpecialChar (mem (p + 1))) :
    (reverseEscapeRound (p, q)).Returns mem (.inl (p + 1 + 1, q + 1)) (Function.update mem q (mem (p + 1))) := by
  simp [reverseEscapeRound, hp, hy]

theorem reverseEscape_loop (h : HoldsString mem p t) (hq : p + t.length < q ∨ q + (unescaped t).length ≤ p) :
    (Prog.loop reverseEscapeRound (p, q)).Returns mem (q + (unescaped t).length) (copyInto mem q (unescaped t)) := by
  induction t using unescaped.induct generalizing mem p q with
  | case1 =>
    apply Prog.loop_inr
    have hp : mem p = 0 := h
    rw [unescaped, copyInto_nil]
    simp [reverseEscapeRound, hp]
  | case2 x =>
    obtain ⟨hp, hx, hend⟩ := h
    have hzero : mem (p + 1) = 0 := hend
    have hlast : Function.update mem q x (p + 1) = 0 := by
      rw [List.length_singleton, unescaped, List.length_singleton] at hq
      rw [Function.update_of_ne (by omega), hzero]
    have hround := reverseEscapeRound_copy (q := q) hp hx fun hno => absurd hno.2 (by rw [hzero]; decide)
    rw [unescaped, ← copyInto_update, copyInto_nil]
    apply Prog.loop_inl hround
    apply Prog.loop_inr
    simp [reverseEscapeRound, hlast]
  | case3 x y t hskip ih =>
    obtain ⟨hp, -, hy, -, ht⟩ := h
    have hunescaped : unescaped (x :: y :: t) = y :: unescaped t := if_pos hskip
    have hlen : q + (unescaped (x :: y :: t)).length = q + 1 + (unescaped t).length := by
      rw [hunescaped, List.length_cons]
      omega
    rw [List.length_cons, List.length_cons, hlen] at hq
    rw [hlen, hunescaped, ← copyInto_update]
    have hround := reverseEscapeRound_skip (q := q) (hp.trans hskip.1) (by rw [hy]; exact hskip.2)
    rw [hy] at hround
    have hchar : HoldsString (Function.update mem q y) (p + 1 + 1) t := ht.update (by omega)
    exact Prog.loop_inl hround (ih hchar (by omega))
  | case4 x y t hcopy ih =>
    obtain ⟨hp, hx, hrest⟩ := h
    have hunescaped : unescaped (x :: y :: t) = x :: unescaped (y :: t) := if_neg hcopy
    have hlen : q + (unescaped (x :: y :: t)).length = q + 1 + (unescaped (y :: t)).length := by
      rw [hunescaped, List.length_cons]
      omega
    rw [List.length_cons, hlen] at hq
    rw [hlen, hunescaped, ← copyInto_update]
    have hround := reverseEscapeRound_copy (q := q) hp hx (by rw [hrest.1]; exact hcopy)
    have hchar : HoldsString (Function.update mem q x) (p + 1) (y :: t) := hrest.update (by omega)
    exact Prog.loop_inl hround (ih hchar (by omega))

theorem escaped_head (h : x ∈ (escaped s).head?) : ¬ isSpecialChar x := by
  cases s with
  | nil => exact absurd h (by simp [escaped])
  | cons y s =>
    rw [escaped] at h
    split at h
    · obtain rfl : 0x2f = x := Option.some.inj h
      decide
    · next hy =>
      obtain rfl : y = x := Option.some.inj h
      exact hy

theorem unescaped_escaped : unescaped (escaped s) = s := by
  induction s with
  | nil => rfl
  | cons x s ih =>
    by_cases hspecial : isSpecialChar x
    · rw [escaped, if_pos hspecial, unescaped, if_pos ⟨rfl, hspecial⟩, ih]
    · rw [escaped, if_neg hspecial]
      cases hs : escaped s with
      | nil =>
        rw [hs] at ih
        rw [unescaped, ← ih, unescaped]
      | cons y t =>
        have hy : ¬ isSpecialChar y := escaped_head (s := s) (by rw [hs]; rfl)
        rw [unescaped, if_neg (fun h => hy h.2), ← hs, ih]

end reverse

section roundTrip

variable {str buff buff' room room' : ℕ}

/-- Two pieces of memory that do not meet. -/
def Apart (p n q m : ℕ) : Prop := p + n ≤ q ∨ q + m ≤ p

theorem escapeString_returns (h : HoldsString mem str s) (ha : Apart str (s.length + 1) buff ((escaped s).length + 1)) :
    (escapeString str buff).Returns mem buff (copyInto mem buff (escaped s ++ [0])) := by
  unfold Apart at ha
  apply (escape_loop h (by omega)).bind
  rw [storeChar_bind, copyInto_snoc]
  exact Prog.returns_pure.mpr ⟨rfl, rfl⟩

theorem reverseEscapeString_returns (h : HoldsString mem str t) (ha : Apart str (t.length + 1) buff ((unescaped t).length + 1)) :
    (reverseEscapeString str buff).Returns mem buff (copyInto mem buff (unescaped t ++ [0])) := by
  unfold Apart at ha
  apply (reverseEscape_loop h (by omega)).bind
  rw [storeChar_bind, copyInto_snoc]
  exact Prog.returns_pure.mpr ⟨rfl, rfl⟩

theorem HoldsString.zero_not_mem (h : HoldsString mem p s) : 0 ∉ s := by
  induction s generalizing p with
  | nil => exact List.not_mem_nil
  | cons x s ih =>
    rintro (_ | ⟨_, hmem⟩)
    · exact h.2.1 rfl
    · exact ih h.2.2 hmem

/-- The string comes back, and only the two buffers have been written. -/
theorem reverseEscape_escape (h : HoldsString mem str s) (hroom : (escaped s).length < room) (hroom' : s.length < room')
    (ha : Apart str (s.length + 1) buff room) (ha' : Apart buff room buff' room') :
    ∃ mem' mem'', (escapeString str buff).Returns mem buff mem' ∧ (reverseEscapeString buff buff').Returns mem' buff' mem'' ∧
      HoldsString mem'' buff' s ∧
      ∀ i, (i < buff ∨ buff + room ≤ i) → (i < buff' ∨ buff' + room' ≤ i) → mem'' i = mem i := by
  unfold Apart at ha ha'
  have hapart : Apart str (s.length + 1) buff ((escaped s).length + 1) := by
    unfold Apart
    omega
  have hescape := escapeString_returns h hapart
  have hheld : HoldsString (copyInto mem buff (escaped s ++ [0])) buff (escaped s) := holdsString_copyInto (zero_not_mem_escaped h)
  have hapart' : Apart buff ((escaped s).length + 1) buff' ((unescaped (escaped s)).length + 1) := by
    rw [unescaped_escaped]
    unfold Apart
    omega
  have hreverse := reverseEscapeString_returns hheld hapart'
  rw [unescaped_escaped] at hreverse
  refine ⟨_, _, hescape, hreverse, holdsString_copyInto h.zero_not_mem, ?_⟩
  intro i hi hi'
  rw [copyInto_outside, copyInto_outside]
  · rw [List.length_append, List.length_singleton]
    omega
  · rw [List.length_append, List.length_singleton]
    omega

/-- Memory that starts with the string `/,`. -/
def slashComma : ℕ → UInt8 := copyInto (fun _ => 0xff) 0 [0x2f, 0x2c, 0]

theorem slashComma_holds : HoldsString slashComma 0 [0x2f, 0x2c] := by
  refine ⟨rfl, by decide, rfl, by decide, rfl⟩

theorem reverseEscape_escape_slashComma : ∃ mem' mem'', (escapeString 0 8).Returns slashComma 8 mem' ∧
    (reverseEscapeString 8 16).Returns mem' 16 mem'' ∧ HoldsString mem'' 16 [0x2f, 0x2c] ∧
    ∀ i, (i < 8 ∨ 8 + 4 ≤ i) → (i < 16 ∨ 16 + 3 ≤ i) → mem'' i = slashComma i :=
  reverseEscape_escape slashComma_holds (by decide) (by decide) (.inl (by decide)) (.inl (by decide))

end roundTrip

end Lpc1788Libraries.WiFi

import Mathlib.Data.Nat.Basic
import Mathlib.Logic.Function.Iterate
import Mathlib.Order.RelClasses
import Mathlib.Tactic.Common

namespace Lpc1788Libraries.Support.BoundedProgram

/-- A stateful program run with a bound on the rounds of each of its loops. It has no result
when a loop needs more rounds, and raising the bound keeps every result. -/
structure Prog (σ α : Type) where
  run : ℕ → σ → Option (α × σ)
  mono : ∀ {n m : ℕ} {s : σ} {r : α × σ}, n ≤ m → run n s = some r → run m s = some r

variable {σ α β γ : Type}

namespace Prog

protected def ret (a : α) : Prog σ α := ⟨fun _ s => some (a, s), fun _ h => h⟩

protected def andThen (p : Prog σ α) (f : α → Prog σ β) : Prog σ β where
  run n s := (p.run n s).bind fun r => (f r.1).run n r.2
  mono := by
    intro n m s r hnm h
    obtain ⟨q, hq, hr⟩ := Option.bind_eq_some_iff.mp h
    exact Option.bind_eq_some_iff.mpr ⟨q, p.mono hnm hq, (f q.1).mono hnm hr⟩

instance : Monad (Prog σ) where
  pure := Prog.ret
  bind := Prog.andThen

theorem ext {p q : Prog σ α} (h : ∀ n s, p.run n s = q.run n s) : p = q := by
  cases p
  cases q
  congr
  funext n s
  exact h n s

instance : LawfulMonad (Prog σ) := by
  refine LawfulMonad.mk' _ ?_ (fun _ _ => rfl) ?_
  · intro α p
    refine ext fun n s => ?_
    change (p.run n s).bind _ = _
    cases p.run n s <;> rfl
  · intro α β γ p f g
    refine ext fun n s => ?_
    change ((p.run n s).bind _).bind _ = (p.run n s).bind _
    cases p.run n s <;> rfl

protected def get : Prog σ σ := ⟨fun _ s => some (s, s), fun _ h => h⟩

protected def modify (f : σ → σ) : Prog σ Unit := ⟨fun _ s => some ((), f s), fun _ h => h⟩

/-- A partial step; it has no result where the step is undefined. -/
protected def attempt (f : σ → Option (α × σ)) : Prog σ α := ⟨fun _ s => f s, fun _ h => h⟩

/-- A test that blocks for ever when it fails. -/
protected def check (c : Prop) [Decidable c] : Prog σ Unit :=
  ⟨fun _ s => if c then some ((), s) else none, fun _ h => h⟩

def rounds (body : β → Prog σ (β ⊕ α)) (n : ℕ) : ℕ → β → σ → Option (α × σ)
  | 0, _, _ => none
  | k + 1, x, s => ((body x).run n s).bind fun
    | (.inl y, t) => rounds body n k y t
    | (.inr a, t) => some (a, t)

theorem rounds_mono (body : β → Prog σ (β ⊕ α)) {n m k l : ℕ} (hnm : n ≤ m) (hkl : k ≤ l)
    {x : β} {s : σ} {r : α × σ} (h : rounds body n k x s = some r) :
    rounds body m l x s = some r := by
  induction k generalizing l x s with
  | zero => simp [rounds] at h
  | succ k ih =>
    obtain ⟨l, rfl⟩ : ∃ j, l = j + 1 := ⟨l - 1, by omega⟩
    obtain ⟨⟨y, t⟩, hy, ht⟩ := Option.bind_eq_some_iff.mp h
    refine Option.bind_eq_some_iff.mpr ⟨(y, t), (body x).mono hnm hy, ?_⟩
    cases y with
    | inl y => exact ih (by omega) ht
    | inr a => exact ht

/-- Repeats the body until it answers with `Sum.inr`. -/
def loop (body : β → Prog σ (β ⊕ α)) (x : β) : Prog σ α :=
  ⟨fun n s => rounds body n n x s, fun hnm h => rounds_mono body hnm hnm h⟩

def Returns (p : Prog σ α) (s : σ) (a : α) (t : σ) : Prop := ∃ n, p.run n s = some (a, t)

def Terminates (p : Prog σ α) (s : σ) : Prop := ∃ a t, p.Returns s a t

variable {p : Prog σ α} {s t u : σ} {a : α} {b : β}

theorem Returns.unique {b : α} (h : p.Returns s a t) (h' : p.Returns s b u) : a = b ∧ t = u := by
  obtain ⟨n, hn⟩ := h
  obtain ⟨m, hm⟩ := h'
  have e := (p.mono (le_max_left n m) hn).symm.trans (p.mono (le_max_right n m) hm)
  simpa using e

theorem Returns.terminates (h : p.Returns s a t) : p.Terminates s := ⟨a, t, h⟩

@[simp] theorem returns_pure {b : α} : (pure a : Prog σ α).Returns s b t ↔ a = b ∧ s = t := by
  change (∃ n, (Prog.ret a).run n s = some (b, t)) ↔ _
  simp [Prog.ret]

theorem returns_bind {f : α → Prog σ β} :
    (p >>= f).Returns s b u ↔ ∃ a t, p.Returns s a t ∧ (f a).Returns t b u := by
  constructor
  · rintro ⟨n, h⟩
    obtain ⟨⟨a, t⟩, ha, hb⟩ := Option.bind_eq_some_iff.mp h
    exact ⟨a, t, ⟨n, ha⟩, n, hb⟩
  · rintro ⟨a, t, ⟨n, hn⟩, m, hm⟩
    exact ⟨max n m, Option.bind_eq_some_iff.mpr ⟨(a, t), p.mono (le_max_left n m) hn,
      (f a).mono (le_max_right n m) hm⟩⟩

theorem Returns.bind {f : α → Prog σ β} (h : p.Returns s a t) (h' : (f a).Returns t b u) :
    (p >>= f).Returns s b u := returns_bind.mpr ⟨a, t, h, h'⟩

theorem Returns.leave {P : α → Prop} [DecidablePred P] {g : α → β} {f : α → Prog σ β} (h : p.Returns s a t)
    (ha : P a) : (p >>= fun a => if P a then pure (g a) else f a).Returns s (g a) t := by
  apply h.bind
  rw [if_pos ha]
  exact ⟨0, rfl⟩

theorem Returns.bind_iff {f : α → Prog σ β} (h : p.Returns s a t) :
    (p >>= f).Returns s b u ↔ (f a).Returns t b u := by
  refine ⟨fun h' => ?_, h.bind⟩
  obtain ⟨a', t', ha, hb⟩ := returns_bind.mp h'
  obtain ⟨rfl, rfl⟩ := h.unique ha
  exact hb

@[simp] theorem returns_map {f : α → β} :
    (f <$> p).Returns s b t ↔ ∃ a, p.Returns s a t ∧ f a = b := by
  rw [← bind_pure_comp, returns_bind]
  constructor
  · rintro ⟨a, u, ha, hb⟩
    obtain ⟨rfl, rfl⟩ := returns_pure.mp hb
    exact ⟨a, ha, rfl⟩
  · rintro ⟨a, ha, rfl⟩
    exact ⟨a, t, ha, returns_pure.mpr ⟨rfl, rfl⟩⟩

@[simp] theorem pure_bind_returns {f : α → Prog σ β} :
    ((pure a : Prog σ α) >>= f).Returns s b u ↔ (f a).Returns s b u :=
  Returns.bind_iff (returns_pure.mpr ⟨rfl, rfl⟩)

@[simp] theorem returns_get {r : σ} : (Prog.get : Prog σ σ).Returns s r t ↔ s = r ∧ s = t := by
  simp [Returns, Prog.get]

@[simp] theorem get_bind_returns {f : σ → Prog σ β} :
    (Prog.get >>= f).Returns s b u ↔ (f s).Returns s b u :=
  Returns.bind_iff (returns_get.mpr ⟨rfl, rfl⟩)

@[simp] theorem returns_modify {f : σ → σ} {r : Unit} :
    (Prog.modify f).Returns s r t ↔ f s = t := by
  simp [Returns, Prog.modify]

@[simp] theorem modify_bind_returns {f : σ → σ} {g : Unit → Prog σ β} :
    (Prog.modify f >>= g).Returns s b u ↔ (g ()).Returns (f s) b u :=
  Returns.bind_iff (returns_modify.mpr rfl)

@[simp] theorem returns_attempt {f : σ → Option (α × σ)} :
    (Prog.attempt f).Returns s a t ↔ f s = some (a, t) := by
  simp [Returns, Prog.attempt]

@[simp] theorem returns_check {c : Prop} [Decidable c] {r : Unit} :
    (Prog.check c : Prog σ Unit).Returns s r t ↔ c ∧ s = t := by
  by_cases hc : c <;> simp [Returns, Prog.check, hc]

@[simp] theorem check_bind_returns {c : Prop} [Decidable c] {f : Unit → Prog σ β} :
    (Prog.check c >>= f).Returns s b u ↔ c ∧ (f ()).Returns s b u := by
  by_cases hc : c
  · have h : (Prog.check c : Prog σ Unit).Returns s () s := returns_check.mpr ⟨hc, rfl⟩
    exact h.bind_iff.trans (by simp [hc])
  · simp [returns_bind, hc]

@[simp] theorem returns_ite {c : Prop} [Decidable c] {q : Prog σ α} :
    (if c then p else q).Returns s a t ↔ if c then p.Returns s a t else q.Returns s a t := by
  split <;> rfl

theorem Terminates.bind {f : α → Prog σ β} (h : p.Terminates s)
    (h' : ∀ a t, p.Returns s a t → (f a).Terminates t) : (p >>= f).Terminates s := by
  obtain ⟨a, t, ha⟩ := h
  obtain ⟨b, u, hb⟩ := h' a t ha
  exact ⟨b, u, ha.bind hb⟩

section loop

variable {body : β → Prog σ (β ⊕ α)} {x y : β}

theorem loop_inr (h : (body x).Returns s (.inr a) t) : (loop body x).Returns s a t := by
  obtain ⟨n, h⟩ := h
  refine ⟨n + 1, Option.bind_eq_some_iff.mpr ⟨(.inr a, t), (body x).mono (Nat.le_succ n) h, rfl⟩⟩

theorem loop_inl (h : (body x).Returns s (.inl y) t) (h' : (loop body y).Returns t a u) :
    (loop body x).Returns s a u := by
  obtain ⟨n, hn⟩ := h
  obtain ⟨m, hm⟩ := h'
  refine ⟨max n m + 1, Option.bind_eq_some_iff.mpr ⟨(.inl y, t), (body x).mono (by omega) hn, ?_⟩⟩
  exact rounds_mono body (by omega) (by omega) hm

theorem returns_loop : (loop body x).Returns s a u ↔
    (body x).Returns s (.inr a) u ∨
      ∃ y t, (body x).Returns s (.inl y) t ∧ (loop body y).Returns t a u := by
  constructor
  · rintro ⟨n, h⟩
    cases n with
    | zero => simp [loop, rounds] at h
    | succ n =>
      obtain ⟨⟨y, t⟩, hy, ht⟩ := Option.bind_eq_some_iff.mp h
      cases y with
      | inl y => exact .inr ⟨y, t, ⟨_, hy⟩, n + 1, rounds_mono body (Nat.le_refl _) (by omega) ht⟩
      | inr b =>
        obtain ⟨rfl, rfl⟩ : b = a ∧ t = u := by simpa using ht
        exact .inl ⟨_, hy⟩
  · rintro (h | ⟨y, t, h, h'⟩)
    · exact loop_inr h
    · exact loop_inl h h'

theorem loop_inl_iff (h : (body x).Returns s (.inl y) t) :
    (loop body x).Returns s a u ↔ (loop body y).Returns t a u := by
  refine ⟨fun h' => ?_, loop_inl h⟩
  rcases returns_loop.mp h' with h' | ⟨z, r, hz, hr⟩
  · simpa using (h.unique h').1
  · obtain ⟨e, rfl⟩ := h.unique hz
    cases e
    exact hr

theorem loop_total {I : ℕ → β → σ → Prop} {Q : α → σ → Prop}
    (step : ∀ k x s, I k x s → (∃ a t, (body x).Returns s (.inr a) t ∧ Q a t) ∨
      ∃ y t, (body x).Returns s (.inl y) t ∧ ∃ l < k, I l y t)
    {k : ℕ} (h : I k x s) : ∃ a t, (loop body x).Returns s a t ∧ Q a t := by
  induction k using Nat.strongRecOn generalizing x s with
  | ind k ih =>
    rcases step k x s h with ⟨a, t, hr, hq⟩ | ⟨y, t, hr, l, hl, hi⟩
    · exact ⟨a, t, loop_inr hr, hq⟩
    · obtain ⟨a, u, hu, hq⟩ := ih l hl hi
      exact ⟨a, u, loop_inl hr hu, hq⟩

theorem loop_partial {I : β → σ → Prop} {Q : α → σ → Prop}
    (stay : ∀ x s y t, I x s → (body x).Returns s (.inl y) t → I y t)
    (leave : ∀ x s a t, I x s → (body x).Returns s (.inr a) t → Q a t)
    (h : I x s) (hr : (loop body x).Returns s a t) : Q a t := by
  obtain ⟨n, hn⟩ := hr
  change rounds body n n x s = _ at hn
  generalize hk : n = k at hn
  rw [← hk] at hn
  clear hk
  revert hn
  generalize n = k
  intro hn
  have main : ∀ j (x : β) (s : σ), I x s → rounds body k j x s = some (a, t) → Q a t := by
    intro j
    induction j with
    | zero => intro x s _ h; simp [rounds] at h
    | succ j ih =>
      intro x s hi h
      obtain ⟨⟨y, r⟩, hy, ht⟩ := Option.bind_eq_some_iff.mp h
      cases y with
      | inl y => exact ih y r (stay x s y r hi ⟨k, hy⟩) ht
      | inr b =>
        obtain ⟨rfl, rfl⟩ : b = a ∧ r = t := by simpa using ht
        exact leave x s b r hi ⟨k, hy⟩
  exact main k x s h hn

theorem loop_diverges {I : β → σ → Prop}
    (step : ∀ x s z t, I x s → (body x).Returns s z t → ∃ y, z = .inl y ∧ I y t)
    (h : I x s) : ¬ (loop body x).Terminates s := by
  rintro ⟨a, t, hr⟩
  refine loop_partial (I := I) (Q := fun _ _ => False) ?_ ?_ h hr
  · intro x s y t hi hy
    obtain ⟨z, hz, hi'⟩ := step x s _ t hi hy
    cases hz
    exact hi'
  · intro x s a t hi ha
    obtain ⟨z, hz, _⟩ := step x s _ t hi ha
    cases hz

/-- A loop that starts with the value `x` answers after the rounds for the values of the list. -/
inductive Visits (body : β → Prog σ (β ⊕ α)) : β → List β → σ → α → σ → Prop
  | last {x : β} {s t : σ} {a : α} (h : (body x).Returns s (.inr a) t) : Visits body x [x] s a t
  | next {x y : β} {xs : List β} {s t u : σ} {a : α} (h : (body x).Returns s (.inl y) t)
      (h' : Visits body y xs t a u) : Visits body x (x :: xs) s a u

theorem Visits.returns {xs : List β} (h : Visits body x xs s a t) : (loop body x).Returns s a t := by
  induction h with
  | last h => exact loop_inr h
  | next h _ ih => exact loop_inl h ih

end loop

section within

variable {R : σ → σ → Prop} {f : α → Prog σ β} {body : β → Prog σ (β ⊕ α)}

/-- Every answer of the program relates the state before it to the state after it. -/
def Within (R : σ → σ → Prop) (p : Prog σ α) : Prop := ∀ ⦃s a t⦄, p.Returns s a t → R s t

theorem Within.weaken {S : σ → σ → Prop} (h : p.Within R) (hRS : ∀ s t, R s t → S s t) : p.Within S :=
  fun s _ t hr => hRS s t (h hr)

theorem within_pure [Std.Refl R] : (pure a : Prog σ α).Within R := by
  intro s b t h
  obtain ⟨_, rfl⟩ := returns_pure.mp h
  exact Std.Refl.refl s

theorem within_check [Std.Refl R] {c : Prop} [Decidable c] : (Prog.check c : Prog σ Unit).Within R := by
  intro s b t h
  obtain ⟨_, rfl⟩ := returns_check.mp h
  exact Std.Refl.refl s

theorem within_modify {g : σ → σ} (h : ∀ s, R s (g s)) : (Prog.modify g).Within R := by
  intro s b t hr
  rw [← returns_modify.mp hr]
  exact h s

theorem within_bind [IsTrans σ R] (h : p.Within R) (h' : ∀ a, (f a).Within R) :
    (p >>= f).Within R := by
  intro s b u hr
  obtain ⟨a, t, ha, hb⟩ := returns_bind.mp hr
  exact IsTrans.trans _ _ _ (h ha) (h' a hb)

theorem within_get_bind {f : σ → Prog σ β} (h : ∀ r, (f r).Within R) : (Prog.get >>= f).Within R :=
  fun s _ _ hr => h s (get_bind_returns.mp hr)

theorem within_map [IsTrans σ R] [Std.Refl R] {g : α → β} (h : p.Within R) : (g <$> p).Within R := by
  rw [← bind_pure_comp]
  exact within_bind h fun _ => within_pure

theorem within_ite {c : Prop} [Decidable c] {q : Prog σ α} (h : p.Within R) (h' : q.Within R) :
    (if c then p else q).Within R := by
  split
  · exact h
  · exact h'

theorem within_loop [IsTrans σ R] {x : β} (h : ∀ y, (body y).Within R) : (loop body x).Within R := by
  intro s a u hr
  -- the first state stays related to the state of every round
  have base : ∀ y t z v, (t = s ∨ R s t) → (body y).Returns t z v → R s v := by
    rintro y t z v (rfl | ht) hv
    · exact h y hv
    · exact IsTrans.trans _ _ _ ht (h y hv)
  refine loop_partial (I := fun _ t => t = s ∨ R s t) (Q := fun _ v => R s v) ?_ ?_ (.inl rfl) hr
  · exact fun y t z v ht hv => .inr (base y t _ v ht hv)
  · exact fun y t b v ht hv => base y t _ v ht hv

/-- What the program does not change. -/
def Same (g : σ → γ) (s t : σ) : Prop := g s = g t

instance {g : σ → γ} : Std.Refl (Same g) := ⟨fun _ => rfl⟩

instance {g : σ → γ} : IsTrans σ (Same g) := ⟨fun _ _ _ => Eq.trans⟩

theorem within_attempt {g : σ → Option (α × σ)} (h : ∀ s a t, g s = some (a, t) → R s t) :
    (Prog.attempt g).Within R := fun s a t hr => h s a t (returns_attempt.mp hr)

end within

section answers

variable {P : β → Prop} {f : α → Prog σ β} {q : Prog σ β}

/-- What every answer of the program satisfies, whatever state it starts in. -/
def Answers (P : β → Prop) (q : Prog σ β) : Prop := ∀ ⦃s b t⦄, q.Returns s b t → P b

theorem answers_pure {b : β} (h : P b) : (pure b : Prog σ β).Answers P := by
  intro s b' t hr
  obtain ⟨rfl, -⟩ := returns_pure.mp hr
  exact h

theorem answers_bind (h : ∀ a, (f a).Answers P) : (p >>= f).Answers P := by
  intro s b t hr
  obtain ⟨a, u, -, hb⟩ := returns_bind.mp hr
  exact h a hb

theorem answers_ite {c : Prop} [Decidable c] {q' : Prog σ β} (h : q.Answers P) (h' : q'.Answers P) :
    (if c then q else q').Answers P := by
  split
  · exact h
  · exact h'

theorem within_bind_answers {R : σ → σ → Prop} [IsTrans σ R] {S : α → Prop} (h : p.Within R) (hS : p.Answers S)
    (h' : ∀ a, S a → (f a).Within R) : (p >>= f).Within R := by
  intro s b u hr
  obtain ⟨a, t, ha, hb⟩ := returns_bind.mp hr
  exact IsTrans.trans _ _ _ (h ha) (h' a (hS ha) hb)

/-- Whenever the program answers, the state it leaves satisfies the condition. -/
def Leaves (S : σ → Prop) (p : Prog σ α) : Prop := ∀ ⦃s a t⦄, p.Returns s a t → S t

theorem leaves_bind {S : σ → Prop} (h : ∀ a, (f a).Leaves S) : (p >>= f).Leaves S := by
  intro s b u hr
  obtain ⟨a, t, -, hb⟩ := returns_bind.mp hr
  exact h a hb

theorem leaves_ite {S : σ → Prop} {c : Prop} [Decidable c] {q : Prog σ α} (h : p.Leaves S) (h' : q.Leaves S) :
    (if c then p else q).Leaves S := by
  split
  · exact h
  · exact h'

theorem leaves_modify {S : σ → Prop} {g : σ → σ} (h : ∀ s, S (g s)) : (Prog.modify g).Leaves S := by
  intro s a t hr
  rw [← returns_modify.mp hr]
  exact h s

end answers

section total

variable {f : α → Prog σ β} {q : Prog σ α}

/-- The program answers in every state. -/
def Total (p : Prog σ α) : Prop := ∀ s, p.Terminates s

theorem total_pure : (pure a : Prog σ α).Total := fun s => ⟨a, s, returns_pure.mpr ⟨rfl, rfl⟩⟩

theorem total_modify {g : σ → σ} : (Prog.modify g).Total := fun s => ⟨(), g s, returns_modify.mpr rfl⟩

theorem total_bind (h : p.Total) (h' : ∀ a, (f a).Total) : (p >>= f).Total :=
  fun s => (h s).bind fun a t _ => h' a t

theorem total_ite {c : Prop} [Decidable c] (h : p.Total) (h' : q.Total) : (if c then p else q).Total := by
  split
  · exact h
  · exact h'

theorem Terminates.map {g : α → β} (h : p.Terminates s) : (g <$> p).Terminates s := by
  obtain ⟨a, t, hr⟩ := h
  exact ⟨g a, t, returns_map.mpr ⟨a, hr, rfl⟩⟩

end total

section achieves

variable {Q : α → σ → Prop} {Q' : β → σ → Prop} {f : α → Prog σ β} {q : Prog σ α}

/-- The program answers, and its answer and the state after it satisfy the condition. -/
def Achieves (p : Prog σ α) (s : σ) (Q : α → σ → Prop) : Prop := ∃ a t, p.Returns s a t ∧ Q a t

theorem Achieves.terminates (h : p.Achieves s Q) : p.Terminates s := by
  obtain ⟨a, t, hr, -⟩ := h
  exact ⟨a, t, hr⟩

theorem Terminates.achieves (h : p.Terminates s) : p.Achieves s fun _ _ => True := by
  obtain ⟨a, t, hr⟩ := h
  exact ⟨a, t, hr, trivial⟩

theorem Achieves.imp {R : α → σ → Prop} (h : p.Achieves s Q) (hQR : ∀ a t, Q a t → R a t) :
    p.Achieves s R := by
  obtain ⟨a, t, hr, hq⟩ := h
  exact ⟨a, t, hr, hQR a t hq⟩

theorem achieves_pure (h : Q a s) : (pure a : Prog σ α).Achieves s Q :=
  ⟨a, s, returns_pure.mpr ⟨rfl, rfl⟩, h⟩

theorem Returns.achieves (h : p.Returns s a t) (h' : (f a).Achieves t Q') : (p >>= f).Achieves s Q' := by
  obtain ⟨b, u, hb, hq⟩ := h'
  exact ⟨b, u, h.bind hb, hq⟩

theorem Achieves.bind (h : p.Achieves s Q) (h' : ∀ a t, Q a t → (f a).Achieves t Q') :
    (p >>= f).Achieves s Q' := by
  obtain ⟨a, t, hr, hq⟩ := h
  exact hr.achieves (h' a t hq)

theorem achieves_get_bind {f : σ → Prog σ β} (h : (f s).Achieves s Q') :
    (Prog.get >>= f).Achieves s Q' := by
  obtain ⟨b, u, hb, hq⟩ := h
  exact ⟨b, u, get_bind_returns.mpr hb, hq⟩

theorem achieves_modify_bind {g : σ → σ} {f : Unit → Prog σ β} (h : (f ()).Achieves (g s) Q') :
    (Prog.modify g >>= f).Achieves s Q' := by
  obtain ⟨b, u, hb, hq⟩ := h
  exact ⟨b, u, modify_bind_returns.mpr hb, hq⟩

theorem Achieves.map {g : α → β} (h : p.Achieves s fun a t => Q' (g a) t) : (g <$> p).Achieves s Q' := by
  obtain ⟨a, t, hr, hq⟩ := h
  exact ⟨g a, t, returns_map.mpr ⟨a, hr, rfl⟩, hq⟩

theorem loop_achieves {body : β → Prog σ (β ⊕ α)} {I : ℕ → β → σ → Prop}
    (step : ∀ k x s, I k x s → (body x).Achieves s fun z t =>
      (∃ a, z = .inr a ∧ Q a t) ∨ ∃ y, z = .inl y ∧ ∃ l < k, I l y t)
    {k : ℕ} {x : β} (h : I k x s) : (loop body x).Achieves s Q := by
  apply loop_total (I := I) ?_ h
  intro k x s hi
  obtain ⟨z, t, hr, ⟨a, rfl, hq⟩ | ⟨y, rfl, l, hl, hi'⟩⟩ := step k x s hi
  · exact .inl ⟨a, t, hr, hq⟩
  · exact .inr ⟨y, t, hr, l, hl, hi'⟩

/-- A loop that goes along a walk comes to the `stop`, or it leaves the walk before. `A` holds
when it may answer with the stop itself. -/
theorem loop_walk {body : β → Prog σ (β ⊕ Option β)} {go : β → β} {stop : β} {I : β → Prop} {P : σ → Prop}
    {A : Prop} (hgo : ∀ x, I x → I (go x))
    (step : ∀ x s, I x → P s → (body x).Achieves s fun z t => z = .inr none ∨
      P t ∧ (z = .inr (some (go x)) ∧ (go x = stop → A) ∨ z = .inl (go x) ∧ go x ≠ stop))
    {x : β} {i : ℕ} (hx : I x) (hs : P s) (hi : 0 < i) (hstop : go^[i] x = stop) :
    (loop body x).Achieves s fun r t =>
      r = none ∨ ∃ j, 0 < j ∧ j ≤ i ∧ r = some (go^[j] x) ∧ (j = i → A) ∧ P t := by
  have hI : ∀ j, I (go^[j] x) := by
    intro j
    induction j with
    | zero => exact hx
    | succ j ih =>
      rw [Function.iterate_succ_apply']
      exact hgo _ ih
  refine loop_achieves (k := i) (I := fun d y t => ∃ j, 0 < d ∧ j + d = i ∧ y = go^[j] x ∧ P t) ?_ ?_
  · rintro d y t ⟨j, hd, hj, rfl, ht⟩
    have hsucc : go (go^[j] x) = go^[j + 1] x := (Function.iterate_succ_apply' go j x).symm
    have hlast : j + 1 = i → go (go^[j] x) = stop := by
      rintro rfl
      rw [hsucc, hstop]
    apply (step _ t (hI j) ht).imp
    rintro z u (rfl | ⟨hP, ⟨rfl, hQ⟩ | ⟨rfl, hne⟩⟩)
    · exact .inl ⟨none, rfl, .inl rfl⟩
    · exact .inl ⟨_, rfl, .inr ⟨j + 1, by omega, by omega, by rw [hsucc], fun h => hQ (hlast h), hP⟩⟩
    · have hne' : j + 1 ≠ i := fun h => hne (hlast h)
      exact .inr ⟨_, rfl, d - 1, by omega, j + 1, by omega, by omega, hsucc, hP⟩
  · exact ⟨0, hi, by omega, rfl, hs⟩

end achieves

end Prog

end Lpc1788Libraries.Support.BoundedProgram

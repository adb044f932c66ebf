import Mathlib.Data.Nat.Notation

namespace Lpc1788Libraries.Support

/-- A program with a state that can be looked at while the program still waits, where it has no
result. -/
def Waiting (σ α : Type) := σ → Option α × σ

namespace Waiting

variable {σ α β : Type}

def ret (a : α) : Waiting σ α := fun s => (some a, s)

def andThen (p : Waiting σ α) (f : α → Waiting σ β) : Waiting σ β := fun s =>
  match p s with
  | (some a, t) => f a t
  | (none, t) => (none, t)

instance : Monad (Waiting σ) where
  pure := ret
  bind := andThen

def get : Waiting σ σ := fun s => (some s, s)

def modify (f : σ → σ) : Waiting σ Unit := fun s => (some (), f s)

def stop : Waiting σ α := fun s => (none, s)

/-- A loop at which one looks after so many rounds at most. -/
def waitWhile (cond : Waiting σ Bool) (body : Waiting σ Unit) : ℕ → Waiting σ Unit
  | 0 => stop
  | n + 1 => do
    if ← cond then
      body
      waitWhile cond body n
    else pure ()

theorem bind_some {p : Waiting σ α} {f : α → Waiting σ β} {s t : σ} {a : α} (h : p s = (some a, t)) :
    (p >>= f) s = f a t := by
  change andThen p f s = _
  rw [andThen, h]

theorem bind_none {p : Waiting σ α} {f : α → Waiting σ β} {s t : σ} (h : p s = (none, t)) :
    (p >>= f) s = (none, t) := by
  change andThen p f s = _
  rw [andThen, h]

section triples

variable {I P : σ → Prop} {Q : α → σ → Prop} {R : β → σ → Prop} {p : Waiting σ α} {f : α → Waiting σ β}

/-- From a state with `P`, `I` holds wherever one looks, and `Q` at the end. -/
def Ensures (I P : σ → Prop) (p : Waiting σ α) (Q : α → σ → Prop) : Prop :=
  ∀ s, P s → I (p s).2 ∧ ∀ a, (p s).1 = some a → Q a (p s).2

theorem ensures_pure (hI : ∀ s, P s → I s) {a : α} (hQ : ∀ s, P s → Q a s) : Ensures I P (pure a) Q := by
  intro s hs
  refine ⟨hI s hs, fun b hb => ?_⟩
  cases hb
  exact hQ s hs

theorem ensures_modify {g : σ → σ} {Q : Unit → σ → Prop} (hI : ∀ s, P s → I (g s)) (hQ : ∀ s, P s → Q () (g s)) :
    Ensures I P (modify g) Q := fun s hs => ⟨hI s hs, fun _ _ => hQ s hs⟩

theorem Ensures.bind (h : Ensures I P p Q) (h' : ∀ a, Ensures I (Q a) (f a) R) : Ensures I P (p >>= f) R := by
  intro s hs
  obtain ⟨hI, hQ⟩ := h s hs
  rcases hp : p s with ⟨a, t⟩
  rw [hp] at hI hQ
  cases a with
  | none =>
    rw [bind_none hp]
    exact ⟨hI, fun b hb => absurd hb (Option.some_ne_none b).symm⟩
  | some a =>
    rw [bind_some hp]
    exact h' a t (hQ a rfl)

theorem ensures_get_bind {f : σ → Waiting σ β} (h : ∀ s, P s → Ensures I (fun t => t = s) (f s) R) :
    Ensures I P (get >>= f) R := fun s hs => h s hs s rfl

theorem Ensures.imp {P' : σ → Prop} {Q' : α → σ → Prop} (h : Ensures I P p Q) (hP : ∀ s, P' s → P s)
    (hQ : ∀ a s, Q a s → Q' a s) : Ensures I P' p Q' := by
  intro s hs
  obtain ⟨hI, hq⟩ := h s (hP s hs)
  exact ⟨hI, fun a ha => hQ a _ (hq a ha)⟩

theorem ensures_ite {c : Prop} [Decidable c] {q : Waiting σ α} (h : c → Ensures I P p Q) (h' : ¬c → Ensures I P q Q) :
    Ensures I P (if c then p else q) Q := by
  by_cases hc : c
  · rw [if_pos hc]
    exact h hc
  · rw [if_neg hc]
    exact h' hc

theorem ensures_waitWhile {cond : Waiting σ Bool} {body : Waiting σ Unit} (hI : ∀ s, P s → I s)
    (hcond : Ensures I P cond fun _ => P) (hbody : Ensures I P body fun _ => P) (n : ℕ) :
    Ensures I P (waitWhile cond body n) fun _ => P := by
  induction n with
  | zero => exact fun s hs => ⟨hI s hs, fun _ h => absurd h (Option.some_ne_none _).symm⟩
  | succ n ih =>
    apply hcond.bind
    intro b
    apply ensures_ite
    · exact fun _ => hbody.bind fun _ => ih
    · exact fun _ => ensures_pure hI fun _ hs => hs

end triples

section follows

variable {τ : Type} {view : σ → τ}

/-- The program ends, and on what one sees of its state it does what the function does. -/
def Follows (view : σ → τ) (p : Waiting σ α) (g : τ → τ × α) : Prop :=
  ∀ s, (p s).1 = some (g (view s)).2 ∧ view (p s).2 = (g (view s)).1

theorem follows_pure (a : α) : Follows view (pure a) fun t => (t, a) := fun _ => ⟨rfl, rfl⟩

theorem Follows.bind {p : Waiting σ α} {f : α → Waiting σ β} {g : τ → τ × α} {k : α → τ → τ × β}
    (h : Follows view p g) (h' : ∀ a, Follows view (f a) (k a)) :
    Follows view (p >>= f) fun t => k (g t).2 (g t).1 := by
  intro s
  obtain ⟨hres, hview⟩ := h s
  rcases hp : p s with ⟨a, t⟩
  rw [hp] at hres hview
  have hview : view t = (g (view s)).1 := hview
  rw [bind_some (hp.trans (congrArg (·, t) hres))]
  obtain ⟨hres', hview'⟩ := h' (g (view s)).2 t
  rw [hview] at hres' hview'
  exact ⟨hres', hview'⟩

theorem follows_modify {f : σ → σ} {g : τ → τ} (h : ∀ s, view (f s) = g (view s)) :
    Follows view (modify f) fun t => (g t, ()) := fun s => ⟨rfl, h s⟩

end follows

end Waiting

end Lpc1788Libraries.Support

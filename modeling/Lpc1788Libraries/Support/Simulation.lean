import Lpc1788Libraries.Support.BoundedProgram

namespace Lpc1788Libraries.Support.BoundedProgram

namespace Prog

variable {σ τ α β γ : Type}

/-- From states that `R` relates the second program can follow every answer of the first, and the
states after it are related by `S`. -/
def Simulates (R S : σ → τ → Prop) (p : Prog σ α) (q : Prog τ α) : Prop :=
  ∀ ⦃s s' a t⦄, R s s' → p.Returns s a t → ∃ t', q.Returns s' a t' ∧ S t t'

variable {R S T : σ → τ → Prop} {p : Prog σ α} {q : Prog τ α} {f : α → Prog σ β} {g : α → Prog τ β}

theorem Simulates.weaken {R' S' : σ → τ → Prop} (h : Simulates R S p q) (hR : ∀ s s', R' s s' → R s s')
    (hS : ∀ s s', S s s' → S' s s') : Simulates R' S' p q := by
  intro s s' a t hs hp
  obtain ⟨t', hq, ht⟩ := h (hR s s' hs) hp
  exact ⟨t', hq, hS t t' ht⟩

theorem simulates_pure {a : α} (h : ∀ s s', R s s' → S s s') :
    Simulates R S (pure a) (pure a) := by
  intro s s' b t hs hp
  obtain ⟨rfl, rfl⟩ := returns_pure.mp hp
  exact ⟨s', returns_pure.mpr ⟨rfl, rfl⟩, h s s' hs⟩

theorem simulates_bind (h : Simulates R S p q) (h' : ∀ a, Simulates S T (f a) (g a)) :
    Simulates R T (p >>= f) (q >>= g) := by
  intro s s' b u hs hp
  obtain ⟨a, t, ha, hb⟩ := returns_bind.mp hp
  obtain ⟨t', hq, ht⟩ := h hs ha
  obtain ⟨u', hg, hu⟩ := h' a ht hb
  exact ⟨u', hq.bind hg, hu⟩

theorem simulates_modify {f : σ → σ} {g : τ → τ} (h : ∀ s s', R s s' → S (f s) (g s')) :
    Simulates R S (Prog.modify f) (Prog.modify g) := by
  intro s s' b t hs hp
  refine ⟨g s', returns_modify.mpr rfl, ?_⟩
  rw [← returns_modify.mp hp]
  exact h s s' hs

theorem simulates_check {c : Prop} [Decidable c] :
    Simulates R R (Prog.check c : Prog σ Unit) (Prog.check c : Prog τ Unit) := by
  intro s s' b t hs hp
  obtain ⟨hc, rfl⟩ := returns_check.mp hp
  exact ⟨s', returns_check.mpr ⟨hc, rfl⟩, hs⟩

theorem simulates_ite {c : Prop} [Decidable c] {p' : Prog σ α} {q' : Prog τ α}
    (h : Simulates R S p q) (h' : Simulates R S p' q') :
    Simulates R S (if c then p else p') (if c then q else q') := by
  split
  · exact h
  · exact h'

theorem simulates_map {k : α → β} (h : Simulates R S p q) : Simulates R S (k <$> p) (k <$> q) := by
  intro s s' b t hs hp
  obtain ⟨a, ha, rfl⟩ := returns_map.mp hp
  obtain ⟨t', hq, ht⟩ := h hs ha
  exact ⟨t', returns_map.mpr ⟨a, hq, rfl⟩, ht⟩

theorem simulates_loop {body : β → Prog σ (β ⊕ α)} {body' : β → Prog τ (β ⊕ α)} {x : β}
    (h : ∀ y, Simulates R R (body y) (body' y)) : Simulates R R (loop body x) (loop body' x) := by
  intro s s' a t hs hp
  let I : β → σ → Prop := fun y u => ∃ u', R u u' ∧
    ∀ b v, (loop body' y).Returns u' b v → (loop body' x).Returns s' b v
  let Q : α → σ → Prop := fun b u => ∃ u', (loop body' x).Returns s' b u' ∧ R u u'
  apply loop_partial (I := I) (Q := Q) _ _ _ hp
  · rintro y u z v ⟨u', hu, hback⟩ hz
    obtain ⟨v', hz', hv⟩ := h y hu hz
    exact ⟨v', hv, fun b w hw => hback b w (loop_inl hz' hw)⟩
  · rintro y u b v ⟨u', hu, hback⟩ hb
    obtain ⟨v', hb', hv⟩ := h y hu hb
    exact ⟨v', hback b v' (loop_inr hb'), hv⟩
  · exact ⟨s', hs, fun b v hv => hv⟩

end Prog

end Lpc1788Libraries.Support.BoundedProgram

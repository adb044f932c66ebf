import Lpc1788Libraries.Touch.TouchPanel
import Mathlib.Data.Fin.Tuple.Sort
import Mathlib.Data.Fin.VecNotation
import Mathlib.Tactic.FinCases

namespace Lpc1788Libraries.Touch

section means

variable (a : Fin 3 → ℕ)

def distance (i j : Fin 3) : ℕ := ((a i : ℤ) - a j).natAbs

/-- Two of the means are close to each other. -/
def Close : Prop := ∃ i j, i ≠ j ∧ distance a i j ≤ THRESHOLD

/-- The truncated mean of two that are as close as any two. -/
def Closest (v : ℕ) : Prop := ∃ i j, i ≠ j ∧ v = (a i + a j) / 2 ∧ ∀ k l, k ≠ l → distance a i j ≤ distance a k l

/-- Two of the means are equal, or all are close. -/
def Level : Prop := (∃ i j, i ≠ j ∧ a i = a j) ∨ ∀ i j, distance a i j ≤ THRESHOLD

/-- The means grow from one to the next, around the end, and not all are close. -/
def Rising : Prop :=
  (a 0 < a 1 ∧ a 1 < a 2 ∧ a 0 + THRESHOLD < a 2) ∨ (a 1 < a 2 ∧ a 2 < a 0 ∧ a 1 + THRESHOLD < a 0) ∨
    (a 2 < a 0 ∧ a 0 < a 1 ∧ a 2 + THRESHOLD < a 1)

end means

variable {a : Fin 3 → ℕ} {v : ℕ}

theorem distance_comm (i j : Fin 3) : distance a i j = distance a j i := by
  unfold distance
  omega

theorem forall_pairs {p : ℕ → Prop} : (∀ i j, i ≠ j → p (distance a i j)) ↔
    p (distance a 0 1) ∧ p (distance a 1 2) ∧ p (distance a 0 2) := by
  constructor
  · intro h
    exact ⟨h 0 1 (by decide), h 1 2 (by decide), h 0 2 (by decide)⟩
  · rintro ⟨h01, h12, h02⟩ i j hij
    fin_cases i <;> fin_cases j
    all_goals first
      | exact absurd rfl hij
      | assumption
      | rw [distance_comm]; assumption

theorem exists_pair {p : ℕ → Prop} : (∃ i j, i ≠ j ∧ p (distance a i j)) ↔
    p (distance a 0 1) ∨ p (distance a 1 2) ∨ p (distance a 0 2) := by
  constructor
  · rintro ⟨i, j, hij, h⟩
    by_contra hn
    simp only [not_or] at hn
    exact (@forall_pairs a fun d => ¬ p d).mpr hn i j hij h
  · rintro (h | h | h)
    · exact ⟨0, 1, by decide, h⟩
    · exact ⟨1, 2, by decide, h⟩
    · exact ⟨0, 2, by decide, h⟩

theorem close_iff : Close a ↔ distance a 0 1 ≤ THRESHOLD ∨ distance a 1 2 ≤ THRESHOLD ∨ distance a 0 2 ≤ THRESHOLD :=
  @exists_pair a (· ≤ THRESHOLD)

section average

/-- The choice that `average` makes among the three differences. -/
def choose (a : Fin 3 → ℕ) (m0 m1 m2 : ℕ) : Option ℕ :=
  if m0 > THRESHOLD ∧ m1 > THRESHOLD ∧ m2 > THRESHOLD then none
  else if m0 < m1 then
    if m2 < m0 then some ((a 0 + a 2) / 2) else some ((a 0 + a 1) / 2)
  else if m2 < m1 then some ((a 0 + a 2) / 2)
  else some ((a 1 + a 2) / 2)

/-- A difference without a sign: one that would be negative is large. -/
def Wraps (x y m : ℕ) : Prop := y ≤ x ∧ m = x - y ∨ x < y ∧ m + y = 0x100000000 + x

theorem wraps_sub {x y : ℕ} (hx : x < 4096) (hy : y < 4096) :
    Wraps x y (if (x + 0x100000000 - y) % 0x100000000 > 0 then (x + 0x100000000 - y) % 0x100000000
      else (0x100000000 - (x + 0x100000000 - y) % 0x100000000) % 0x100000000) := by
  unfold Wraps
  split <;> omega

theorem average_eq (h : ∀ i, a i < 4096) : ∃ m0 m1 m2, Wraps (a 0) (a 1) m0 ∧ Wraps (a 1) (a 2) m1 ∧
    Wraps (a 2) (a 0) m2 ∧ average a = choose a m0 m1 m2 :=
  ⟨_, _, _, wraps_sub (h 0) (h 1), wraps_sub (h 1) (h 2), wraps_sub (h 2) (h 0), rfl⟩

theorem Wraps.far_iff {x y m : ℕ} (h : Wraps x y m) (hy : y < 4096) : m > THRESHOLD ↔ x < y ∨ y + THRESHOLD < x := by
  unfold Wraps at h
  unfold THRESHOLD
  omega

theorem distance_le_iff (i j : Fin 3) : distance a i j ≤ THRESHOLD ↔ a i ≤ a j + THRESHOLD ∧ a j ≤ a i + THRESHOLD := by
  unfold distance
  omega

theorem average_eq_none_iff (h : ∀ i, a i < 4096) : average a = none ↔ ¬ Close a ∨ Rising a := by
  obtain ⟨m0, m1, m2, h0, h1, h2, heq⟩ := average_eq h
  have hnone : choose a m0 m1 m2 = none ↔ m0 > THRESHOLD ∧ m1 > THRESHOLD ∧ m2 > THRESHOLD := by
    unfold choose
    split_ifs with hall <;> simp [hall]
  rw [heq, hnone, close_iff, h0.far_iff (h 1), h1.far_iff (h 2), h2.far_iff (h 0), distance_le_iff, distance_le_iff,
    distance_le_iff]
  unfold Rising
  constructor
  · rintro ⟨hfar0, hfar1, hfar2⟩
    omega
  · rintro (hfar | hrising | hrising | hrising)
    · omega
    · omega
    · omega
    · omega

theorem smallest_difference {x y z p q r : ℕ} (hx : x < 4096) (hy : y < 4096) (hp : Wraps x y p) (hq : Wraps y z q)
    (hr : Wraps z x r) (hpq : p ≤ q) (hpr : p ≤ r) (hnear : p ≤ THRESHOLD) :
    (x - y ≤ ((y : ℤ) - z).natAbs ∧ x - y ≤ ((x : ℤ) - z).natAbs ∧ y ≤ x) ∨ x = y + 2 ∧ z = y + 1 := by
  have hyx : y ≤ x ∧ p = x - y := by
    unfold Wraps at hp
    unfold THRESHOLD at hnear
    omega
  obtain ⟨hyx, rfl⟩ := hyx
  unfold THRESHOLD at hnear
  clear hp
  rcases hq with ⟨hzy, rfl⟩ | ⟨hyz, -⟩
  · left
    omega
  · rcases hr with ⟨hxz, rfl⟩ | ⟨hzx, -⟩
    · left
      omega
    · right
      omega

theorem closest_of_pairs {i j : Fin 3} (hij : i ≠ j) (hv : v = (a i + a j) / 2) (h01 : distance a i j ≤ distance a 0 1)
    (h12 : distance a i j ≤ distance a 1 2) (h02 : distance a i j ≤ distance a 0 2) : Closest a v :=
  ⟨i, j, hij, hv, (@forall_pairs a fun d => distance a i j ≤ d).mpr ⟨h01, h12, h02⟩⟩

theorem average_closest (h : ∀ i, a i < 4096) (hv : average a = some v) : Closest a v := by
  obtain ⟨m0, m1, m2, h0, h1, h2, heq⟩ := average_eq h
  have hfirst : m0 ≤ m1 → m0 ≤ m2 → m0 ≤ THRESHOLD → Closest a ((a 0 + a 1) / 2) := by
    intro h01 h02 hnear
    rcases smallest_difference (h 0) (h 1) h0 h1 h2 h01 h02 hnear with hmin | hnext
    · apply @closest_of_pairs a _ 0 1 (by decide) rfl <;> unfold distance <;> omega
    · apply @closest_of_pairs a _ 0 2 (by decide) (by omega) <;> unfold distance <;> omega
  have hsecond : m1 ≤ m2 → m1 ≤ m0 → m1 ≤ THRESHOLD → Closest a ((a 1 + a 2) / 2) := by
    intro h12 h10 hnear
    rcases smallest_difference (h 1) (h 2) h1 h2 h0 h12 h10 hnear with hmin | hnext
    · apply @closest_of_pairs a _ 1 2 (by decide) rfl <;> unfold distance <;> omega
    · apply @closest_of_pairs a _ 0 1 (by decide) (by omega) <;> unfold distance <;> omega
  have hthird : m2 ≤ m0 → m2 ≤ m1 → m2 ≤ THRESHOLD → Closest a ((a 0 + a 2) / 2) := by
    intro h20 h21 hnear
    rcases smallest_difference (h 2) (h 0) h2 h0 h1 h20 h21 hnear with hmin | hnext
    · apply @closest_of_pairs a _ 0 2 (by decide) rfl <;> unfold distance <;> omega
    · apply @closest_of_pairs a _ 1 2 (by decide) (by omega) <;> unfold distance <;> omega
  clear h0 h1 h2
  rw [heq] at hv
  unfold choose at hv
  split at hv
  · exact absurd hv (by simp)
  · rename_i hsome
    split at hv
    · split at hv
      · rw [← Option.some.inj hv]
        exact hthird (by omega) (by omega) (by omega)
      · rw [← Option.some.inj hv]
        exact hfirst (by omega) (by omega) (by omega)
    · split at hv
      · rw [← Option.some.inj hv]
        exact hthird (by omega) (by omega) (by omega)
      · rw [← Option.some.inj hv]
        exact hsecond (by omega) (by omega) (by omega)

end average

section order

theorem distance_comp (σ : Equiv.Perm (Fin 3)) (i j : Fin 3) : distance (a ∘ σ) i j = distance a (σ i) (σ j) := rfl

theorem comp_symm (a : Fin 3 → ℕ) (σ : Equiv.Perm (Fin 3)) : (a ∘ σ) ∘ σ.symm = a := by
  funext i
  exact congrArg a (σ.apply_symm_apply i)

theorem Close.of_comp {σ : Equiv.Perm (Fin 3)} (h : Close (a ∘ σ)) : Close a := by
  obtain ⟨i, j, hij, hd⟩ := h
  exact ⟨σ i, σ j, fun he => hij (σ.injective he), hd⟩

theorem close_comp (σ : Equiv.Perm (Fin 3)) : Close (a ∘ σ) ↔ Close a := by
  constructor
  · exact Close.of_comp
  · intro h
    rw [← comp_symm a σ] at h
    exact h.of_comp

theorem Closest.of_comp {σ : Equiv.Perm (Fin 3)} (h : Closest (a ∘ σ) v) : Closest a v := by
  obtain ⟨i, j, hij, hv, hmin⟩ := h
  refine ⟨σ i, σ j, fun he => hij (σ.injective he), hv, ?_⟩
  intro k l hkl
  have hne : σ.symm k ≠ σ.symm l := fun he => hkl (σ.symm.injective he)
  have hle := hmin (σ.symm k) (σ.symm l) hne
  rwa [distance_comp, distance_comp, σ.apply_symm_apply, σ.apply_symm_apply] at hle

theorem Level.comp (σ : Equiv.Perm (Fin 3)) (h : Level a) : Level (a ∘ σ) := by
  rcases h with ⟨i, j, hij, he⟩ | hall
  · refine Or.inl ⟨σ.symm i, σ.symm j, fun h => hij (σ.symm.injective h), ?_⟩
    change a (σ (σ.symm i)) = a (σ (σ.symm j))
    rw [σ.apply_symm_apply, σ.apply_symm_apply, he]
  · exact Or.inr fun i j => hall (σ i) (σ j)

theorem Level.not_rising (h : Level a) : ¬ Rising a := by
  unfold Rising
  rcases h with ⟨i, j, hij, he⟩ | hall
  · have hd : distance a i j = 0 := by
      unfold distance
      omega
    have hpair := (@exists_pair a (· = 0)).mp ⟨i, j, hij, hd⟩
    unfold distance at hpair
    omega
  · have h01 := hall 0 1
    have h12 := hall 1 2
    have h02 := hall 0 2
    unfold distance at h01 h12 h02
    omega

theorem exists_rising (h : ¬ Level a) : ∃ σ : Equiv.Perm (Fin 3), Rising (a ∘ σ) := by
  refine ⟨Tuple.sort a, Or.inl ?_⟩
  have hmono := Tuple.monotone_sort a
  have hlevel : ¬ Level (a ∘ Tuple.sort a) := by
    intro hl
    have hback := hl.comp (Tuple.sort a).symm
    rw [comp_symm] at hback
    exact h hback
  generalize a ∘ Tuple.sort a = b at hmono hlevel
  have h01 : b 0 ≤ b 1 := hmono (by decide)
  have h12 : b 1 ≤ b 2 := hmono (by decide)
  unfold Level at hlevel
  rw [not_or] at hlevel
  obtain ⟨hne, hfar⟩ := hlevel
  have hne01 : b 0 ≠ b 1 := fun he => hne ⟨0, 1, by decide, he⟩
  have hne12 : b 1 ≠ b 2 := fun he => hne ⟨1, 2, by decide, he⟩
  refine ⟨by omega, by omega, ?_⟩
  by_contra hle
  apply hfar
  have hall := (@forall_pairs b (· ≤ THRESHOLD)).mpr (by unfold distance; omega)
  intro i j
  by_cases hij : i = j
  · rw [hij]
    unfold distance
    omega
  · exact hall i j hij

end order

/-- Three groups of three samples. -/
abbrev Samples := Fin 3 → Fin 3 → Coordinate

namespace Samples

variable (s : Samples)

/-- The samples one after the other. -/
def inOrder (i : ℕ) : Coordinate := s (Fin.ofNat 3 (i / 3)) (Fin.ofNat 3 (i % 3))

def meanX (k : Fin 3) : ℕ := ((s k 0).x + (s k 1).x + (s k 2).x) / 3

def meanY (k : Fin 3) : ℕ := ((s k 0).y + (s k 1).y + (s k 2).y) / 3

/-- The coordinates have twelve bits. -/
def Fits : Prop := ∀ k i, (s k i).x < 4096 ∧ (s k i).y < 4096

/-- A coordinate is returned where on both axes two means are close, and is the mean of two of the closest. -/
def Filtered (penirq : ℕ → Bool) : Prop :=
  let r := readXtp2046 s.inOrder penirq
  (r.2 = true ↔ Close s.meanX ∧ Close s.meanY) ∧ (r.2 = true → Closest s.meanX r.1.x ∧ Closest s.meanY r.1.y)

/-- The order of the groups makes no difference but between means of closest pairs. -/
def OrderFree (penirq : ℕ → Bool) : Prop :=
  let r := readXtp2046 s.inOrder penirq
  ∀ σ : Equiv.Perm (Fin 3),
    let r' := readXtp2046 (inOrder (s ∘ σ)) penirq
    r'.2 = r.2 ∧ (r.2 = true →
      (r'.1.x = r.1.x ∨ Closest s.meanX r.1.x ∧ Closest s.meanX r'.1.x) ∧
      (r'.1.y = r.1.y ∨ Closest s.meanY r.1.y ∧ Closest s.meanY r'.1.y))

end Samples

section read

variable {s : Samples} {penirq : ℕ → Bool}

theorem sampleCount_down (hpen : ∀ i < 8, penirq i = false) : sampleCount penirq 9 0 = 9 := by
  have hloop : ∀ n count, count + n = 8 → sampleCount penirq (n + 1) count = 9 := by
    intro n
    induction n with
    | zero =>
      intro count hcount
      have hlast : ¬ (!penirq count && decide (count + 1 < 9)) = true := by simp [show count = 8 by omega]
      rw [sampleCount, if_neg hlast]
      omega
    | succ n ih =>
      intro count hcount
      have hmore : (!penirq count && decide (count + 1 < 9)) = true := by
        simp [hpen count (by omega), show count + 1 < 9 by omega]
      rw [sampleCount, if_pos hmore]
      exact ih (count + 1) (by omega)
  exact hloop 8 0 rfl

theorem groupMean_x (s : Samples) : groupMean (fun i => (s.inOrder i).x) = s.meanX := by
  funext k
  fin_cases k <;> rfl

theorem groupMean_y (s : Samples) : groupMean (fun i => (s.inOrder i).y) = s.meanY := by
  funext k
  fin_cases k <;> rfl

theorem read_cases (s : Samples) (hpen : ∀ i < 8, penirq i = false) :
    ((average s.meanX = none ∨ average s.meanY = none) ∧ (readXtp2046 s.inOrder penirq).2 = false) ∨
    ∃ x y, average s.meanX = some x ∧ average s.meanY = some y ∧ readXtp2046 s.inOrder penirq = (⟨x, y⟩, true) := by
  unfold readXtp2046
  simp only [sampleCount_down hpen, groupMean_x, groupMean_y, if_true]
  cases hx : average s.meanX with
  | none => exact Or.inl ⟨Or.inl rfl, rfl⟩
  | some x =>
    cases hy : average s.meanY with
    | none => exact Or.inl ⟨Or.inr rfl, rfl⟩
    | some y => exact Or.inr ⟨x, y, rfl, rfl, rfl⟩

theorem mean_lt (h : s.Fits) : (∀ k, s.meanX k < 4096) ∧ ∀ k, s.meanY k < 4096 := by
  constructor
  · intro k
    have h0 := (h k 0).1
    have h1 := (h k 1).1
    have h2 := (h k 2).1
    unfold Samples.meanX
    omega
  · intro k
    have h0 := (h k 0).2
    have h1 := (h k 1).2
    have h2 := (h k 2).2
    unfold Samples.meanY
    omega

theorem returned_iff (h : s.Fits) (hpen : ∀ i < 8, penirq i = false) : (readXtp2046 s.inOrder penirq).2 = true ↔
    (Close s.meanX ∧ ¬ Rising s.meanX) ∧ (Close s.meanY ∧ ¬ Rising s.meanY) := by
  obtain ⟨hx, hy⟩ := mean_lt h
  have hxnone := average_eq_none_iff hx
  have hynone := average_eq_none_iff hy
  rcases read_cases s hpen with ⟨hnone, hr⟩ | ⟨x, y, hax, hay, hr⟩
  · rw [hr]
    rw [hxnone, hynone] at hnone
    constructor
    · intro hf
      exact absurd hf (by decide)
    · rintro ⟨⟨hcx, hrx⟩, hcy, hry⟩
      rcases hnone with (hn | hn) | hn | hn
      · exact absurd hcx hn
      · exact absurd hn hrx
      · exact absurd hcy hn
      · exact absurd hn hry
  · rw [hr]
    rw [hax] at hxnone
    rw [hay] at hynone
    have hx' := not_or.mp fun hn => absurd (hxnone.mpr hn) (by simp)
    have hy' := not_or.mp fun hn => absurd (hynone.mpr hn) (by simp)
    exact ⟨fun _ => ⟨⟨not_not.mp hx'.1, hx'.2⟩, not_not.mp hy'.1, hy'.2⟩, fun _ => rfl⟩

theorem returned_closest (h : s.Fits) (hpen : ∀ i < 8, penirq i = false)
    (hr : (readXtp2046 s.inOrder penirq).2 = true) :
    Closest s.meanX (readXtp2046 s.inOrder penirq).1.x ∧ Closest s.meanY (readXtp2046 s.inOrder penirq).1.y := by
  obtain ⟨hx, hy⟩ := mean_lt h
  rcases read_cases s hpen with ⟨-, hf⟩ | ⟨x, y, hax, hay, heq⟩
  · rw [hf] at hr
    exact absurd hr (by decide)
  · rw [heq]
    exact ⟨average_closest hx hax, average_closest hy hay⟩

theorem fits_comp (h : s.Fits) (σ : Equiv.Perm (Fin 3)) : Samples.Fits (s ∘ σ) := fun k i => h (σ k) i

/-- The filter keeps to its purpose, in every order of the groups, where it has to refuse the samples, and where on
both axes the means are level. -/
theorem readXtp2046_filters_iff (h : s.Fits) (hpen : ∀ i < 8, penirq i = false) :
    (s.Filtered penirq ∧ s.OrderFree penirq) ↔
    ¬ (Close s.meanX ∧ Close s.meanY) ∨ (Level s.meanX ∧ Level s.meanY) := by
  constructor
  · rintro ⟨⟨hret, -⟩, hfree⟩
    by_contra hn
    rw [not_or, not_not] at hn
    obtain ⟨hclose, hlevel⟩ := hn
    have hr := hret.mpr hclose
    have hall : ∀ σ : Equiv.Perm (Fin 3), ¬ Rising (s.meanX ∘ σ) ∧ ¬ Rising (s.meanY ∘ σ) := by
      intro σ
      have hσ := ((hfree σ).1).trans hr
      obtain ⟨⟨-, hrx⟩, -, hry⟩ := (returned_iff (fits_comp h σ) hpen).mp hσ
      exact ⟨hrx, hry⟩
    apply hlevel
    constructor
    · by_contra hl
      obtain ⟨σ, hσ⟩ := exists_rising hl
      exact (hall σ).1 hσ
    · by_contra hl
      obtain ⟨σ, hσ⟩ := exists_rising hl
      exact (hall σ).2 hσ
  · intro hcond
    have hret : ∀ σ : Equiv.Perm (Fin 3), (readXtp2046 (Samples.inOrder (s ∘ σ)) penirq).2 = true ↔
        Close s.meanX ∧ Close s.meanY := by
      intro σ
      have hiff := returned_iff (fits_comp h σ) hpen
      have hcx : Close (Samples.meanX (s ∘ σ)) ↔ Close s.meanX := @close_comp s.meanX σ
      have hcy : Close (Samples.meanY (s ∘ σ)) ↔ Close s.meanY := @close_comp s.meanY σ
      rw [hiff, hcx, hcy]
      constructor
      · rintro ⟨⟨hx, -⟩, hy, -⟩
        exact ⟨hx, hy⟩
      · intro hclose
        rcases hcond with hn | ⟨hlx, hly⟩
        · exact absurd hclose hn
        · exact ⟨⟨hclose.1, (hlx.comp σ).not_rising⟩, hclose.2, (hly.comp σ).not_rising⟩
    refine ⟨⟨hret (Equiv.refl _), returned_closest h hpen⟩, ?_⟩
    intro σ
    have hflag : (readXtp2046 (Samples.inOrder (s ∘ σ)) penirq).2 = (readXtp2046 s.inOrder penirq).2 :=
      Bool.eq_iff_iff.mpr ((hret σ).trans (hret (Equiv.refl _)).symm)
    refine ⟨hflag, ?_⟩
    intro hr
    obtain ⟨hx, hy⟩ := returned_closest h hpen hr
    obtain ⟨hx', hy'⟩ := returned_closest (fits_comp h σ) hpen (hflag.trans hr)
    have hback : Closest s.meanX (readXtp2046 (Samples.inOrder (s ∘ σ)) penirq).1.x := @Closest.of_comp s.meanX _ σ hx'
    have hback' : Closest s.meanY (readXtp2046 (Samples.inOrder (s ∘ σ)) penirq).1.y := @Closest.of_comp s.meanY _ σ hy'
    exact ⟨Or.inr ⟨hx, hback⟩, Or.inr ⟨hy, hback'⟩⟩

/-- Three groups, each of three times the same sample. -/
def repeated (a : Fin 3 → ℕ) : Samples := fun k _ => ⟨a k, a k⟩

theorem repeated_means (a : Fin 3 → ℕ) : (repeated a).meanX = a ∧ (repeated a).meanY = a := by
  constructor
  · funext k
    change (a k + a k + a k) / 3 = a k
    omega
  · funext k
    change (a k + a k + a k) / 3 = a k
    omega

theorem readXtp2046_filters_iff_level : (repeated ![100, 100, 500]).Filtered fun _ => false := by
  have hlt : ∀ k, ![100, 100, 500] k < 4096 := by
    intro k
    fin_cases k <;> decide
  have hfits : (repeated ![100, 100, 500]).Fits := fun k _ => ⟨hlt k, hlt k⟩
  have hlevel : Level ![100, 100, 500] := Or.inl ⟨0, 1, by decide, rfl⟩
  obtain ⟨hx, hy⟩ := repeated_means ![100, 100, 500]
  have h := (@readXtp2046_filters_iff (repeated ![100, 100, 500]) (fun _ => false) hfits (fun _ _ => rfl)).mpr
  rw [hx, hy] at h
  exact (h (Or.inr ⟨hlevel, hlevel⟩)).1

/-- The means 100, 101 and 500 are refused though two of them are close. -/
theorem readXtp2046_refuses_close : (readXtp2046 (repeated ![100, 101, 500]).inOrder fun _ => false).2 = false ∧
    Close (repeated ![100, 101, 500]).meanX ∧ Close (repeated ![100, 101, 500]).meanY := by
  obtain ⟨hx, hy⟩ := repeated_means ![100, 101, 500]
  have hclose : Close ![100, 101, 500] := ⟨0, 1, by decide, by decide⟩
  rw [hx, hy]
  exact ⟨by decide, hclose, hclose⟩

end read

end Lpc1788Libraries.Touch

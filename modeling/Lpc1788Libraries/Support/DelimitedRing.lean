import Mathlib.Data.List.Basic
import Mathlib.Logic.Function.Basic
import Lpc1788Libraries.Support.PageRing

namespace Lpc1788Libraries.Support.DelimitedRing

variable {α : Type*} (z : α)

/-- The places that the words take, each with a delimiter behind it. -/
def size : List (List α) → ℕ
  | [] => 0
  | e :: es => e.length + 1 + size es

/-- The words, the newest first, at the end of `n` places; the delimiter is in all the others. -/
def content (n : ℕ) : List (List α) → List α
  | [] => List.replicate n z
  | e :: es => content (n - (e.length + 1)) es ++ (e ++ [z])

/-- The newest words that fit into `n` places. -/
def fit (n : ℕ) : List (List α) → List (List α)
  | [] => []
  | e :: es => if e.length + 1 ≤ n then e :: fit (n - (e.length + 1)) es else []

/-- Overwrites with the delimiter up to the first one. -/
def eat [DecidableEq α] : List α → List α
  | [] => []
  | a :: l => if a = z then a :: l else z :: eat l

/-- What the ring holds from the place `p` on. -/
def window (r : PageRing) (buf : ℕ → α) (p : ℕ) : List α :=
  (List.range r.size).map fun i => buf (r.step p i)

variable {z} {n m i : ℕ} {e : List α} {es newer older : List (List α)}

section words

@[simp] theorem size_nil : size ([] : List (List α)) = 0 := rfl

@[simp] theorem size_cons : size (e :: es) = e.length + 1 + size es := rfl

@[simp] theorem size_append : size (newer ++ older) = size newer + size older := by
  induction newer with
  | nil => simp
  | cons e es ih => simp [ih, Nat.add_assoc]

theorem length_le_size : es.length ≤ size es := by
  induction es with
  | nil => simp
  | cons e es ih =>
    simp only [List.length_cons, size_cons]
    omega

theorem size_fit_le : size (fit n es) ≤ n := by
  induction es generalizing n with
  | nil => simp [fit]
  | cons e es ih =>
    unfold fit
    split
    · rename_i h
      have := @ih (n - (e.length + 1))
      rw [size_cons]
      omega
    · simp

theorem fit_sublist : fit n es <+: es := by
  induction es generalizing n with
  | nil => exact List.prefix_rfl
  | cons e es ih =>
    unfold fit
    split
    · exact List.prefix_cons_inj e |>.mpr ih
    · exact List.nil_prefix

theorem fit_maximal (h : es = fit n es ++ e :: older) : n < size (fit n es) + (e.length + 1) := by
  induction es generalizing n with
  | nil => simp at h
  | cons d es ih =>
    rw [fit] at h ⊢
    split at h
    · rename_i hd
      rw [List.cons_append, List.cons.injEq] at h
      rw [if_pos hd, size_cons]
      have := ih h.2
      omega
    · rename_i hd
      simp only [List.nil_append, List.cons.injEq] at h
      rw [if_neg hd, size_nil, ← h.1]
      omega

theorem length_content (h : size es ≤ n) : (content z n es).length = n := by
  induction es generalizing n with
  | nil => simp [content]
  | cons e es ih =>
    rw [size_cons] at h
    have hes := ih (by omega : size es ≤ n - (e.length + 1))
    simp only [content, List.length_append, List.length_cons, List.length_nil, hes]
    omega

theorem content_append (h : size (newer ++ older) ≤ n) :
    content z n (newer ++ older) = content z (n - size newer) older ++ content z (size newer) newer := by
  induction newer generalizing n with
  | nil => simp [content]
  | cons e es ih =>
    simp only [List.cons_append, size_cons] at h
    have hsub : n - (e.length + 1) - size es = n - (e.length + 1 + size es) := by omega
    simp only [List.cons_append, content, ih (by omega : size (es ++ older) ≤ n - (e.length + 1)), size_cons,
      hsub, Nat.add_sub_cancel_left, List.append_assoc]

theorem getElem?_content_last (h : size es ≤ n) (hn : 0 < n) : (content z n es)[n - 1]? = some z := by
  cases es with
  | nil => simp only [content, List.getElem?_replicate, if_pos (by omega : n - 1 < n)]
  | cons e es =>
    rw [size_cons] at h
    have hlen := length_content (z := z) (by omega : size es ≤ n - (e.length + 1))
    rw [content, List.getElem?_append_right (by omega), List.getElem?_append_right (by omega),
      hlen, show n - 1 - (n - (e.length + 1)) - e.length = 0 by omega]
    rfl

theorem mem_last_content (h : size es ≤ n) (hn : 0 < n) : ∃ pre, content z n es = pre ++ [z] := by
  cases es with
  | nil =>
    refine ⟨List.replicate (n - 1) z, ?_⟩
    rw [content, ← List.replicate_succ', Nat.sub_add_cancel hn]
  | cons e es =>
    exact ⟨_, (List.append_assoc _ _ _).symm⟩

theorem exists_delimiter {w : ℕ} (h : size es ≤ n) (hw : ∀ e ∈ es, e.length ≤ w) (hi : i < n) :
    ∃ k ≤ w, (content z n es)[i + k]? = some z := by
  induction es generalizing n with
  | nil =>
    refine ⟨0, Nat.zero_le w, ?_⟩
    simp only [content, Nat.add_zero, List.getElem?_replicate, if_pos hi]
  | cons e es ih =>
    rw [size_cons] at h
    have hlen := length_content (z := z) (by omega : size es ≤ n - (e.length + 1))
    have he := hw e List.mem_cons_self
    by_cases hlt : i < n - (e.length + 1)
    · obtain ⟨k, hk, hget⟩ := ih (by omega) (fun d hd => hw d (List.mem_cons_of_mem _ hd)) hlt
      have hin : i + k < (content z (n - (e.length + 1)) es).length := (List.getElem?_eq_some_iff.mp hget).1
      refine ⟨k, hk, ?_⟩
      rw [content, List.getElem?_append_left hin, hget]
    · refine ⟨n - 1 - i, by omega, ?_⟩
      rw [content, List.getElem?_append_right (by omega), List.getElem?_append_right (by omega), hlen,
        show i + (n - 1 - i) - (n - (e.length + 1)) - e.length = 0 by omega]
      rfl

theorem suffix_content {l : List α} (hl : z ∉ l) (h : size es ≤ n) (hlen : l.length < n) :
    l ++ [z] <:+ content z n es ↔ l <:+ es.headD [] := by
  cases es with
  | nil =>
    have hrep : content z n [] = List.replicate (n - 1) z ++ [z] := by
      rw [content, ← List.replicate_succ', Nat.sub_add_cancel (by omega)]
    rw [hrep, List.suffix_append_inj_of_length_eq rfl, List.headD_nil, List.suffix_nil]
    constructor
    · rintro ⟨hs, -⟩
      cases l with
      | nil => rfl
      | cons a l =>
        have ha := List.eq_of_mem_replicate (hs.subset List.mem_cons_self)
        exact absurd (ha ▸ List.mem_cons_self) hl
    · rintro rfl
      exact ⟨List.nil_suffix, rfl⟩
  | cons e es =>
    rw [content, ← List.append_assoc, List.suffix_append_inj_of_length_eq rfl, List.headD_cons]
    constructor
    · rintro ⟨hs, -⟩
      rcases List.suffix_or_suffix_of_suffix hs (List.suffix_append _ e) with hle | ⟨pre, hpre⟩
      · exact hle
      · -- what is left of the line lies in the place of the delimiter before the word
        rw [size_cons] at h
        rw [← hpre, List.suffix_append_inj_of_length_eq rfl] at hs
        cases pre with
        | nil => exact ⟨[], hpre.symm⟩
        | cons a pre =>
          have hX := hs.1.length_le
          rw [length_content (by omega), List.length_cons] at hX
          obtain ⟨X, hX'⟩ := mem_last_content (z := z) (by omega : size es ≤ n - (e.length + 1)) (by omega)
          rw [hX', List.suffix_concat_iff] at hs
          rcases hs.1 with hnil | ⟨q, hq, -⟩
          · exact absurd hnil (List.cons_ne_nil a pre)
          · refine absurd ?_ hl
            rw [← hpre, hq]
            simp
    · intro hs
      exact ⟨hs.trans (List.suffix_append _ e), rfl⟩

end words

section eat

variable [DecidableEq α]

theorem length_eat (l : List α) : (eat z l).length = l.length := by
  induction l with
  | nil => rfl
  | cons a l ih =>
    unfold eat
    split
    · rfl
    · simp [ih]

theorem eat_append_delimiter (pre l : List α) : eat z (pre ++ z :: l) = eat z (pre ++ [z]) ++ l := by
  induction pre with
  | nil => simp [eat]
  | cons a pre ih =>
    simp only [List.cons_append, eat, ih]
    split <;> simp

theorem eat_word (h : z ∉ e) : eat z (e ++ [z]) = List.replicate (e.length + 1) z := by
  induction e with
  | nil => simp [eat]
  | cons a e ih =>
    rw [List.mem_cons, not_or] at h
    rw [List.cons_append, eat, if_neg (Ne.symm h.1), ih h.2, List.length_cons,
      ← List.replicate_succ]

theorem take_one_eat {l : List α} (h : l ≠ []) : (eat z l).take 1 = [z] := by
  cases l with
  | nil => exact absurd rfl h
  | cons a l =>
    unfold eat
    split
    · rename_i ha
      rw [ha]
      rfl
    · rfl

/-- Overwriting the oldest places of a full ring and what is left of a word cut thereby drops
the words that no longer fit, and no others. -/
theorem eat_content (hz : ∀ e ∈ es, z ∉ e) (h : size es ≤ m) (hn : n < m) :
    (eat z ((content z m es).drop n)).drop 1 = content z (m - n - 1) (fit (m - n - 1) es) := by
  induction es generalizing m with
  | nil =>
    obtain ⟨k, hk⟩ : ∃ k, m - n = k + 1 := ⟨m - n - 1, by omega⟩
    simp [content, fit, hk, List.replicate_succ, eat]
  | cons e es ih =>
    rw [size_cons] at h
    obtain ⟨m', hm'⟩ : ∃ m', m = m' + (e.length + 1) := ⟨m - (e.length + 1), by omega⟩
    have hlen := length_content (z := z) (by omega : size es ≤ m')
    have he : z ∉ e := hz e List.mem_cons_self
    rw [content, fit, hm', Nat.add_sub_cancel]
    by_cases hlt : n < m'
    · -- the newest word stays whole
      obtain ⟨pre, hpre⟩ := mem_last_content (z := z) (by omega : size es ≤ m') (by omega)
      have hpl : pre.length + 1 = m' := by rw [← hlen, hpre]; simp
      have hdrop : (content z m' es ++ (e ++ [z])).drop n = pre.drop n ++ z :: (e ++ [z]) := by
        rw [hpre, List.append_assoc, List.drop_append_of_le_length (by omega)]
        rfl
      have hdrop' : (content z m' es).drop n = pre.drop n ++ [z] := by
        rw [hpre, List.drop_append_of_le_length (by omega)]
      have hih := ih (fun d hd => hz d (List.mem_cons_of_mem _ hd)) (by omega : size es ≤ m') hlt
      rw [if_pos (by omega), hdrop, eat_append_delimiter, ← hdrop',
        List.drop_append_of_le_length (by rw [length_eat, List.length_drop]; omega), hih, content,
        show m' + (e.length + 1) - n - 1 - (e.length + 1) = m' - n - 1 by omega]
    · -- the newest word is cut
      have hdrop : (content z m' es ++ (e ++ [z])).drop n = e.drop (n - m') ++ [z] := by
        rw [List.drop_append, List.drop_eq_nil_of_le (by omega), List.nil_append, hlen,
          List.drop_append_of_le_length (by omega)]
      rw [if_neg (by omega), hdrop, eat_word (fun hmem => he (List.mem_of_mem_drop hmem)), content,
        List.length_drop, List.drop_replicate]
      congr 1
      omega

end eat

section window

variable {r : PageRing} {buf : ℕ → α} {p : ℕ}

@[simp] theorem length_window : (window r buf p).length = r.size := by simp [window]

theorem getElem?_window (h : i < r.size) : (window r buf p)[i]? = some (buf (r.step p i)) := by
  simp [window, h]

theorem window_update (h : i < r.size) (c : α) :
    window r (Function.update buf (r.step p i) c) p = (window r buf p).set i c := by
  apply List.ext_getElem?
  intro j
  by_cases hj : j < r.size
  · rw [getElem?_window hj, List.getElem?_set, length_window]
    by_cases hij : i = j
    · subst hij
      simp [h]
    · rw [if_neg hij, getElem?_window hj, Function.update_of_ne]
      exact fun e => hij ((PageRing.step_inj hj h).mp e).symm
  · rw [List.getElem?_eq_none (by simpa using hj), List.getElem?_eq_none (by simpa using hj)]

theorem window_write {xs ys : List α} {y : α} (hw : window r buf p = xs ++ y :: ys) (c : α) :
    window r (Function.update buf (r.step p xs.length) c) p = xs ++ c :: ys := by
  have hlen := congrArg List.length hw
  rw [length_window, List.length_append, List.length_cons] at hlen
  rw [window_update (by omega), hw, List.set_append_right _ _ (Nat.le_refl _), Nat.sub_self, List.set_cons_zero]

theorem window_get {xs ys : List α} {y : α} (hw : window r buf p = xs ++ y :: ys) :
    buf (r.step p xs.length) = y := by
  have hlen := congrArg List.length hw
  rw [length_window, List.length_append, List.length_cons] at hlen
  have hget := @getElem?_window _ xs.length r buf p (by omega)
  rw [hw, List.getElem?_append_right (Nat.le_refl _), Nat.sub_self, List.getElem?_cons_zero] at hget
  exact (Option.some.inj hget).symm

theorem window_step (h : n ≤ r.size) :
    window r buf (r.step p n) = (window r buf p).drop n ++ (window r buf p).take n := by
  apply List.ext_getElem?
  intro j
  by_cases hj : j < r.size
  · rw [getElem?_window hj, PageRing.step_step]
    by_cases hjn : j < r.size - n
    · rw [List.getElem?_append_left (by simpa using hjn), List.getElem?_drop, getElem?_window (by omega)]
    · have hsum : n + j = n + j - r.size + r.size := by omega
      rw [List.getElem?_append_right (by simp; omega), List.length_drop, length_window, List.getElem?_take,
        if_pos (by omega), getElem?_window (by omega), hsum, PageRing.step_add_size]
      congr 3
      omega
  · rw [List.getElem?_eq_none (by simpa using hj), List.getElem?_eq_none (by simp; omega)]

theorem getElem?_window_word (hw : window r buf p = content z r.size (newer ++ e :: older))
    (hs : size (newer ++ e :: older) ≤ r.size) (hi : i ≤ e.length) :
    some (buf (r.step p (r.size - size newer - (e.length + 1) + i))) = (e ++ [z])[i]? := by
  have hsz := hs
  rw [size_append, size_cons] at hsz
  have hold := length_content (z := z) (by omega : size older ≤ r.size - size newer - (e.length + 1))
  rw [← getElem?_window (by omega), hw, content_append hs, content, List.append_assoc,
    List.getElem?_append_right (by omega), hold, Nat.add_sub_cancel_left,
    List.getElem?_append_left (by simp; omega)]

theorem window_word (hw : window r buf p = content z r.size (newer ++ e :: older))
    (hs : size (newer ++ e :: older) ≤ r.size) (hi : i < e.length) :
    buf (r.step p (r.size - size newer - (e.length + 1) + i)) = e[i] := by
  have h := getElem?_window_word hw hs (Nat.le_of_lt hi)
  rw [List.getElem?_append_left hi, List.getElem?_eq_getElem hi] at h
  exact Option.some.inj h

theorem window_word_end (hw : window r buf p = content z r.size (newer ++ e :: older))
    (hs : size (newer ++ e :: older) ≤ r.size) :
    buf (r.step p (r.size - size newer - (e.length + 1) + e.length)) = z := by
  have h := getElem?_window_word hw hs (Nat.le_refl _)
  rw [List.getElem?_append_right (Nat.le_refl _), Nat.sub_self] at h
  exact Option.some.inj h

/-- There is a delimiter before every word, behind the end of the ring where the ring begins
with the word. -/
theorem window_before (hw : window r buf p = content z r.size (newer ++ older))
    (hs : size (newer ++ older) ≤ r.size) : buf (r.step p (r.size - size newer + (r.size - 1))) = z := by
  have hsz := hs
  have hpos := r.size_pos
  rw [size_append] at hsz
  by_cases h : r.size = size newer
  · have hlast := getElem?_content_last (z := z) hs hpos
    rw [← hw, getElem?_window (by omega)] at hlast
    rw [h, Nat.sub_self, Nat.zero_add, ← h]
    exact Option.some.inj hlast
  · have hlast := getElem?_content_last (z := z) (by omega : size older ≤ r.size - size newer) (by omega)
    have hlen := length_content (z := z) (by omega : size older ≤ r.size - size newer)
    have hwhole : (content z r.size (newer ++ older))[r.size - size newer - 1]? = some z := by
      rw [content_append hs, List.getElem?_append_left (by omega), hlast]
    rw [← hw, getElem?_window (by omega)] at hwhole
    rw [show r.size - size newer + (r.size - 1) = r.size - size newer - 1 + r.size by omega,
      PageRing.step_add_size]
    exact Option.some.inj hwhole

theorem getElem?_content_gap (h : size es ≤ n) (hi : i < n - size es) : (content z n es)[i]? = some z := by
  induction es generalizing n with
  | nil => simp only [content, List.getElem?_replicate, if_pos (by simpa using hi : i < n)]
  | cons e es ih =>
    rw [size_cons] at h hi
    have hlen := length_content (z := z) (by omega : size es ≤ n - (e.length + 1))
    rw [content, List.getElem?_append_left (by omega)]
    exact ih (by omega) (by omega)

theorem window_gap (hw : window r buf p = content z r.size es) (hs : size es ≤ r.size)
    (hi : i < r.size - size es) : buf (r.step p i) = z := by
  have h := getElem?_content_gap (z := z) hs hi
  rw [← hw, getElem?_window (by omega)] at h
  exact Option.some.inj h

end window

end Lpc1788Libraries.Support.DelimitedRing

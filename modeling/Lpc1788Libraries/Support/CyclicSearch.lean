import Mathlib.Data.Nat.Find
import Mathlib.Data.List.Basic
import Mathlib.Tactic.Common

namespace Lpc1788Libraries.Support

variable {α : Type*} {p : α → Bool} {l : List α} {a b m : ℕ} {x : α}

/-- From the place `a` on and around the list, the first that passes the test is `m` places away. -/
structure FirstFrom (p : α → Bool) (l : List α) (a m : ℕ) (x : α) : Prop where
  lt : m < l.length
  before : ∀ j < m, ∀ y ∈ l[(a + j) % l.length]?, p y = false
  found : l[(a + m) % l.length]? = some x
  passes : p x = true

/-- How many pass before the place `a`. -/
def passed (p : α → Bool) (l : List α) (a : ℕ) : ℕ := ((l.take a).filter p).length

theorem exists_firstFrom (ha : a < l.length) (h : ∃ x ∈ l, p x = true) : ∃ m x, FirstFrom p l a m x := by
  obtain ⟨x, hx, hp⟩ := h
  obtain ⟨i, hi, rfl⟩ := List.mem_iff_getElem.mp hx
  have hreach : ∃ m, m < l.length ∧ ∃ y, l[(a + m) % l.length]? = some y ∧ p y = true := by
    by_cases hai : a ≤ i
    · refine ⟨i - a, by omega, l[i], ?_, hp⟩
      rw [Nat.add_sub_cancel' hai, Nat.mod_eq_of_lt hi, List.getElem?_eq_getElem hi]
    · refine ⟨i + l.length - a, by omega, l[i], ?_, hp⟩
      rw [show a + (i + l.length - a) = i + l.length by omega, Nat.add_mod_right, Nat.mod_eq_of_lt hi,
        List.getElem?_eq_getElem hi]
  classical
  obtain ⟨hlt, y, hy, hpy⟩ := Nat.find_spec hreach
  refine ⟨Nat.find hreach, y, hlt, ?_, hy, hpy⟩
  intro j hj z hz
  by_contra hne
  exact Nat.find_min hreach hj ⟨by omega, z, hz, by simpa using hne⟩

theorem firstFrom_of_find? (h : l.find? p = some x) : ∃ m, FirstFrom p l 0 m x := by
  obtain ⟨hp, i, hi, hx, hbefore⟩ := List.find?_eq_some_iff_getElem.mp h
  refine ⟨i, hi, ?_, ?_, hp⟩
  · intro j hj y hy
    rw [Nat.zero_add, Nat.mod_eq_of_lt (by omega), List.getElem?_eq_getElem (by omega)] at hy
    rw [← Option.some.inj hy]
    simpa using hbefore j hj
  · rw [Nat.zero_add, Nat.mod_eq_of_lt hi, List.getElem?_eq_getElem hi, hx]

theorem FirstFrom.mem (h : FirstFrom p l a m x) : x ∈ l := List.mem_of_getElem? h.found

theorem passed_zero : passed p l 0 = 0 := rfl

theorem passed_length : passed p l l.length = (l.filter p).length := by rw [passed, List.take_length]

theorem passed_eq (hab : a ≤ b) (h : ∀ j, a ≤ j → j < b → ∀ y ∈ l[j]?, p y = false) : passed p l b = passed p l a := by
  induction b, hab using Nat.le_induction with
  | base => rfl
  | succ b hab ih =>
    have hb := ih fun j haj hjb => h j haj (by omega)
    have hlast : ∀ y ∈ l[b]?, p y = false := h b hab (by omega)
    unfold passed at hb ⊢
    rw [← hb]
    cases hg : l[b]? with
    | none =>
      have hlen := List.getElem?_eq_none_iff.mp hg
      rw [List.take_of_length_le hlen, List.take_of_length_le (by omega)]
    | some y =>
      rw [List.take_add_one, hg, List.filter_append]
      simp [hlast y hg]

theorem passed_succ (hx : l[a]? = some x) (hp : p x = true) : passed p l (a + 1) = passed p l a + 1 := by
  unfold passed
  rw [List.take_add_one, hx, List.filter_append]
  simp [hp]

theorem getElem?_filter_passed (hx : l[a]? = some x) (hp : p x = true) : (l.filter p)[passed p l a]? = some x := by
  obtain ⟨ha, rfl⟩ := List.getElem?_eq_some_iff.mp hx
  have hsplit : l.filter p = (l.take a).filter p ++ l[a] :: (l.drop (a + 1)).filter p := by
    rw [← List.filter_cons_of_pos hp, ← List.filter_append, ← List.drop_eq_getElem_cons ha, List.take_append_drop]
  rw [hsplit, passed, List.getElem?_append_right (Nat.le_refl _), Nat.sub_self]
  rfl

theorem FirstFrom.filter (h : FirstFrom p l a m x) (ha : a < l.length) :
    (l.filter p)[passed p l a % (l.filter p).length]? = some x ∧
      passed p l ((a + m + 1) % l.length) % (l.filter p).length = (passed p l a + 1) % (l.filter p).length := by
  have hlt := h.lt
  by_cases hw : a + m < l.length
  · -- it is found before the end of the list
    have hx := h.found
    rw [Nat.mod_eq_of_lt hw] at hx
    have hsame : passed p l (a + m) = passed p l a := by
      apply passed_eq (Nat.le_add_right a m)
      intro j haj hjb y hy
      apply h.before (j - a) (by omega) y
      rw [Nat.add_sub_cancel' haj, Nat.mod_eq_of_lt (by omega)]
      exact hy
    have hget := getElem?_filter_passed hx h.passes
    have hin := (List.getElem?_eq_some_iff.mp hget).1
    have hsucc := passed_succ hx h.passes
    rw [hsame] at hget hin hsucc
    constructor
    · rw [Nat.mod_eq_of_lt hin, hget]
    · by_cases hend : a + m + 1 = l.length
      · have hall := @passed_length _ p l
        rw [← hend, hsucc] at hall
        rw [hend, Nat.mod_self, passed_zero, hall, Nat.mod_self, Nat.zero_mod]
      · rw [Nat.mod_eq_of_lt (by omega : a + m + 1 < l.length), hsucc]
  · -- it is found behind the end
    obtain ⟨i, hi⟩ : ∃ i, a + m = i + l.length := ⟨a + m - l.length, by omega⟩
    have hx := h.found
    rw [hi, Nat.add_mod_right, Nat.mod_eq_of_lt (by omega)] at hx
    have hzero : passed p l i = 0 := by
      rw [← @passed_zero _ p l]
      apply passed_eq (Nat.zero_le i)
      intro j _ hji y hy
      apply h.before (j + l.length - a) (by omega) y
      rw [show a + (j + l.length - a) = j + l.length by omega, Nat.add_mod_right, Nat.mod_eq_of_lt (by omega)]
      exact hy
    have hall : passed p l a = (l.filter p).length := by
      rw [← passed_length]
      symm
      apply passed_eq (Nat.le_of_lt ha)
      intro j haj hjn y hy
      apply h.before (j - a) (by omega) y
      rw [Nat.add_sub_cancel' haj, Nat.mod_eq_of_lt hjn]
      exact hy
    have hget := getElem?_filter_passed hx h.passes
    have hsucc := passed_succ hx h.passes
    rw [hzero] at hget hsucc
    constructor
    · rw [hall, Nat.mod_self, hget]
    · rw [hi, show i + l.length + 1 = i + 1 + l.length by omega, Nat.add_mod_right,
        Nat.mod_eq_of_lt (by omega : i + 1 < l.length), hsucc, hall, Nat.add_mod_left]

end Lpc1788Libraries.Support

import Mathlib.Data.List.Induction
import Mathlib.Tactic.Common

namespace Lpc1788Libraries.Support

variable {σ ι ο : Type*}

/-- A machine that takes one input at a time and may put something out at each. -/
abbrev StreamMachine (σ ι ο : Type*) := σ → ι → σ × List ο

namespace StreamMachine

def after (M : StreamMachine σ ι ο) (s : σ) (l : List ι) : σ := l.foldl (fun t i => (M t i).1) s

def outputs (M : StreamMachine σ ι ο) (s : σ) : List ι → List ο
  | [] => []
  | i :: l => (M s i).2 ++ outputs M (M s i).1 l

variable {M : StreamMachine σ ι ο} {s : σ} {l : List ι} {i : ι}

@[simp] theorem after_nil : M.after s [] = s := rfl

@[simp] theorem after_cons : M.after s (i :: l) = M.after (M s i).1 l := rfl

theorem after_append {l' : List ι} : M.after s (l ++ l') = M.after (M.after s l) l' := by
  simp [after, List.foldl_append]

theorem after_concat : M.after s (l ++ [i]) = (M (M.after s l) i).1 := by
  rw [after_append]
  rfl

@[simp] theorem outputs_nil : M.outputs s [] = [] := rfl

@[simp] theorem outputs_cons : M.outputs s (i :: l) = (M s i).2 ++ M.outputs (M s i).1 l := rfl

theorem outputs_append {l' : List ι} :
    M.outputs s (l ++ l') = M.outputs s l ++ M.outputs (M.after s l) l' := by
  induction l generalizing s with
  | nil => rfl
  | cons i l ih => simp [ih]

theorem outputs_concat : M.outputs s (l ++ [i]) = M.outputs s l ++ (M (M.after s l) i).2 := by
  rw [outputs_append]
  simp

theorem after_induction {P : List ι → σ → Prop} (hnil : P [] s)
    (hstep : ∀ l i, P l (M.after s l) → P (l ++ [i]) (M (M.after s l) i).1) (l : List ι) :
    P l (M.after s l) := by
  induction l using List.reverseRecOn with
  | nil => exact hnil
  | append_singleton l i ih =>
    rw [after_concat]
    exact hstep l i ih

theorem quiet {P : σ → Prop} {K : ι → Prop} (hstep : ∀ t i, P t → K i → P (M t i).1 ∧ (M t i).2 = [])
    (hs : P s) (hl : ∀ i ∈ l, K i) : P (M.after s l) ∧ M.outputs s l = [] := by
  induction l generalizing s with
  | nil => exact ⟨hs, rfl⟩
  | cons i l ih =>
    obtain ⟨h, hout⟩ := hstep s i hs (hl i List.mem_cons_self)
    obtain ⟨h', hout'⟩ := ih h fun j hj => hl j (List.mem_cons_of_mem _ hj)
    exact ⟨h', by rw [outputs_cons, hout, hout', List.append_nil]⟩

end StreamMachine

end Lpc1788Libraries.Support

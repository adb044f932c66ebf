import Mathlib.Data.List.Induction

namespace Lpc1788Libraries.Support

/-- What a character sent to a terminal does on the row of the cursor. -/
inductive RowOp (α : Type*) where
  | back
  | ignored
  | print (a : α)

/-- The cells to the left of the cursor, and those from the cursor on. -/
structure TerminalRow (α : Type*) where
  left : List α
  right : List α

namespace TerminalRow

open RowOp

variable {α : Type*} {row : TerminalRow α} {ops ops' : List (RowOp α)} {l xs ys : List α} {blank : α} {k n : ℕ}

def act (row : TerminalRow α) : RowOp α → TerminalRow α
  | .back => ⟨row.left.dropLast, row.left.getLast?.toList ++ row.right⟩
  | .ignored => row
  | .print a => ⟨row.left ++ [a], row.right.tail⟩

def run (row : TerminalRow α) (ops : List (RowOp α)) : TerminalRow α := ops.foldl act row

/-- The characters to the left of the cursor go, one after the other. -/
def rubout (blank : α) (n : ℕ) : List (RowOp α) := (List.replicate n [back, print blank, back]).flatten

theorem run_append : row.run (ops ++ ops') = (row.run ops).run ops' := List.foldl_append

theorem run_print : (⟨l, List.replicate k blank⟩ : TerminalRow α).run (xs.map print) =
    ⟨l ++ xs, List.replicate (k - xs.length) blank⟩ := by
  induction xs generalizing l k with
  | nil => rw [List.append_nil, List.length_nil, Nat.sub_zero]; rfl
  | cons a xs ih =>
    change (⟨l ++ [a], (List.replicate k blank).tail⟩ : TerminalRow α).run (xs.map print) = _
    rw [List.tail_replicate, ih, List.append_assoc, List.singleton_append, List.length_cons, Nat.sub_sub, Nat.add_comm 1]

theorem run_rubout : (⟨l ++ xs, List.replicate k blank⟩ : TerminalRow α).run (rubout blank xs.length) =
    ⟨l, List.replicate (k + xs.length) blank⟩ := by
  induction xs using List.reverseRecOn generalizing k with
  | nil => rw [List.append_nil]; rfl
  | append_singleton xs a ih =>
    have hone : (⟨l ++ xs ++ [a], List.replicate k blank⟩ : TerminalRow α).run [back, print blank, back] =
        ⟨l ++ xs, List.replicate (k + 1) blank⟩ := by
      simp only [run, List.foldl_cons, List.foldl_nil, act, List.dropLast_concat, List.getLast?_concat,
        Option.toList_some, List.singleton_append, List.tail_cons, List.replicate_succ]
    have hsplit : rubout blank (xs ++ [a]).length = [back, print blank, back] ++ rubout blank xs.length := by
      rw [List.length_append, List.length_singleton, rubout, List.replicate_succ, List.flatten_cons]
      rfl
    rw [hsplit, ← List.append_assoc, run_append, hone, ih, List.length_append, List.length_singleton, Nat.add_assoc,
      Nat.add_comm 1]

/-- Whatever stands on the row first, a line is behind it, and nothing from the cursor on. -/
def Displays (blank : α) (ops : List (RowOp α)) (l : List α) : Prop :=
  ∀ start, ∃ k, (⟨start, []⟩ : TerminalRow α).run ops = ⟨start ++ l, List.replicate k blank⟩

theorem displays_nil : Displays blank [] [] := fun start => ⟨0, by rw [List.append_nil]; rfl⟩

theorem Displays.ignored (h : Displays blank ops l) : Displays blank (ops ++ [.ignored]) l := by
  intro start
  obtain ⟨k, hk⟩ := h start
  exact ⟨k, by rw [run_append, hk]; rfl⟩

theorem Displays.edit (h : Displays blank ops (l ++ xs)) :
    Displays blank (ops ++ (rubout blank xs.length ++ ys.map print)) (l ++ ys) := by
  intro start
  obtain ⟨k, hk⟩ := h start
  refine ⟨k + xs.length - ys.length, ?_⟩
  rw [run_append, hk, ← List.append_assoc, run_append, run_rubout, run_print, List.append_assoc]

end TerminalRow

end Lpc1788Libraries.Support

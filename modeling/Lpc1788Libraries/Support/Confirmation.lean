import Mathlib.Data.List.Nodup
import Mathlib.Logic.Function.Basic
import Mathlib.Tactic.Common

namespace Lpc1788Libraries.Support

variable {α : Type*}

/-- What happens to messages that are sent to addresses and confirmed without naming one. -/
inductive Post (α : Type*)
  | sent (a : α)
  | confirmed
  | reported (a : α)
  | dropped
  deriving DecidableEq

namespace Post

/-- The addresses with a message sent since the last confirmation, the newest event first. -/
def outstanding [DecidableEq α] : List (Post α) → α → Bool
  | [] => fun _ => false
  | sent a :: l => Function.update (outstanding l) a true
  | confirmed :: _ => fun _ => false
  | reported _ :: l => outstanding l
  | dropped :: _ => fun _ => false

/-- The address that the next confirmation is for. -/
def current : List (Post α) → Option α
  | [] => none
  | sent a :: _ => some a
  | confirmed :: _ => none
  | reported _ :: l => current l
  | dropped :: l => current l

/-- Each confirmation is followed by the reports that `f` tells, and there are no others. -/
def Reports (f : List (Post α) → List α) : List α → List (Post α) → Prop
  | as, [] => as = []
  | as, sent _ :: l => as = [] ∧ Reports f [] l
  | as, confirmed :: l => as = f l ∧ Reports f [] l
  | as, reported a :: l => Reports f (a :: as) l
  | as, dropped :: l => Reports f as l

/-- Every message that has been confirmed is reported once, and no other one. -/
def Faithful (l : List (Post α)) : Prop := Reports (fun l => (current l).toList) [] l

/-- All the outstanding messages are reported when one is confirmed. -/
def Broadcast [DecidableEq α] (all : List α) (l : List (Post α)) : Prop :=
  Reports (fun l => all.filter (outstanding l)) [] l

/-- When a message is confirmed, it is the only one outstanding. -/
def OneAtATime [DecidableEq α] (l : List (Post α)) : Prop :=
  ∀ l', confirmed :: l' <:+ l → ∀ a, outstanding l' a = true ↔ current l' = some a

variable {f : List (Post α) → List α} {l : List (Post α)} {as : List α}

theorem reports_reported (ds : List α) :
    Reports f as ((ds.map reported).reverse ++ l) ↔ Reports f (ds ++ as) l := by
  induction ds generalizing l with
  | nil => rfl
  | cons d ds ih =>
    rw [List.map_cons, List.reverse_cons, List.append_assoc, ih]
    rfl

variable [DecidableEq α]

theorem outstanding_reported (ds : List α) : outstanding ((ds.map reported).reverse ++ l) = outstanding l := by
  induction ds generalizing l with
  | nil => rfl
  | cons d ds ih =>
    rw [List.map_cons, List.reverse_cons, List.append_assoc, ih]
    rfl

theorem filter_eq_toList {all : List α} {p : α → Bool} {o : Option α} (hnd : all.Nodup) (hall : ∀ a, a ∈ all) :
    all.filter p = o.toList ↔ ∀ a, p a = true ↔ o = some a := by
  constructor
  · intro h a
    have hmem := @List.mem_filter _ p all a
    rw [h, Option.mem_toList] at hmem
    rw [hmem]
    exact ⟨fun hp => ⟨hall a, hp⟩, fun hp => hp.2⟩
  · intro h
    cases o with
    | none =>
      apply List.filter_eq_nil_iff.mpr
      intro a _ hp
      cases (h a).mp hp
    | some b =>
      have hp : p = fun a => decide (a = b) := by
        funext a
        rw [Bool.eq_iff_iff, h a, decide_eq_true_iff, Option.some.injEq]
        exact eq_comm
      rw [hp, Option.toList_some, List.filter_eq, List.count_eq_one_of_mem hnd (hall b)]
      rfl

theorem oneAtATime_cons {ev : Post α} : OneAtATime (ev :: l) ↔
    (ev = confirmed → ∀ a, outstanding l a = true ↔ current l = some a) ∧ OneAtATime l := by
  constructor
  · intro h
    refine ⟨?_, fun l' hl => h l' (hl.trans (List.suffix_cons ev l))⟩
    rintro rfl
    exact h l List.suffix_rfl
  · rintro ⟨h, hl⟩ l' hl'
    rcases List.suffix_cons_iff.mp hl' with heq | hsuf
    · cases heq
      exact h rfl
    · exact hl l' hsuf

theorem reports_iff {all : List α} (hnd : all.Nodup) (hall : ∀ a, a ∈ all)
    (h : Reports (fun l => all.filter (outstanding l)) as l) :
    Reports (fun l => (current l).toList) as l ↔ OneAtATime l := by
  induction l generalizing as with
  | nil =>
    refine ⟨fun _ l' hl => ?_, fun _ => h⟩
    cases List.suffix_nil.mp hl
  | cons ev l ih =>
    rw [oneAtATime_cons]
    cases ev with
    | sent a =>
      rw [Reports, ih h.2]
      simp [h.1]
    | confirmed =>
      rw [Reports, ih h.2, h.1, filter_eq_toList hnd hall]
      simp
    | reported a =>
      rw [Reports, ih h]
      simp
    | dropped =>
      rw [Reports, ih h]
      simp

theorem faithful_iff {all : List α} (hnd : all.Nodup) (hall : ∀ a, a ∈ all) (h : Broadcast all l) :
    Faithful l ↔ OneAtATime l := reports_iff hnd hall h

end Post

end Lpc1788Libraries.Support

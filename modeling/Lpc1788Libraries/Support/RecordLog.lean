import Mathlib.Data.List.Nodup

namespace Lpc1788Libraries.Support

/-- A file of a log: where it lies, its time stamp and the records that have been appended to it. -/
structure LogEntry (ι τ ρ : Type) where
  place : ι
  stamp : τ
  records : List ρ

/-- The files of a log, oldest first. -/
abbrev RecordLog (ι τ ρ : Type) := List (LogEntry ι τ ρ)

namespace RecordLog

variable {ι τ ρ : Type}

def places (l : RecordLog ι τ ρ) : List ι := l.map LogEntry.place

@[simp] theorem places_cons {e : LogEntry ι τ ρ} {l : RecordLog ι τ ρ} : places (e :: l) = e.place :: places l := rfl

@[simp] theorem places_append {l l' : RecordLog ι τ ρ} : places (l ++ l') = places l ++ places l' := List.map_append

theorem nodup_split {e : LogEntry ι τ ρ} {l l' : RecordLog ι τ ρ} (h : (places (l ++ e :: l')).Nodup) :
    e.place ∉ places l ∧ e.place ∉ places l' := by
  rw [places_append, places_cons, List.nodup_append, List.nodup_cons] at h
  exact ⟨fun hmem => h.2.2 _ hmem _ (List.mem_cons_self ..) rfl, h.2.1.1⟩

variable [DecidableEq ι]

def recordsAt (l : RecordLog ι τ ρ) (p : ι) : List ρ := ((l.find? fun e => e.place = p).map LogEntry.records).getD []

/-- The file behind the one at `p`. -/
def behind (p : ι) : RecordLog ι τ ρ → Option (LogEntry ι τ ρ)
  | [] => none
  | e :: l => if e.place = p then l.head? else behind p l

/-- The file before the one at `p`. -/
def before (p : ι) (l : RecordLog ι τ ρ) : Option (LogEntry ι τ ρ) := behind p l.reverse

def append (p : ι) (r : ρ) (l : RecordLog ι τ ρ) : RecordLog ι τ ρ :=
  l.map fun e => if e.place = p then { e with records := e.records ++ [r] } else e

variable {l l' : RecordLog ι τ ρ} {e : LogEntry ι τ ρ} {p q : ι} {r : ρ}

theorem recordsAt_split (h : e.place ∉ places l) : recordsAt (l ++ e :: l') e.place = e.records := by
  have hnone : l.find? (fun x => x.place = e.place) = none := by
    rw [List.find?_eq_none]
    intro x hx hp
    apply h
    rw [← of_decide_eq_true hp]
    exact List.mem_map_of_mem hx
  have hhead : (e :: l').find? (fun x => x.place = e.place) = some e := List.find?_cons_of_pos (decide_eq_true rfl)
  rw [recordsAt, List.find?_append, hnone, Option.none_or, hhead]
  rfl

theorem behind_split (h : e.place ∉ places l) : behind e.place (l ++ e :: l') = l'.head? := by
  induction l with
  | nil => rw [List.nil_append, behind, if_pos rfl]
  | cons x l ih =>
    rw [places_cons, List.mem_cons, not_or] at h
    rw [List.cons_append, behind, if_neg (Ne.symm h.1)]
    exact ih h.2

theorem before_split (h : e.place ∉ places l') : before e.place (l ++ e :: l') = l.getLast? := by
  have hrev : (l ++ e :: l').reverse = l'.reverse ++ e :: l.reverse := by simp
  have h' : e.place ∉ places l'.reverse := by
    rw [places, List.map_reverse, List.mem_reverse]
    exact h
  rw [before, hrev, behind_split h', List.head?_reverse]

theorem append_absent (h : p ∉ places l) : append p r l = l := by
  have hsame : ∀ e ∈ l, (if e.place = p then { e with records := e.records ++ [r] } else e) = e := by
    intro e he
    rw [if_neg]
    rintro rfl
    exact h (List.mem_map_of_mem he)
  rw [append, List.map_congr_left hsame, List.map_id']

theorem append_split (h : (places (l ++ e :: l')).Nodup) :
    append e.place r (l ++ e :: l') = l ++ { e with records := e.records ++ [r] } :: l' := by
  obtain ⟨hl, hl'⟩ := nodup_split h
  have hmap : append e.place r (l ++ e :: l') = append e.place r l ++ append e.place r (e :: l') := List.map_append
  have hcons : append e.place r (e :: l') = { e with records := e.records ++ [r] } :: append e.place r l' := by
    rw [append, List.map_cons, if_pos rfl]
    rfl
  rw [hmap, hcons, append_absent hl, append_absent hl']

theorem places_appended : places (append p r l) = places l := by
  rw [places, append, List.map_map]
  apply List.map_congr_left
  intro e _
  simp only [Function.comp_apply]
  split <;> rfl

theorem recordsAt_mem (h : (places l).Nodup) (he : e ∈ l) : recordsAt l e.place = e.records := by
  obtain ⟨xs, ys, rfl⟩ := List.append_of_mem he
  exact recordsAt_split (nodup_split h).1

theorem recordsAt_appended (h : (places l).Nodup) (he : e ∈ l) : recordsAt (append e.place r l) e.place = recordsAt l e.place ++ [r] := by
  obtain ⟨xs, ys, rfl⟩ := List.append_of_mem he
  obtain ⟨hxs, -⟩ := nodup_split h
  rw [append_split h, recordsAt_split hxs]
  exact recordsAt_split (e := { e with records := e.records ++ [r] }) hxs

theorem head_appended : ((append p r l).head?).map LogEntry.place = l.head?.map LogEntry.place := by
  have h := congrArg List.head? (places_appended (l := l) (p := p) (r := r))
  rwa [places, places, List.head?_map, List.head?_map] at h

theorem behind_appended : (behind q (append p r l)).map LogEntry.place = (behind q l).map LogEntry.place := by
  induction l with
  | nil => rfl
  | cons e l ih =>
    have hplace : (if e.place = p then { e with records := e.records ++ [r] } else e).place = e.place := by split <;> rfl
    rw [append, List.map_cons, behind, behind, hplace]
    split
    · exact head_appended
    · exact ih

end RecordLog

end Lpc1788Libraries.Support

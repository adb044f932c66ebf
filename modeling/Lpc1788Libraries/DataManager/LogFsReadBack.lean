import Lpc1788Libraries.DataManager.LogFsStoreRuns

namespace Lpc1788Libraries.DataManager

open Lpc1788Libraries.Support NorFlash BoundedProgram

variable {c : LogFsCfg} {σ : LogStore} {s t u : Sys} {page k n : ℕ} {m : Option ℕ} {d : Rec} {hist : List (LogFsCall × LogFsAnswer)}
  {call : LogFsCall} {calls : List LogFsCall} {a : LogFsAnswer} {as : List LogFsAnswer}

section calls

theorem Represents.does (call : LogFsCall) (hl : c.type = .linear) (hcap : 0 < capacity c) (hbound : call.AsksBound → c.maxPages ≠ c.ring.size)
    (h : Represents c σ s) (hp : σ.Permitted c call) :
    ∃ a t, (logFsCall c call).Returns s a t ∧ σ.Answers c a call ∧ Represents c (σ.after c t.filePage a.err call) t := by
  obtain ⟨a, t, ht⟩ := h.terminates _ hl hbound hp
  exact ⟨a, t, ht, h.call _ hl hcap hp ht⟩

end calls

section reads

/-- The store with another record read last. -/
def LogStore.at (σ : LogStore) (page k : ℕ) : LogStore := { σ with handle := some (page, some k) }

theorem moved_found (hh : σ.handle = some (page, m)) (hd : σ.records[k]? = some d) : σ.moved (some k) = σ.at page k := by
  obtain ⟨files, info, handle⟩ := σ
  obtain rfl : handle = some (page, m) := hh
  unfold LogStore.moved
  rw [Option.bind_some, hd]
  rfl

theorem records_at (hh : σ.handle = some (page, m)) : (σ.at page k).records = σ.records := by
  obtain ⟨files, info, handle⟩ := σ
  obtain rfl : handle = some (page, m) := hh
  rfl

theorem reads_forward (hl : c.type = .linear) (hcap : 0 < capacity c) (j : ℕ) (h : Represents c σ s)
    (hh : σ.handle = some (page, some k)) (hj : k + 1 + j = σ.records.length) :
    ∃ t, (logFsCalls c (List.replicate (j + 1) (.recordRdNext n))).Returns s
      ((σ.records.drop (k + 1)).map (fun d => recordAnswer n (some d)) ++ [recordAnswer n none]) t := by
  induction j generalizing σ s k with
  | zero =>
    obtain ⟨a, t, ht, ha, -⟩ := h.does (.recordRdNext n) hl hcap False.elim ⟨page, k, hh⟩
    have ha : a = recordAnswer n none := by
      rw [ha, LogStore.reads, LogStore.seeks, hh]
      change recordAnswer n (σ.records[k + 1]?) = _
      rw [List.getElem?_eq_none (by omega)]
    refine ⟨t, ?_⟩
    rw [List.drop_of_length_le (by omega), ← ha]
    exact calls_cons ht calls_nil
  | succ j ih =>
    obtain ⟨a, t, ht, ha, hrep⟩ := h.does (.recordRdNext n) hl hcap False.elim ⟨page, k, hh⟩
    have hlt : k + 1 < σ.records.length := by omega
    have hd : σ.records[k + 1]? = some σ.records[k + 1] := List.getElem?_eq_getElem hlt
    have hseeks : σ.seeks (.recordRdNext n) = some (k + 1) := by
      rw [LogStore.seeks, hh]
      rfl
    have ha : a = recordAnswer n (some σ.records[k + 1]) := by
      rw [ha, LogStore.reads, hseeks, Option.bind_some, hd]
    have hrep : Represents c (σ.at page (k + 1)) t := by
      rw [← moved_found hh hd, ← hseeks]
      exact hrep
    have hrecords : (σ.at page (k + 1)).records = σ.records := records_at hh
    obtain ⟨u, hu⟩ := ih hrep rfl (by rw [hrecords]; omega)
    refine ⟨u, ?_⟩
    rw [hrecords] at hu
    rw [List.drop_eq_getElem_cons hlt, List.map_cons, List.cons_append, ← ha]
    exact calls_cons ht hu

theorem reads_first_next (hl : c.type = .linear) (hcap : 0 < capacity c) (h : Represents c σ s) (hh : σ.handle = some (page, m)) :
    ∃ t, (logFsCalls c (.recordRdFirst n :: List.replicate σ.records.length (.recordRdNext n))).Returns s
      (σ.records.map (fun d => recordAnswer n (some d)) ++ [recordAnswer n none]) t := by
  obtain ⟨a, t, ht, ha, hrep⟩ := h.does (.recordRdFirst n) hl hcap False.elim ⟨page, m, hh⟩
  have ha : a = recordAnswer n σ.records[0]? := ha
  cases hrecords : σ.records with
  | nil =>
    rw [hrecords] at ha
    refine ⟨t, ?_⟩
    rw [ha] at ht
    exact calls_cons ht calls_nil
  | cons d ds =>
    have hd : σ.records[0]? = some d := by rw [hrecords]; rfl
    have hrep : Represents c (σ.at page 0) t := by
      rw [← moved_found hh hd]
      exact hrep
    have hsame : (σ.at page 0).records = σ.records := records_at hh
    obtain ⟨u, hu⟩ := reads_forward (n := n) hl hcap ds.length hrep rfl (by rw [hsame, hrecords, List.length_cons]; omega)
    refine ⟨u, ?_⟩
    rw [hsame, hrecords] at hu
    rw [ha, hd] at ht
    exact calls_cons ht hu

theorem reads_backward (hl : c.type = .linear) (hcap : 0 < capacity c) (h : Represents c σ s)
    (hh : σ.handle = some (page, some k)) (hi : σ.info = some page) (hk : k < σ.records.length) :
    ∃ t, (logFsCalls c (List.replicate (k + 1) (.recordRdPrevious n))).Returns s
      ((σ.records.take k).reverse.map (fun d => recordAnswer n (some d)) ++ [recordAnswer n none]) t := by
  induction k generalizing σ s with
  | zero =>
    obtain ⟨a, t, ht, ha, -⟩ := h.does (.recordRdPrevious n) hl hcap False.elim ⟨page, 0, hh, hi⟩
    have ha : a = recordAnswer n none := by
      rw [ha, LogStore.reads, LogStore.seeks, hh]
      rfl
    refine ⟨t, ?_⟩
    rw [List.take_zero, ← ha]
    exact calls_cons ht calls_nil
  | succ k ih =>
    obtain ⟨a, t, ht, ha, hrep⟩ := h.does (.recordRdPrevious n) hl hcap False.elim ⟨page, k + 1, hh, hi⟩
    have hlt : k < σ.records.length := by omega
    have hd : σ.records[k]? = some σ.records[k] := List.getElem?_eq_getElem hlt
    have hseeks : σ.seeks (.recordRdPrevious n) = some k := by
      rw [LogStore.seeks, hh]
      rfl
    have ha : a = recordAnswer n (some σ.records[k]) := by
      rw [ha, LogStore.reads, hseeks, Option.bind_some, hd]
    have hrep : Represents c (σ.at page k) t := by
      rw [← moved_found hh hd, ← hseeks]
      exact hrep
    have hrecords : (σ.at page k).records = σ.records := records_at hh
    obtain ⟨u, hu⟩ := ih hrep rfl hi (by rw [hrecords]; omega)
    refine ⟨u, ?_⟩
    rw [hrecords] at hu
    rw [List.take_succ_eq_append_getElem hlt, List.reverse_concat, List.map_cons, List.cons_append, ← ha]
    exact calls_cons ht hu

theorem reads_last_previous (hl : c.type = .linear) (hcap : 0 < capacity c) (h : Represents c σ s) (hh : σ.handle = some (page, m))
    (hi : σ.info = some page) :
    ∃ t, (logFsCalls c (.recordRdLast n :: List.replicate σ.records.length (.recordRdPrevious n))).Returns s
      (σ.records.reverse.map (fun d => recordAnswer n (some d)) ++ [recordAnswer n none]) t := by
  obtain ⟨a, t, ht, ha, hrep⟩ := h.does (.recordRdLast n) hl hcap False.elim ⟨page, m, hh, hi⟩
  have ha : a = recordAnswer n (σ.reads (.recordRdLast n)) := ha
  rcases List.eq_nil_or_concat σ.records with hnil | ⟨ds, d, hds⟩
  · rw [LogStore.reads, LogStore.seeks, if_pos hnil] at ha
    refine ⟨t, ?_⟩
    rw [ha] at ht
    rw [hnil]
    exact calls_cons ht calls_nil
  · rw [List.concat_eq_append] at hds
    have hlen : σ.records.length = ds.length + 1 := by rw [hds, List.length_append, List.length_singleton]
    have hd : σ.records[ds.length]? = some d := by rw [hds, List.getElem?_concat_length]
    have hseeks : σ.seeks (.recordRdLast n) = some ds.length := by
      rw [LogStore.seeks, if_neg (by rw [hds]; simp), hlen, Nat.add_sub_cancel]
    rw [LogStore.reads, hseeks, Option.bind_some, hd] at ha
    have hrep : Represents c (σ.at page ds.length) t := by
      rw [← moved_found hh hd, ← hseeks]
      exact hrep
    have hsame : (σ.at page ds.length).records = σ.records := records_at hh
    obtain ⟨u, hu⟩ := reads_backward (n := n) hl hcap hrep rfl hi (by rw [hsame, hlen]; omega)
    refine ⟨u, ?_⟩
    rw [hsame, hds, List.take_left] at hu
    rw [ha] at ht
    rw [hlen, hds, List.reverse_concat]
    exact calls_cons ht hu

/-- What is read back from the open file in any order of its records. -/
theorem run_read_back (hl : c.type = .linear) (hcap : 0 < capacity c) (h : Run c hist σ s) (hh : σ.handle = some (page, m)) :
    (∃ t, (logFsCalls c (.recordRdFirst n :: List.replicate σ.records.length (.recordRdNext n))).Returns s
      (σ.records.map (fun d => recordAnswer n (some d)) ++ [recordAnswer n none]) t) ∧
    (σ.info = some page → ∃ t, (logFsCalls c (.recordRdLast n :: List.replicate σ.records.length (.recordRdPrevious n))).Returns s
      (σ.records.reverse.map (fun d => recordAnswer n (some d)) ++ [recordAnswer n none]) t) :=
  ⟨reads_first_next hl hcap (h.represents hl hcap) hh, reads_last_previous hl hcap (h.represents hl hcap) hh⟩

theorem run_read_back_example : ∃ page hist s t, Run reclaimCfg hist (twoRecords page) s ∧
    (logFsCalls reclaimCfg [.recordRdLast 3, .recordRdPrevious 3, .recordRdPrevious 3]).Returns s
      [recordAnswer 3 (some (recordData 3 [2])), recordAnswer 3 (some (recordData 3 [1])), recordAnswer 3 none] t := by
  obtain ⟨page, hist, s, h⟩ := twoRecords_run
  obtain ⟨t, ht⟩ := (run_read_back (n := 3) rfl (by decide) h rfl).2 rfl
  rw [twoRecords_records] at ht
  exact ⟨page, hist, s, t, h, ht⟩

end reads

section files

theorem listed_entries {b : ℕ} {stored : List StoredFile} :
    (listed c b stored).map foundFile = (entries c b stored).map fun e => fileAnswer (some e) := by
  induction stored generalizing b with
  | nil => rfl
  | cons g stored ih =>
    rw [listed, entries, List.map_cons, List.map_cons, ih]
    rfl

theorem length_entries {b : ℕ} {stored : List StoredFile} : (entries c b stored).length = stored.length := by
  induction stored generalizing b with
  | nil => rfl
  | cons g stored ih => rw [entries, List.length_cons, List.length_cons, ih]

theorem Represents.nodup (h : Represents c σ s) : σ.files.places.Nodup := by
  cases h with
  | blank flash log => exact List.nodup_nil
  | stored image mounted kept info_page opened => exact nodup_places image.volume

/-- The searches come to every file once, from the oldest to the newest and back. -/
theorem run_enumerates (hl : c.type = .linear) (hcap : 0 < capacity c) (h : Run c hist σ s) :
    σ.files.places.Nodup ∧
    (∃ t, (logFsCalls c (.fileFindFirst :: List.replicate σ.files.length .fileFindNext)).Returns s
      (σ.files.map (fun e => fileAnswer (some e)) ++ [fileAnswer none]) t) ∧
    ∃ t, (logFsCalls c (.fileFindLast :: List.replicate σ.files.length .fileFindPrevious)).Returns s
      (σ.files.reverse.map (fun e => fileAnswer (some e)) ++ [fileAnswer none]) t := by
  have hrep := h.represents hl hcap
  refine ⟨hrep.nodup, ?_⟩
  cases hrep with
  | blank flash log =>
    obtain ⟨a, t, ht, ha, -⟩ := (Represents.blank flash log).does .fileFindFirst hl hcap False.elim trivial
    obtain ⟨b, u, hu, hb, -⟩ := (Represents.blank flash log).does .fileFindLast hl hcap False.elim trivial
    obtain rfl : a = fileAnswer none := ha
    obtain rfl : b = fileAnswer none := hb
    exact ⟨⟨t, calls_cons ht calls_nil⟩, u, calls_cons hu calls_nil⟩
  | stored image mounted kept info_page opened =>
    rw [length_entries, ← listed_entries, List.map_reverse, ← listed_entries, ← List.map_reverse]
    exact ⟨fileFind_forward image.volume mounted, fileFind_backward image.volume mounted⟩

theorem run_enumerates_example : ∃ page hist s t, Run reclaimCfg hist (twoRecords page) s ∧
    (logFsCalls reclaimCfg [.fileFindFirst, .fileFindNext]).Returns s [foundFile ⟨page, reclaimTime⟩, noMoreFiles] t := by
  obtain ⟨page, hist, s, h⟩ := twoRecords_run
  obtain ⟨t, ht⟩ := (run_enumerates rfl (by decide) h).2.1
  exact ⟨page, hist, s, t, h, ht⟩

end files

end Lpc1788Libraries.DataManager

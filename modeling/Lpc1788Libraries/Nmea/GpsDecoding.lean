import Lpc1788Libraries.Nmea.Decoding

namespace Lpc1788Libraries.Nmea

open Lpc1788Libraries.Support IntegerText

/-- A string with the zero that ends it, and nothing behind. -/
def Terminated (l : List UInt8) : Prop := ∃ s : List UInt8, (∀ c ∈ s, c ≠ 0) ∧ l = s ++ [0]

variable {c : UInt8} {l t id : List UInt8} {gps : Gps}

section reads

theorem Terminated.zero_mem (h : Terminated l) : 0 ∈ l := by
  obtain ⟨s, -, rfl⟩ := h
  exact List.mem_append_right _ (List.mem_singleton_self 0)

theorem Terminated.tail (h : Terminated (c :: t)) (hc : c ≠ 0) : Terminated t := by
  obtain ⟨s, hs, hl⟩ := h
  cases s with
  | nil => exact absurd (List.cons.inj hl).1 hc
  | cons d s => exact ⟨s, fun x hx => hs x (List.mem_cons_of_mem _ hx), (List.cons.inj hl).2⟩

theorem Terminated.eq_of_zero (h : Terminated (c :: t)) (hc : c = 0) : t = [] := by
  obtain ⟨s, hs, hl⟩ := h
  cases s with
  | nil => exact (List.cons.inj hl).2
  | cons d s => exact absurd ((List.cons.inj hl).1.symm.trans hc) (hs d List.mem_cons_self)

theorem Terminated.drop (h : Terminated l) (hid : 0 ∉ id) (hp : id <+: l) : ∃ r, l = id ++ r ∧ Terminated r := by
  obtain ⟨r, rfl⟩ := hp
  refine ⟨r, rfl, ?_⟩
  induction id with
  | nil => exact h
  | cons d id ih =>
    apply ih (fun hm => hid (List.mem_cons_of_mem _ hm))
    exact Terminated.tail h fun hd => hid (by rw [hd]; exact List.mem_cons_self)

theorem drop_terminated (h : Terminated l) (hlen : id.length = 3) (hid : 0 ∉ id) (hp : id <+: l) :
    (l = id ++ [0] ∧ l.drop 4 = []) ∨ (l ≠ id ++ [0] ∧ 0 ∈ l.drop 4) := by
  obtain ⟨r, rfl, hr⟩ := h.drop hid hp
  have hdrop : (id ++ r).drop 4 = r.drop 1 := by
    rw [List.drop_append, hlen, List.drop_of_length_le (by omega), List.nil_append]
  rw [hdrop]
  obtain ⟨c, t, rfl, -⟩ := head_returns hr.zero_mem
  by_cases hc : c = 0
  · left
    rw [hr.eq_of_zero hc, hc]
    exact ⟨rfl, rfl⟩
  · right
    constructor
    · intro he
      exact hc (List.cons.inj (List.append_cancel_left he)).1
    · exact (hr.tail hc).zero_mem

theorem isSome_bind_some {α β : Type} {x : Option α} {f : α → β} : (x >>= fun a => some (f a)).isSome = x.isSome := by
  cases x with
  | none => rfl
  | some a => rfl

theorem behind_id {α : Type} (parse : List UInt8 → Option α) (hnil : parse [] = none)
    (hparse : ∀ l, 0 ∈ l → ∃ a, parse l = some a) (h : Terminated l) (hlen : id.length = 3) (hid : 0 ∉ id)
    (hp : id <+: l) : (parse (l.drop 4)).isSome ↔ l ≠ id ++ [0] := by
  rcases drop_terminated h hlen hid hp with ⟨hl, hdrop⟩ | ⟨hl, h0⟩
  · rw [hdrop, hnil]
    exact ⟨fun hf => absurd hf Bool.false_ne_true, fun hf => absurd hl hf⟩
  · obtain ⟨a, ha⟩ := hparse _ h0
    rw [ha]
    exact ⟨fun _ => hl, fun _ => rfl⟩

theorem not_prefix_ne (hp : ¬ id <+: l) : l ≠ id ++ [0] := by
  rintro rfl
  exact hp (List.prefix_append _ _)

theorem ne_of_prefix {id' : List UInt8} (hp : id <+: l) (hlen : id.length = id'.length) (hne : id ≠ id') :
    l ≠ id' ++ [0] := by
  rintro rfl
  obtain ⟨r, hr⟩ := hp
  exact hne (List.append_inj hr hlen).1

theorem message_reads (gps : Gps) (h : Terminated l) : (nmeaOnMessage gps l).isSome ↔
    l ≠ nmeaGgaStr ++ [0] ∧ l ≠ nmeaVtgStr ++ [0] ∧ l ≠ nmeaRmcStr ++ [0] := by
  have hgga : 0 ∉ nmeaGgaStr := by decide
  have hvtg : 0 ∉ nmeaVtgStr := by decide
  have hrmc : 0 ∉ nmeaRmcStr := by decide
  obtain ⟨gga, hg, hgp⟩ := startsWith_returns hgga h.zero_mem
  obtain ⟨vtg, hv, hvp⟩ := startsWith_returns hvtg h.zero_mem
  obtain ⟨rmc, hr, hrp⟩ := startsWith_returns hrmc h.zero_mem
  unfold nmeaOnMessage
  rw [hg, hv, hr]
  by_cases hg : gga = true
  · have hp := hgp.mp hg
    have hreads := behind_id (parseGga gps.nmeaData) rfl (fun l h0 => parseGga_returns h0 _) h rfl hgga hp
    rw [hg]
    refine Iff.trans (Bool.eq_iff_iff.mp isSome_bind_some) (hreads.trans ⟨fun hl => ⟨hl, ?_, ?_⟩, fun hl => hl.1⟩)
    · exact ne_of_prefix hp rfl (by decide)
    · exact ne_of_prefix hp rfl (by decide)
  · have hng : l ≠ nmeaGgaStr ++ [0] := not_prefix_ne fun hp => hg (hgp.mpr hp)
    rw [Bool.not_eq_true] at hg
    rw [hg]
    by_cases hv : vtg = true
    · have hp := hvp.mp hv
      have hreads := behind_id (parseVtg gps.nmeaData) rfl (fun l h0 => parseVtg_returns h0 _) h rfl hvtg hp
      rw [hv]
      refine Iff.trans (Bool.eq_iff_iff.mp isSome_bind_some) (hreads.trans ⟨fun hl => ⟨hng, hl, ?_⟩, fun hl => hl.2.1⟩)
      exact ne_of_prefix hp rfl (by decide)
    · have hnv : l ≠ nmeaVtgStr ++ [0] := not_prefix_ne fun hp => hv (hvp.mpr hp)
      rw [Bool.not_eq_true] at hv
      rw [hv]
      by_cases hr : rmc = true
      · have hp := hrp.mp hr
        have hreads := behind_id (parseRmc gps) rfl (fun l h0 => parseRmc_returns h0 _) h rfl hrmc hp
        rw [hr]
        exact Iff.trans (Bool.eq_iff_iff.mp isSome_bind_some) (hreads.trans ⟨fun hl => ⟨hng, hnv, hl⟩, fun hl => hl.2.2⟩)
      · have hnr : l ≠ nmeaRmcStr ++ [0] := not_prefix_ne fun hp => hr (hrp.mpr hp)
        rw [Bool.not_eq_true] at hr
        rw [hr]
        exact ⟨fun _ => ⟨hng, hnv, hnr⟩, fun _ => rfl⟩

/-- The sentences that end behind their id. -/
def cutSentences : List (List UInt8) := [nmeaGgaStr, nmeaVtgStr, nmeaRmcStr].map ([0x47, 0x50] ++ ·)

theorem mem_cutSentences (s : List UInt8) : s ∈ cutSentences ↔
    ∃ t, s = 0x47 :: 0x50 :: t ∧ (t = nmeaGgaStr ∨ t = nmeaVtgStr ∨ t = nmeaRmcStr) := by
  unfold cutSentences
  rw [List.mem_map]
  constructor
  · rintro ⟨t, ht, rfl⟩
    exact ⟨t, rfl, by simpa using ht⟩
  · rintro ⟨t, rfl, ht⟩
    exact ⟨t, by simpa using ht, rfl⟩

/-- All that is read lies in the string and the zero that ends it. -/
def ReadsWithin (gps : Gps) (s : List UInt8) : Prop := (nmeaOnRxFrame gps (s ++ [0])).isSome

theorem readsWithin_other {s : List UInt8} (hs : ∀ t, s ≠ 0x47 :: 0x50 :: t) (gps : Gps) : ReadsWithin gps s := by
  unfold ReadsWithin nmeaOnRxFrame
  rcases s with _ | ⟨c, _ | ⟨d, t⟩⟩
  · rfl
  · by_cases hc : c = 0x47
    · rw [hc]
      rfl
    · change Option.isSome (if c ≠ 0x47 then _ else _) = true
      rw [if_pos hc]
      rfl
  · change Option.isSome (if c ≠ 0x47 then _ else if d ≠ 0x50 then _ else _) = true
    by_cases hc : c = 0x47
    · by_cases hd : d = 0x50
      · exact absurd (by rw [hc, hd]) (hs t)
      · rw [if_neg (not_not.mpr hc), if_pos hd]
        rfl
    · rw [if_pos hc]
      rfl

theorem readsWithin_iff {s : List UInt8} (hs : ∀ c ∈ s, c ≠ 0) (gps : Gps) : ReadsWithin gps s ↔ s ∉ cutSentences := by
  rw [mem_cutSentences]
  by_cases ht : ∃ t, s = 0x47 :: 0x50 :: t
  · obtain ⟨t, rfl⟩ := ht
    have hterm : Terminated (t ++ [0]) :=
      ⟨t, fun c hc => hs c (List.mem_cons_of_mem _ (List.mem_cons_of_mem _ hc)), rfl⟩
    have hreads : ReadsWithin gps (0x47 :: 0x50 :: t) ↔ (nmeaOnMessage gps (t ++ [0])).isSome :=
      Bool.eq_iff_iff.mp isSome_bind_some
    have hend : ∀ id, t ++ [0] ≠ id ++ [0] ↔ t ≠ id := fun id => not_congr (List.append_left_inj _)
    rw [hreads, message_reads gps hterm, hend, hend, hend]
    constructor
    · rintro ⟨hg, hv, hr⟩ ⟨t', he, h⟩
      have htt : t = t' := (List.cons.inj (List.cons.inj he).2).2
      rw [← htt] at h
      exact h.elim hg fun h => h.elim hv hr
    · intro h
      exact ⟨fun hg => h ⟨t, rfl, Or.inl hg⟩, fun hv => h ⟨t, rfl, Or.inr (Or.inl hv)⟩,
        fun hr => h ⟨t, rfl, Or.inr (Or.inr hr)⟩⟩
  · constructor
    · rintro - ⟨t, he, -⟩
      exact ht ⟨t, he⟩
    · intro _
      exact readsWithin_other (fun t he => ht ⟨t, he⟩) gps

end reads

section decoding

/-- The parser keeps to the string unless it ends behind its id, and decodes a sentence where the fix is valid and no
fraction of the sentence before is left in a variable. -/
theorem nmeaOnRxFrame_decodes_iff (gps : Gps) (stale : List UInt8) :
    (∀ s : List UInt8, (∀ c ∈ s, c ≠ 0) → (ReadsWithin gps s ↔ s ∉ cutSentences)) ∧
    (∀ s : Gga, s.WellFormed → (GgaDecoded gps s stale ↔
      s.FixValid ∧ (s.time.fraction ≠ none ∨ gps.nmeaData.utcTimeFraction = 0) ∧
      (s.hdop.fraction ≠ none ∨ gps.nmeaData.hdopFraction = 0) ∧
      (s.altitude.fraction ≠ none ∨ gps.nmeaData.altitudeFraction = 0))) ∧
    ∀ s : Vtg, s.WellFormed → (VtgDecoded gps s stale ↔
      (s.heading.fraction ≠ none ∨ gps.nmeaData.headingFraction = 0) ∧
      (s.speed.fraction ≠ none ∨ gps.nmeaData.speedFraction = 0)) := by
  constructor
  · intro s hs
    exact readsWithin_iff hs gps
  · constructor
    · intro s h
      exact ggaDecoded_iff h gps stale
    · intro s h
      exact vtgDecoded_iff h gps stale

/-- The variables at reset. -/
def resetGps : Gps where
  nmeaData := ⟨0, 0, 0, 0, 0, 0, 0, 0, 0, 0, 0, 0, 0, 0, 0, false, false⟩
  rmcTime := ⟨0, 0, 0⟩
  latitude := ⟨0, 0, 0, 0⟩
  longitude := ⟨0, 0, 0, 0⟩
  rmcDate := ⟨0, 0, 0⟩
  rmcDataValid := false

/-- `123519,4807.038,N,01131.000,E,<fix>,08,0.9,545.4,M` -/
def sampleGga (fix : List UInt8) : Gga where
  time := ⟨[0x31, 0x32, 0x33, 0x35, 0x31, 0x39], none⟩
  latitude := ⟨[0x34, 0x38, 0x30, 0x37], some [0x30, 0x33, 0x38]⟩
  north := [0x4e]
  longitude := ⟨[0x30, 0x31, 0x31, 0x33, 0x31], some [0x30, 0x30, 0x30]⟩
  east := [0x45]
  fix := fix
  satellites := [0x30, 0x38]
  hdop := ⟨[0x30], some [0x39]⟩
  altitudeSign := false
  altitude := ⟨[0x35, 0x34, 0x35], some [0x34]⟩
  tail := [0x2c, 0x4d]

/-- `054.7,T,034.4,M,005.5,N,010.2,K` -/
def sampleVtg : Vtg where
  heading := ⟨[0x30, 0x35, 0x34], some [0x37]⟩
  headingMark := [0x54]
  magnetic := [0x30, 0x33, 0x34, 0x2e, 0x34]
  magneticMark := [0x4d]
  knots := [0x30, 0x30, 0x35, 0x2e, 0x35]
  knotsMark := [0x4e]
  speed := ⟨[0x30, 0x31, 0x30], some [0x32]⟩
  tail := [0x2c, 0x4b]

theorem decimal_wellFormed {ds f : List UInt8} (h : (ds ++ f).all (isDigit 10) = true) :
    Decimal.WellFormed ⟨ds, none⟩ ∧ Decimal.WellFormed ⟨ds, some f⟩ := by
  have hall := List.all_eq_true.mp h
  have hds : ∀ c ∈ ds, isDigit 10 c := fun c hc => hall c (List.mem_append_left _ hc)
  constructor
  · exact ⟨hds, fun g hg => absurd hg (by simp)⟩
  · exact ⟨hds, fun g hg c hc => hall c (List.mem_append_right _ (by rw [Option.some.inj hg]; exact hc))⟩

theorem sampleGga_wellFormed {c : UInt8} (hc : isDigit 10 c) : (sampleGga [c]).WellFormed where
  time := (decimal_wellFormed (f := []) (by decide)).1
  time_lt := of_decide_eq_true rfl
  latitude := (decimal_wellFormed (by decide)).2
  latitude_fits := Or.inl (of_decide_eq_true rfl)
  north := Or.inr (Or.inl rfl)
  longitude := (decimal_wellFormed (by decide)).2
  longitude_fits := Or.inl (of_decide_eq_true rfl)
  east := Or.inr (Or.inl rfl)
  fix := Or.inr ⟨c, hc, rfl⟩
  satellites := List.all_eq_true.mp rfl
  satellites_lt := of_decide_eq_true rfl
  hdop := (decimal_wellFormed (by decide)).2
  hdop_lt := of_decide_eq_true rfl
  altitude := (decimal_wellFormed (by decide)).2
  altitude_fits := Or.inl (of_decide_eq_true rfl)
  tail := ⟨by simp [sampleGga], Or.inr rfl⟩

theorem sampleVtg_wellFormed : sampleVtg.WellFormed where
  heading := (decimal_wellFormed (by decide)).2
  heading_lt := by decide
  headingMark := by decide
  magnetic := by decide
  magneticMark := by decide
  knots := by decide
  knotsMark := by decide
  speed := (decimal_wellFormed (by decide)).2
  speed_lt := by decide
  tail := ⟨by simp [sampleVtg], Or.inr rfl⟩

theorem nmeaOnRxFrame_decodes_iff_sample :
    ReadsWithin resetGps [0x47, 0x50, 0x47, 0x47, 0x41, 0x2c] ∧ GgaDecoded resetGps (sampleGga [0x31]) [] ∧
    VtgDecoded resetGps sampleVtg [] := by
  constructor
  · exact ((nmeaOnRxFrame_decodes_iff resetGps []).1 _ (by simp)).mpr (by decide)
  · constructor
    · apply ((nmeaOnRxFrame_decodes_iff resetGps []).2.1 _ (sampleGga_wellFormed (by decide))).mpr
      exact ⟨⟨by decide, by decide⟩, Or.inr rfl, Or.inr rfl, Or.inr rfl⟩
    · apply ((nmeaOnRxFrame_decodes_iff resetGps []).2.2 _ sampleVtg_wellFormed).mpr
      exact ⟨Or.inr rfl, Or.inr rfl⟩

/-- The id alone, and a sentence without a fix. -/
theorem nmeaOnRxFrame_reads_behind :
    ¬ ReadsWithin resetGps [0x47, 0x50, 0x47, 0x47, 0x41] ∧ (sampleGga [0x30]).WellFormed ∧
    ¬ GgaDecoded resetGps (sampleGga [0x30]) [] := by
  have hwf : (sampleGga [0x30]).WellFormed := sampleGga_wellFormed (by decide)
  constructor
  · unfold ReadsWithin
    decide
  · refine ⟨hwf, ?_⟩
    rw [ggaDecoded_iff hwf]
    rintro ⟨⟨-, hfix⟩, -⟩
    exact hfix rfl

end decoding

end Lpc1788Libraries.Nmea

import Lpc1788Libraries.Nmea.Parser

namespace Lpc1788Libraries.Nmea

open Lpc1788Libraries.Support IntegerText

variable {w p v k : ℕ} {c : UInt8} {l l' ds r t : List UInt8}

section reads

/-! Where a zero lies ahead, a parser stops at it or before. -/

theorem zero_mem_tail (hc : c ≠ 0) (h : 0 ∈ c :: l) : 0 ∈ l := by
  rcases List.mem_cons.mp h with h | h
  · exact absurd h.symm hc
  · exact h

theorem ne_zero_of_not_stops (h : ¬ stops c = true) : c ≠ 0 := by
  rintro rfl
  exact h rfl

theorem parseUnsigned_returns (h : 0 ∈ l) (v : ℕ) : ∃ l' v', nmeaParseStrToUnsigned w l v = some (l', v') ∧ 0 ∈ l' := by
  induction l generalizing v with
  | nil => exact absurd h List.not_mem_nil
  | cons c l ih =>
    rw [nmeaParseStrToUnsigned]
    by_cases hs : stops c
    · exact ⟨c :: l, v, if_pos hs, h⟩
    · have hl := zero_mem_tail (ne_zero_of_not_stops hs) h
      rw [if_neg hs]
      split
      · exact ih hl v
      · exact ih hl _

theorem parseS16Loop_returns (h : 0 ∈ l) (b : Bool) (v : ℤ) :
    ∃ l' b' v', nmeaParseStrToS16Loop l b v = some (l', b', v') ∧ 0 ∈ l' := by
  induction l generalizing b v with
  | nil => exact absurd h List.not_mem_nil
  | cons c l ih =>
    rw [nmeaParseStrToS16Loop]
    by_cases hs : stops c
    · exact ⟨c :: l, b, v, if_pos hs, h⟩
    · have hl := zero_mem_tail (ne_zero_of_not_stops hs) h
      rw [if_neg hs]
      split
      · exact ih hl b v
      · split
        · exact ih hl true v
        · exact ih hl b _

theorem parseS16_returns (h : 0 ∈ l) : ∃ l' v, nmeaParseStrToS16 l = some (l', v) ∧ 0 ∈ l' := by
  obtain ⟨l', b, v, hl, h0⟩ := parseS16Loop_returns h false 0
  unfold nmeaParseStrToS16
  rw [hl]
  exact ⟨l', _, rfl, h0⟩

theorem parseFraction_returns (h : 0 ∈ l) (v p : ℕ) :
    ∃ l' v', nmeaParseStrFractionToUnsigned w l v p = some (l', v') ∧ 0 ∈ l' := by
  induction l generalizing v p with
  | nil => exact absurd h List.not_mem_nil
  | cons c l ih =>
    rw [nmeaParseStrFractionToUnsigned]
    by_cases hs : (stops c || decide (p = 0)) = true
    · exact ⟨c :: l, _, if_pos hs, h⟩
    · have hc : ¬ stops c = true := fun hc => hs (by rw [hc, Bool.true_or])
      have hl := zero_mem_tail (ne_zero_of_not_stops hc) h
      rw [if_neg hs]
      split
      · exact ih hl v p
      · exact ih hl _ _

theorem head_returns (h : 0 ∈ l) : ∃ c t, l = c :: t ∧ l.head? = some c := by
  cases l with
  | nil => exact absurd h List.not_mem_nil
  | cons c t => exact ⟨c, t, rfl, rfl⟩

theorem optionalFraction_returns (h : 0 ∈ l) : ∃ l' v, optionalFraction w p k l = some (l', v) ∧ 0 ∈ l' := by
  obtain ⟨c, t, rfl, -⟩ := head_returns h
  by_cases hc : c = 0x2e
  · have ht : 0 ∈ t := zero_mem_tail (by rw [hc]; decide) h
    obtain ⟨l', v, hl, h0⟩ := parseFraction_returns (w := w) ht 0 p
    exact ⟨l', v, (if_pos hc).trans hl, h0⟩
  · exact ⟨c :: t, k, if_neg hc, h⟩

theorem findNextParam_returns (h : 0 ∈ l) : ∃ l', nmeaFindNextParam l = some l' ∧ 0 ∈ l' := by
  induction l with
  | nil => exact absurd h List.not_mem_nil
  | cons c l ih =>
    rw [nmeaFindNextParam]
    by_cases hc : c = 0x2c
    · exact ⟨l, if_pos hc, zero_mem_tail (by rw [hc]; decide) h⟩
    · rw [if_neg hc]
      by_cases hz : c = 0
      · exact ⟨c :: l, if_pos hz, h⟩
      · rw [if_neg hz]
        exact ih (zero_mem_tail hz h)

theorem exists_bind {α β : Type} {x : Option α} {a : α} {f : α → Option β} (h : x = some a) (hf : ∃ b, f a = some b) :
    ∃ b, (x >>= f) = some b := by
  rw [h]
  exact hf

theorem parseGga_returns (h : 0 ∈ l) (data : NmeaData) : ∃ d, parseGga data l = some d := by
  obtain ⟨l, _, h1, h⟩ := parseUnsigned_returns (w := 32) h 0
  obtain ⟨l, _, h2, h⟩ := optionalFraction_returns (w := 16) (p := 3) (k := data.utcTimeFraction) h
  obtain ⟨l, h3, h⟩ := findNextParam_returns h
  obtain ⟨l, _, h4, h⟩ := parseUnsigned_returns (w := 16) h 0
  obtain ⟨l, _, h5, h⟩ := optionalFraction_returns (w := 16) (p := 4) (k := 0) h
  obtain ⟨l, h6, h⟩ := findNextParam_returns h
  obtain ⟨_, _, -, h7⟩ := head_returns h
  obtain ⟨l, h8, h⟩ := findNextParam_returns h
  obtain ⟨l, _, h9, h⟩ := parseUnsigned_returns (w := 16) h 0
  obtain ⟨l, _, h10, h⟩ := optionalFraction_returns (w := 16) (p := 4) (k := 0) h
  obtain ⟨l, h11, h⟩ := findNextParam_returns h
  obtain ⟨_, _, -, h12⟩ := head_returns h
  obtain ⟨l, h13, h⟩ := findNextParam_returns h
  obtain ⟨_, _, -, h14⟩ := head_returns h
  obtain ⟨l, h15, h⟩ := findNextParam_returns h
  obtain ⟨l, _, h16, h⟩ := parseUnsigned_returns (w := 8) h 0
  obtain ⟨l, h17, h⟩ := findNextParam_returns h
  obtain ⟨l, _, h18, h⟩ := parseUnsigned_returns (w := 8) h 0
  obtain ⟨l, _, h19, h⟩ := optionalFraction_returns (w := 8) (p := 1) (k := data.hdopFraction) h
  obtain ⟨l, h20, h⟩ := findNextParam_returns h
  obtain ⟨l, _, h21, h⟩ := parseS16_returns h
  obtain ⟨l, _, h22, h⟩ := optionalFraction_returns (w := 8) (p := 2) (k := data.altitudeFraction) h
  unfold parseGga
  apply exists_bind h1
  apply exists_bind h2
  apply exists_bind h3
  apply exists_bind h4
  apply exists_bind h5
  apply exists_bind h6
  apply exists_bind h7
  apply exists_bind h8
  apply exists_bind h9
  apply exists_bind h10
  apply exists_bind h11
  apply exists_bind h12
  apply exists_bind h13
  apply exists_bind h14
  apply exists_bind h15
  apply exists_bind h16
  apply exists_bind h17
  apply exists_bind h18
  apply exists_bind h19
  apply exists_bind h20
  apply exists_bind h21
  apply exists_bind h22
  exact ⟨_, rfl⟩

theorem parseVtg_returns (h : 0 ∈ l) (data : NmeaData) : ∃ d, parseVtg data l = some d := by
  obtain ⟨l, _, h1, h⟩ := parseUnsigned_returns (w := 16) h 0
  obtain ⟨l, _, h2, h⟩ := optionalFraction_returns (w := 8) (p := 2) (k := data.headingFraction) h
  obtain ⟨l, h3, h⟩ := findNextParam_returns h
  obtain ⟨l, h4, h⟩ := findNextParam_returns h
  obtain ⟨l, h5, h⟩ := findNextParam_returns h
  obtain ⟨l, h6, h⟩ := findNextParam_returns h
  obtain ⟨l, h7, h⟩ := findNextParam_returns h
  obtain ⟨l, h8, h⟩ := findNextParam_returns h
  obtain ⟨l, _, h9, h⟩ := parseUnsigned_returns (w := 8) h 0
  obtain ⟨l, _, h10, h⟩ := optionalFraction_returns (w := 8) (p := 2) (k := data.speedFraction) h
  unfold parseVtg
  apply exists_bind h1
  apply exists_bind h2
  apply exists_bind h3
  apply exists_bind h4
  apply exists_bind h5
  apply exists_bind h6
  apply exists_bind h7
  apply exists_bind h8
  apply exists_bind h9
  apply exists_bind h10
  exact ⟨_, rfl⟩

theorem parseRmc_returns (h : 0 ∈ l) (gps : Gps) : ∃ g, parseRmc gps l = some g := by
  obtain ⟨_, _, -, h1⟩ := head_returns h
  obtain ⟨l, h2, h⟩ := findNextParam_returns h
  obtain ⟨l, h3, h⟩ := findNextParam_returns h
  obtain ⟨_, _, -, h4⟩ := head_returns h
  obtain ⟨l, h5, h⟩ := findNextParam_returns h
  obtain ⟨_, _, -, h6⟩ := head_returns h
  obtain ⟨l, h7, h⟩ := findNextParam_returns h
  obtain ⟨_, _, -, h8⟩ := head_returns h
  obtain ⟨l, h9, h⟩ := findNextParam_returns h
  obtain ⟨_, _, -, h10⟩ := head_returns h
  obtain ⟨l, h11, h⟩ := findNextParam_returns h
  obtain ⟨l, h12, h⟩ := findNextParam_returns h
  obtain ⟨l, h13, h⟩ := findNextParam_returns h
  obtain ⟨l, h14, h⟩ := findNextParam_returns h
  obtain ⟨_, _, -, h15⟩ := head_returns h
  unfold parseRmc
  apply exists_bind h1
  apply exists_bind h2
  apply exists_bind h3
  apply exists_bind h4
  apply exists_bind h5
  apply exists_bind h6
  apply exists_bind h7
  apply exists_bind h8
  apply exists_bind h9
  apply exists_bind h10
  apply exists_bind h11
  apply exists_bind h12
  apply exists_bind h13
  apply exists_bind h14
  apply exists_bind h15
  exact ⟨_, rfl⟩

theorem startsWith_returns {id : List UInt8} (hid : 0 ∉ id) (h : 0 ∈ l) :
    ∃ b, startsWith l id = some b ∧ (b = true ↔ id <+: l) := by
  induction id generalizing l with
  | nil => exact ⟨true, by rw [startsWith], fun _ => List.nil_prefix, fun _ => rfl⟩
  | cons d id ih =>
    obtain ⟨c, t, rfl, -⟩ := head_returns h
    rw [startsWith]
    by_cases hc : c = d
    · have ht : 0 ∈ t := zero_mem_tail (fun he => hid (by rw [← hc, he]; exact List.mem_cons_self)) h
      obtain ⟨b, hb, hiff⟩ := ih (fun hm => hid (List.mem_cons_of_mem _ hm)) ht
      refine ⟨b, (if_pos hc).trans hb, hiff.trans ?_⟩
      rw [hc, List.cons_prefix_cons]
      exact ⟨fun hp => ⟨rfl, hp⟩, fun hp => hp.2⟩
    · refine ⟨false, if_neg hc, ?_⟩
      rw [List.cons_prefix_cons]
      exact ⟨fun hf => absurd hf (by decide), fun hp => absurd hp.1.symm hc⟩

end reads

section digits

/-- The value of digits behind a number. -/
def appended (v : ℕ) (ds : List UInt8) : ℕ := ds.foldl (fun n c => n * 10 + digitValue c) v

theorem appended_cons (v : ℕ) (c : UInt8) (ds : List UInt8) : appended v (c :: ds) = appended (v * 10 + digitValue c) ds := rfl

theorem valueOf_eq (ds : List UInt8) : valueOf 10 ds = appended 0 ds := rfl

theorem digit_range (h : isDigit 10 c) : 0x30 ≤ c.toNat ∧ c.toNat ≤ 0x39 ∧ digitValue c = c.toNat - 0x30 := by
  have hlt : digitValue c < 10 := of_decide_eq_true h
  unfold digitValue at hlt ⊢
  split at hlt
  · rename_i hr
    exact ⟨UInt8.le_iff_toNat_le.mp hr.1, UInt8.le_iff_toNat_le.mp hr.2, if_pos hr⟩
  · split at hlt
    · omega
    · split at hlt
      · omega
      · exact absurd hlt (by decide)

theorem digit_plain (h : isDigit 10 c) : ¬ stops c = true ∧ c ≠ 0x20 ∧ c ≠ 0x2d ∧ c ≠ 0x2c ∧ c ≠ 0 := by
  obtain ⟨hlo, -, -⟩ := digit_range h
  have hne : ∀ d : UInt8, d.toNat < 0x30 → c ≠ d := by
    rintro d hd rfl
    omega
  refine ⟨?_, hne 0x20 (by decide), hne 0x2d (by decide), hne 0x2c (by decide), hne 0 (by decide)⟩
  unfold stops
  simp [hne 0x2c (by decide), hne 0x2e (by decide), hne 0 (by decide)]

theorem step_mod (h : isDigit 10 c) (hw : 0x30 ≤ 2 ^ w) (v : ℕ) :
    (v % 2 ^ w * 10 + (c.toNat + 2 ^ w - 0x30)) % 2 ^ w = (v * 10 + digitValue c) % 2 ^ w := by
  obtain ⟨hlo, -, hv⟩ := digit_range h
  have hsum : v % 2 ^ w * 10 + (c.toNat + 2 ^ w - 0x30) = v % 2 ^ w * 10 + digitValue c + 2 ^ w := by omega
  rw [hsum, Nat.add_mod_right, Nat.add_mod, Nat.mod_mul_mod, ← Nat.add_mod]

theorem parseUnsigned_digits (hds : ∀ c ∈ ds, isDigit 10 c) (hc : stops c) (hw : 0x30 ≤ 2 ^ w) (v : ℕ) :
    nmeaParseStrToUnsigned w (ds ++ c :: r) (v % 2 ^ w) = some (c :: r, appended v ds % 2 ^ w) := by
  induction ds generalizing v with
  | nil =>
    rw [List.nil_append, nmeaParseStrToUnsigned]
    exact if_pos hc
  | cons d ds ih =>
    obtain ⟨hs, hblank, -⟩ := digit_plain (hds d List.mem_cons_self)
    rw [List.cons_append, nmeaParseStrToUnsigned, if_neg hs, if_neg hblank, step_mod (hds d List.mem_cons_self) hw,
      ih (fun c hc => hds c (List.mem_cons_of_mem _ hc)), appended_cons]

theorem toS16_step (v d : ℤ) : toS16 (toS16 (toS16 v * 10) + d) = toS16 (v * 10 + d) := by
  unfold toS16
  omega

theorem parseS16Loop_digits (hds : ∀ c ∈ ds, isDigit 10 c) (hc : stops c) (b : Bool) (v : ℕ) :
    nmeaParseStrToS16Loop (ds ++ c :: r) b (toS16 v) = some (c :: r, b, toS16 (appended v ds)) := by
  induction ds generalizing v with
  | nil =>
    rw [List.nil_append, nmeaParseStrToS16Loop]
    exact if_pos hc
  | cons d ds ih =>
    have hd := hds d List.mem_cons_self
    obtain ⟨hs, hblank, hminus, -⟩ := digit_plain hd
    obtain ⟨hlo, -, hv⟩ := digit_range hd
    have hdigit : (d.toNat : ℤ) - 0x30 = digitValue d := by omega
    have hcast : (v : ℤ) * 10 + digitValue d = (v * 10 + digitValue d : ℕ) := by push_cast; rfl
    rw [List.cons_append, nmeaParseStrToS16Loop, if_neg hs, if_neg hblank, if_neg hminus, hdigit, toS16_step, hcast,
      ih (fun c hc => hds c (List.mem_cons_of_mem _ hc)), appended_cons]

theorem scaled_eq (w v p : ℕ) : scaled w (v % 2 ^ w) p = v * 10 ^ p % 2 ^ w := by
  induction p generalizing v with
  | zero => rw [scaled, pow_zero, mul_one]
  | succ p ih =>
    rw [scaled, Nat.mod_mul_mod, ih, pow_succ]
    ring_nf

theorem appended_zeros (v k : ℕ) : appended v (List.replicate k 0x30) = v * 10 ^ k := by
  induction k generalizing v with
  | zero => exact (mul_one v).symm
  | succ k ih =>
    have hzero : digitValue 0x30 = 0 := rfl
    rw [List.replicate_succ, appended_cons, hzero, ih, Nat.add_zero, pow_succ]
    ring

/-- The digits of a fraction, cut off or filled up. -/
def fractionDigits (p : ℕ) (ds : List UInt8) : List UInt8 := (ds ++ List.replicate p 0x30).take p

theorem parseFraction_digits (hds : ∀ c ∈ ds, isDigit 10 c) (hc : stops c) (hw : 0x30 ≤ 2 ^ w) (v p : ℕ) :
    nmeaParseStrFractionToUnsigned w (ds ++ c :: r) (v % 2 ^ w) p =
    some (ds.drop p ++ c :: r, appended v (fractionDigits p ds) % 2 ^ w) := by
  induction ds generalizing v p with
  | nil =>
    have hstop : (stops c || decide (p = 0)) = true := by rw [hc, Bool.true_or]
    have hzeros : fractionDigits p [] = List.replicate p 0x30 := by
      rw [fractionDigits, List.nil_append, List.take_of_length_le (by rw [List.length_replicate])]
    rw [List.nil_append, nmeaParseStrFractionToUnsigned, if_pos hstop, scaled_eq, hzeros, appended_zeros, List.drop_nil,
      List.nil_append]
  | cons d ds ih =>
    have hd := hds d List.mem_cons_self
    obtain ⟨hs, hblank, -⟩ := digit_plain hd
    rw [List.cons_append, nmeaParseStrFractionToUnsigned]
    cases p with
    | zero =>
      have hstop : (stops d || decide (0 = 0)) = true := by rw [decide_eq_true rfl, Bool.or_true]
      rw [if_pos hstop]
      rfl
    | succ p =>
      have hgo : ¬ (stops d || decide (p + 1 = 0)) = true := by
        simp [hs]
      have hdigits : fractionDigits (p + 1) (d :: ds) = d :: fractionDigits p ds := by
        rw [fractionDigits, List.cons_append, List.take_succ_cons, fractionDigits, List.replicate_succ',
          ← List.append_assoc, List.take_append_of_le_length]
        rw [List.length_append, List.length_replicate]
        exact Nat.le_add_left _ _
      rw [if_neg hgo, if_neg hblank, step_mod hd hw, Nat.add_sub_cancel, ih (fun c hc => hds c (List.mem_cons_of_mem _ hc)),
        hdigits, appended_cons, List.drop_succ_cons]

theorem appended_lt (hds : ∀ c ∈ ds, isDigit 10 c) (v : ℕ) : appended v ds < (v + 1) * 10 ^ ds.length := by
  induction ds generalizing v with
  | nil =>
    change v < (v + 1) * 1
    omega
  | cons d ds ih =>
    have hd : digitValue d < 10 := of_decide_eq_true (hds d List.mem_cons_self)
    have hlt := ih (fun c hc => hds c (List.mem_cons_of_mem _ hc)) (v * 10 + digitValue d)
    rw [appended_cons, List.length_cons, pow_succ]
    calc appended (v * 10 + digitValue d) ds
      _ < (v * 10 + digitValue d + 1) * 10 ^ ds.length := hlt
      _ ≤ ((v + 1) * 10) * 10 ^ ds.length := Nat.mul_le_mul_right _ (by omega)
      _ = (v + 1) * (10 ^ ds.length * 10) := by ring

theorem findNextParam_skip (ht : ∀ c ∈ t, c ≠ 0x2c ∧ c ≠ 0) : nmeaFindNextParam (t ++ 0x2c :: r) = some r := by
  induction t with
  | nil => rfl
  | cons c t ih =>
    obtain ⟨hcomma, hzero⟩ := ht c List.mem_cons_self
    rw [List.cons_append, nmeaFindNextParam, if_neg hcomma, if_neg hzero]
    exact ih fun c hc => ht c (List.mem_cons_of_mem _ hc)

end digits

end Lpc1788Libraries.Nmea

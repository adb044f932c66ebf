import Lpc1788Libraries.Monitor.StringHandler
import Lpc1788Libraries.Support.IntegerText

namespace Lpc1788Libraries.Monitor

open Lpc1788Libraries.Support IntegerText

variable {r c : UInt8} {str rest l ds : List UInt8} {neg : Bool}

section digits

/-- The characters behind the decimal digits that the loop takes for the digits from ten on. -/
def looseChar (c : UInt8) : Bool := 0x3a ≤ c ∧ c ≤ 0x3f

def charValue (c : UInt8) : ℕ := if looseChar c then c.toNat - 0x30 else digitValue c

theorem looseChar_iff : looseChar c ↔ 0x3a ≤ c.toNat ∧ c.toNat ≤ 0x3f := by
  simp only [looseChar, decide_eq_true_eq, UInt8.le_iff_toNat_le]
  exact Iff.rfl

theorem digitValue_eq (c : UInt8) : digitValue c =
    if 48 ≤ c.toNat ∧ c.toNat ≤ 57 then c.toNat - 48
    else if 97 ≤ c.toNat ∧ c.toNat ≤ 122 then c.toNat - 97 + 10
    else if 65 ≤ c.toNat ∧ c.toNat ≤ 90 then c.toNat - 65 + 10
    else 36 := rfl

theorem atoiDigit_value {b : UInt8} :
    ((if b ≥ 17 then (if b - 7 ≤ 9 then none else some (b - 7)) else some b).bind fun c => if c ≥ r then none else some c) =
    if (if 17 ≤ b.toNat then b.toNat - 7 else b.toNat) < r.toNat then
      some (UInt8.ofNat (if 17 ≤ b.toNat then b.toNat - 7 else b.toNat)) else none := by
  have hb : b ≥ 17 ↔ 17 ≤ b.toNat := UInt8.le_iff_toNat_le
  by_cases h : 17 ≤ b.toNat
  · have hsub : (b - 7).toNat = b.toNat - 7 := UInt8.toNat_sub_of_le _ _ (UInt8.le_iff_toNat_le.mpr (by change 7 ≤ _; omega))
    have hnine : ¬b - 7 ≤ 9 := by
      rw [UInt8.le_iff_toNat_le, hsub]
      change ¬_ ≤ 9
      omega
    have hr : b - 7 ≥ r ↔ ¬b.toNat - 7 < r.toNat := by rw [ge_iff_le, UInt8.le_iff_toNat_le, hsub, not_lt]
    simp only [hb, h, if_true, hnine, if_false, Option.bind_some, hr, ite_not]
    rw [← hsub, UInt8.ofNat_toNat]
  · have hr : b ≥ r ↔ ¬b.toNat < r.toNat := by rw [ge_iff_le, UInt8.le_iff_toNat_le, not_lt]
    simp only [hb, h, if_false, Option.bind_some, hr, ite_not, UInt8.ofNat_toNat]

/-- What the subtractions leave, and what the tests make of it. -/
def foldedValue (n : ℕ) : ℕ :=
  let m := (208 + if 97 ≤ n then n - 32 else n) % 256
  if 17 ≤ m then m - 7 else m

theorem foldedValue_eq (hc : 0x20 < c.toNat) :
    foldedValue c.toNat = charValue c ∨ 16 ≤ foldedValue c.toNat ∧ 16 ≤ charValue c := by
  have hlt := c.toNat_lt
  unfold foldedValue charValue
  dsimp only
  simp only [digitValue_eq, looseChar_iff]
  split_ifs <;> omega

theorem atoiDigit_eq (hc : 0x20 < c.toNat) (hr : r.toNat ≤ 16) :
    atoiDigit r c = if charValue c < r.toNat then some (UInt8.ofNat (charValue c)) else none := by
  have hfold : (if c ≥ 0x61 then c - 0x20 else c).toNat = if 97 ≤ c.toNat then c.toNat - 32 else c.toNat := by
    have hle : c ≥ 0x61 ↔ 97 ≤ c.toNat := UInt8.le_iff_toNat_le
    simp only [hle]
    split_ifs with h
    · exact UInt8.toNat_sub_of_le _ _ (UInt8.le_iff_toNat_le.mpr (by change 32 ≤ _; omega))
    · rfl
  have hb : ((if c ≥ 0x61 then c - 0x20 else c) - 0x30).toNat =
      (208 + if 97 ≤ c.toNat then c.toNat - 32 else c.toNat) % 256 := by
    rw [UInt8.toNat_sub, hfold]
    rfl
  refine atoiDigit_value.trans ?_
  rw [hb]
  change (if foldedValue c.toNat < r.toNat then some (UInt8.ofNat (foldedValue c.toNat)) else none) = _
  rcases foldedValue_eq hc with h | ⟨h, h'⟩
  · rw [h]
  · rw [if_neg (by omega), if_neg (by omega)]

end digits

section loop

/-- A character that does not end a number. -/
def solid (c : UInt8) : Bool := 0x20 < c.toNat

/-- What follows a number: the end of the string, a blank or a control character. -/
def Ends (rest : List UInt8) : Prop := solid (rest.headD 0) = false

theorem solid_iff : solid c ↔ c > 0x20 := by
  rw [solid, decide_eq_true_eq, gt_iff_lt, UInt8.lt_iff_toNat_lt]
  exact Iff.rfl

def charsValue (r n : ℕ) (ds : List UInt8) : ℕ := ds.foldl (fun n c => n * r + charValue c) n

theorem atoiLoop_ends (val : UInt32) (h : Ends rest) : atoiLoop r val rest = (true, val, rest) := by
  cases rest with
  | nil => rfl
  | cons c rest =>
    have hc : ¬c > 0x20 := fun hgt => Bool.false_ne_true (h.symm.trans (solid_iff.mpr hgt))
    rw [atoiLoop, if_neg hc]

theorem atoiLoop_step (hr : r.toNat ≤ 16) (hc : solid c) (hlt : charValue c < r.toNat) (n : ℕ) :
    atoiLoop r (UInt32.ofNat n) (c :: str) = atoiLoop r (UInt32.ofNat (n * r.toNat + charValue c)) str := by
  have hdigit : atoiDigit r c = some (UInt8.ofNat (charValue c)) := by
    rw [atoiDigit_eq (of_decide_eq_true hc) hr, if_pos hlt]
  have hword (x : UInt8) : x.toUInt32 = UInt32.ofNat x.toNat := by
    have hx := x.toNat_lt
    rw [← UInt32.toNat_inj, UInt8.toNat_toUInt32, UInt32.toNat_ofNat']
    omega
  have hvalue : UInt32.ofNat n * r.toUInt32 + (UInt8.ofNat (charValue c)).toUInt32 = UInt32.ofNat (n * r.toNat + charValue c) := by
    have hsmall : (UInt8.ofNat (charValue c)).toNat = charValue c := by
      rw [UInt8.toNat_ofNat']
      omega
    rw [hword, hword, hsmall, UInt32.ofNat_add, UInt32.ofNat_mul]
  rw [atoiLoop, if_pos (solid_iff.mp hc), hdigit]
  dsimp only
  rw [hvalue]

theorem atoiLoop_digits (hr : r.toNat ≤ 16) (hds : ∀ c ∈ ds, solid c ∧ charValue c < r.toNat) (n : ℕ) :
    atoiLoop r (UInt32.ofNat n) (ds ++ rest) = atoiLoop r (UInt32.ofNat (charsValue r.toNat n ds)) rest := by
  induction ds generalizing n with
  | nil => rfl
  | cons c ds ih =>
    obtain ⟨hc, hds⟩ := List.forall_mem_cons.mp hds
    rw [List.cons_append, atoiLoop_step hr hc.1 hc.2, ih hds]
    rfl

theorem atoiLoop_bad (hr : r.toNat ≤ 16) (hsolid : ∀ c ∈ ds, solid c) (hbad : ∃ c ∈ ds, r.toNat ≤ charValue c) (n : ℕ) :
    (atoiLoop r (UInt32.ofNat n) (ds ++ rest)).1 = false := by
  induction ds generalizing n with
  | nil =>
    obtain ⟨c, hc, -⟩ := hbad
    exact absurd hc List.not_mem_nil
  | cons c ds ih =>
    obtain ⟨hc, hsolid⟩ := List.forall_mem_cons.mp hsolid
    by_cases hlt : charValue c < r.toNat
    · rw [List.cons_append, atoiLoop_step hr hc hlt]
      apply ih hsolid
      obtain ⟨x, hx, hx'⟩ := hbad
      rcases List.mem_cons.mp hx with rfl | hx
      · omega
      · exact ⟨x, hx, hx'⟩
    · have hdigit : atoiDigit r c = none := by
        rw [atoiDigit_eq (of_decide_eq_true hc) hr, if_neg hlt]
      rw [List.cons_append, atoiLoop, if_pos (solid_iff.mp hc), hdigit]

theorem atoiNumber_eq (hr : r.toNat ≤ 16) (hsolid : ∀ c ∈ ds, solid c) (hends : Ends rest) :
    ((atoiNumber neg r (ds ++ rest)).ok = true ↔ ∀ c ∈ ds, charValue c < r.toNat) ∧
      ((∀ c ∈ ds, charValue c < r.toNat) → atoiNumber neg r (ds ++ rest) =
        ⟨true, if neg then 0 - UInt32.ofNat (charsValue r.toNat 0 ds) else UInt32.ofNat (charsValue r.toNat 0 ds), rest⟩) := by
  have hzero : (0 : UInt32) = UInt32.ofNat 0 := rfl
  by_cases hall : ∀ c ∈ ds, charValue c < r.toNat
  · have hloop := (@atoiLoop_digits r rest ds hr (fun c hc => ⟨hsolid c hc, hall c hc⟩) 0).trans (atoiLoop_ends _ hends)
    have hnumber : atoiNumber neg r (ds ++ rest) =
        ⟨true, if neg then 0 - UInt32.ofNat (charsValue r.toNat 0 ds) else UInt32.ofNat (charsValue r.toNat 0 ds), rest⟩ := by
      rw [atoiNumber, hzero, hloop]
      rfl
    rw [hnumber]
    exact ⟨⟨fun _ => hall, fun _ => rfl⟩, fun _ => rfl⟩
  · have hbad : ∃ c ∈ ds, r.toNat ≤ charValue c := by
      obtain ⟨c, hc⟩ := not_forall.mp hall
      obtain ⟨hc, hle⟩ := Classical.not_imp.mp hc
      exact ⟨c, hc, not_lt.mp hle⟩
    have hloop := @atoiLoop_bad r rest ds hr hsolid hbad 0
    have hnumber : (atoiNumber neg r (ds ++ rest)).ok = false := by
      rw [atoiNumber, hzero]
      generalize atoiLoop r (UInt32.ofNat 0) (ds ++ rest) = out at hloop
      obtain ⟨ok, val, str⟩ := out
      cases hloop
      rfl
    rw [hnumber]
    exact ⟨⟨fun h => absurd h Bool.false_ne_true, fun h => absurd h hall⟩, fun h => absurd h hall⟩

end loop

section grammar

def Digits (base : ℕ) (ds : List UInt8) (n : ℕ) : Prop := ds ≠ [] ∧ (∀ c ∈ ds, isDigit base c) ∧ n = valueOf base ds

/-- A number without its sign, and its value. -/
def Numeral (l : List UInt8) (n : ℕ) : Prop :=
  l.head? ≠ some 0x30 ∧ Digits 10 l n ∨
  l = [0x30] ∧ n = 0 ∨
  (∃ ds, l = 0x30 :: ds ∧ Digits 8 ds n) ∨
  (∃ ds, l = 0x30 :: 0x78 :: ds ∧ Digits 16 ds n) ∨
  ∃ ds, l = 0x30 :: 0x62 :: ds ∧ Digits 2 ds n

def signed (neg : Bool) (n : ℕ) : UInt32 := if neg then 0 - UInt32.ofNat n else UInt32.ofNat n

/-- The string starts with spaces, an optional minus sign and a number that has an end. -/
def Accepts (str : List UInt8) (v : UInt32) (rest : List UInt8) : Prop :=
  ∃ (k : ℕ) (neg : Bool) (l : List UInt8) (n : ℕ),
    str = List.replicate k 0x20 ++ ((if neg then [0x2d] else []) ++ (l ++ rest)) ∧
      Numeral l n ∧ Ends rest ∧ v = signed neg n

/-- The prefix of a radix without a digit, or hexadecimal digits among which there are some of `: ; < = > ?`. -/
def Loose (l : List UInt8) : Prop :=
  l = [0x30, 0x78] ∨ l = [0x30, 0x62] ∨
    ∃ ds, l = 0x30 :: 0x78 :: ds ∧ (∀ c ∈ ds, isDigit 16 c ∨ looseChar c) ∧ ∃ c ∈ ds, looseChar c

/-- Strings that start with spaces, an optional minus sign and such a text. -/
def StartsLoose (str : List UInt8) : Prop :=
  ∃ (k : ℕ) (neg : Bool) (l rest : List UInt8),
    str = List.replicate k 0x20 ++ ((if neg then [0x2d] else []) ++ (l ++ rest)) ∧ Loose l ∧ Ends rest

theorem isDigit_range {base : ℕ} (hbase : base ≤ 16) (h : isDigit base c) :
    48 ≤ c.toNat ∧ ¬looseChar c ∧ charValue c = digitValue c ∧ charValue c < base := by
  have hlt : digitValue c < base := of_decide_eq_true h
  have hvalue := digitValue_eq c
  have hloose : ¬looseChar c := by
    rw [looseChar_iff]
    intro hrange
    rw [if_neg (by omega), if_neg (by omega), if_neg (by omega)] at hvalue
    omega
  have hchar : charValue c = digitValue c := if_neg hloose
  refine ⟨?_, hloose, hchar, by omega⟩
  split_ifs at hvalue <;> omega

theorem charValue_lt_iff {base : ℕ} (hbase : base ≤ 10) : charValue c < base ↔ isDigit base c := by
  constructor
  · intro h
    have hloose : ¬looseChar c := by
      intro hl
      have hrange := looseChar_iff.mp hl
      rw [charValue, if_pos hl] at h
      omega
    rw [charValue, if_neg hloose] at h
    exact decide_eq_true h
  · exact fun h => (isDigit_range (by omega) h).2.2.2

theorem charValue_lt_sixteen : charValue c < 16 ↔ isDigit 16 c ∨ looseChar c := by
  constructor
  · intro h
    by_cases hl : looseChar c
    · exact Or.inr hl
    · rw [charValue, if_neg hl] at h
      exact Or.inl (decide_eq_true h)
  · rintro (h | h)
    · exact (isDigit_range le_rfl h).2.2.2
    · have hrange := looseChar_iff.mp h
      rw [charValue, if_pos h]
      omega

theorem charsValue_eq {base : ℕ} (hbase : base ≤ 16) (h : ∀ c ∈ ds, isDigit base c) (n : ℕ) :
    charsValue base n ds = ds.foldl (fun n c => n * base + digitValue c) n := by
  induction ds generalizing n with
  | nil => rfl
  | cons c ds ih =>
    obtain ⟨hc, hds⟩ := List.forall_mem_cons.mp h
    have hrest := ih hds (n * base + digitValue c)
    rw [← (isDigit_range hbase hc).2.2.1] at hrest
    rw [List.foldl_cons, ← (isDigit_range hbase hc).2.2.1, ← hrest]
    rfl

theorem digits_solid {base : ℕ} (hbase : base ≤ 16) (h : ∀ c ∈ ds, isDigit base c) : ∀ c ∈ ds, solid c := by
  intro c hc
  have hrange := (isDigit_range hbase (h c hc)).1
  exact decide_eq_true (by omega)

theorem atoiNumber_digits {n : ℕ} (hr : r.toNat ≤ 16) (h : Digits r.toNat ds n) (hends : Ends rest) :
    atoiNumber neg r (ds ++ rest) = ⟨true, signed neg n, rest⟩ := by
  obtain ⟨-, hall, rfl⟩ := h
  have hnumber := (@atoiNumber_eq r rest ds neg hr (digits_solid hr hall) hends).2 fun c hc => (isDigit_range hr (hall c hc)).2.2.2
  rw [hnumber, charsValue_eq hr hall]
  rfl

end grammar

section unsigned

variable {d : UInt8} {n : ℕ}

theorem decimal_range : ¬(c < 0x30 ∨ c > 0x39) ↔ 48 ≤ c.toNat ∧ c.toNat ≤ 57 := by
  rw [not_or, UInt8.lt_iff_toNat_lt, gt_iff_lt, UInt8.lt_iff_toNat_lt, not_lt, not_lt]
  exact Iff.rfl

theorem isDigit_decimal {base : ℕ} (hbase : base ≤ 10) (h : isDigit base c) : ¬(c < 0x30 ∨ c > 0x39) := by
  have hlt : digitValue c < base := of_decide_eq_true h
  have hvalue := digitValue_eq c
  rw [decimal_range]
  split_ifs at hvalue <;> omega

theorem unsigned_empty (h : Ends rest) : atoiUnsigned neg rest = ⟨false, 0, rest⟩ := by
  have hend : (rest.headD 0).toNat ≤ 32 := not_lt.mp (of_decide_eq_false h)
  have hzero : rest.headD 0 ≠ 0x30 := by
    intro heq
    rw [heq] at hend
    exact absurd hend (by decide)
  have hlow : rest.headD 0 < 0x30 ∨ rest.headD 0 > 0x39 := by
    left
    rw [UInt8.lt_iff_toNat_lt]
    change _ < 48
    omega
  rw [atoiUnsigned]
  dsimp only
  rw [if_neg hzero, if_pos hlow]

theorem unsigned_zero (h : Ends rest) : atoiUnsigned neg (0x30 :: rest) = ⟨true, 0, rest⟩ := by
  have hend : (rest.headD 0).toNat ≤ 32 := not_lt.mp (of_decide_eq_false h)
  have hx : rest.headD 0 ≠ 0x78 := by
    intro heq
    rw [heq] at hend
    exact absurd hend (by decide)
  have hb : rest.headD 0 ≠ 0x62 := by
    intro heq
    rw [heq] at hend
    exact absurd hend (by decide)
  have hle : rest.headD 0 ≤ 0x20 := UInt8.le_iff_toNat_le.mpr hend
  simp only [atoiUnsigned, List.headD_cons, List.tail_cons, if_true, hx, hb, hle, if_false]

theorem unsigned_octal (hd : solid d) (hx : d ≠ 0x78) (hb : d ≠ 0x62) : atoiUnsigned neg (0x30 :: d :: str) =
    if d < 0x30 ∨ d > 0x39 then ⟨false, 0, d :: str⟩ else atoiNumber neg 8 (d :: str) := by
  have hle : ¬d ≤ 0x20 := UInt8.not_le.mpr (solid_iff.mp hd)
  simp only [atoiUnsigned, List.headD_cons, List.tail_cons, if_true, hx, hb, hle, if_false]
  rfl

theorem unsigned_decimal (hc : c ≠ 0x30) : atoiUnsigned neg (c :: str) =
    if c < 0x30 ∨ c > 0x39 then ⟨false, 0, c :: str⟩ else atoiNumber neg 10 (c :: str) := by
  simp only [atoiUnsigned, List.headD_cons, hc, if_false]
  rfl

theorem unsigned_numeral (h : Numeral l n) (hends : Ends rest) : atoiUnsigned neg (l ++ rest) = ⟨true, signed neg n, rest⟩ := by
  rcases h with ⟨hfirst, hdigits⟩ | ⟨rfl, rfl⟩ | ⟨ds, rfl, hdigits⟩ | ⟨ds, rfl, hdigits⟩ | ⟨ds, rfl, hdigits⟩
  · cases l with
    | nil => exact absurd rfl hdigits.1
    | cons c l =>
      have hc : c ≠ 0x30 := fun heq => hfirst (congrArg some heq)
      rw [List.cons_append, unsigned_decimal hc, if_neg (isDigit_decimal le_rfl (hdigits.2.1 c List.mem_cons_self))]
      exact atoiNumber_digits (r := 10) (by decide) hdigits hends
  · rw [List.singleton_append, unsigned_zero hends]
    cases neg <;> rfl
  · cases ds with
    | nil => exact absurd rfl hdigits.1
    | cons d ds =>
      have hd := hdigits.2.1 d List.mem_cons_self
      have hrange := decimal_range.mp (isDigit_decimal (by omega) hd)
      have hx : d ≠ 0x78 := by
        rintro rfl
        exact absurd hrange (by decide)
      have hb : d ≠ 0x62 := by
        rintro rfl
        exact absurd hrange (by decide)
      rw [List.cons_append, List.cons_append, unsigned_octal (digits_solid (by omega) hdigits.2.1 d List.mem_cons_self) hx hb,
        if_neg (isDigit_decimal (by omega) hd)]
      exact atoiNumber_digits (r := 8) (by decide) hdigits hends
  · exact atoiNumber_digits (r := 16) (by decide) hdigits hends
  · exact atoiNumber_digits (r := 2) (by decide) hdigits hends

theorem atoiNumber_ok (hr : r.toNat ≤ 16) (hsolid : ∀ c ∈ ds, solid c) (hends : Ends rest) :
    (atoiNumber neg r (ds ++ rest)).ok = true ↔ ∀ c ∈ ds, charValue c < r.toNat :=
  (atoiNumber_eq hr hsolid hends).1

theorem digits_of_small {base : ℕ} (hbase : base ≤ 10) (hne : ds ≠ []) (h : ∀ c ∈ ds, charValue c < base) :
    Digits base ds (valueOf base ds) := ⟨hne, fun c hc => (charValue_lt_iff hbase).mp (h c hc), rfl⟩

theorem unsigned_ok (hsolid : ∀ c ∈ l, solid c) (hends : Ends rest) (hok : (atoiUnsigned neg (l ++ rest)).ok = true) :
    (∃ n, Numeral l n) ∨ Loose l := by
  cases l with
  | nil =>
    rw [List.nil_append, unsigned_empty hends] at hok
    exact absurd hok Bool.false_ne_true
  | cons c l =>
    obtain ⟨-, hsolid'⟩ := List.forall_mem_cons.mp hsolid
    by_cases hc : c = 0x30
    · subst hc
      cases l with
      | nil => exact Or.inl ⟨0, Or.inr (Or.inl ⟨rfl, rfl⟩)⟩
      | cons d ds =>
        obtain ⟨hd, hds⟩ := List.forall_mem_cons.mp hsolid'
        by_cases hx : d = 0x78
        · subst hx
          have hall := (atoiNumber_ok (r := 16) (by decide) hds hends).mp hok
          by_cases hne : ds = []
          · exact Or.inr (Or.inl (by rw [hne]))
          · by_cases hloose : ∃ c ∈ ds, looseChar c
            · exact Or.inr (Or.inr (Or.inr ⟨ds, rfl, fun c hc => charValue_lt_sixteen.mp (hall c hc), hloose⟩))
            · refine Or.inl ⟨_, Or.inr (Or.inr (Or.inr (Or.inl ⟨ds, rfl, hne, fun c hc => ?_, rfl⟩)))⟩
              exact (charValue_lt_sixteen.mp (hall c hc)).resolve_right fun h => hloose ⟨c, hc, h⟩
        · by_cases hb : d = 0x62
          · subst hb
            have hall := (atoiNumber_ok (r := 2) (by decide) hds hends).mp hok
            by_cases hne : ds = []
            · exact Or.inr (Or.inr (Or.inl (by rw [hne])))
            · exact Or.inl ⟨_, Or.inr (Or.inr (Or.inr (Or.inr ⟨ds, rfl, digits_of_small (by decide) hne hall⟩)))⟩
          · rw [List.cons_append, List.cons_append, unsigned_octal hd hx hb] at hok
            split_ifs at hok with hlow
            · have hall := (atoiNumber_ok (r := 8) (by decide) hsolid' hends).mp hok
              have hdigits := digits_of_small (by decide) (List.cons_ne_nil _ _) hall
              exact Or.inl ⟨_, Or.inr (Or.inr (Or.inl ⟨d :: ds, rfl, hdigits⟩))⟩
    · rw [List.cons_append, unsigned_decimal hc] at hok
      split_ifs at hok with hlow
      · have hall := (atoiNumber_ok (r := 10) (by decide) hsolid hends).mp hok
        have hdigits := digits_of_small (by decide) (List.cons_ne_nil _ _) hall
        exact Or.inl ⟨_, Or.inl ⟨fun heq => hc (Option.some_inj.mp heq), hdigits⟩⟩

theorem loose_solid (h : Loose l) : ∀ c ∈ l, solid c := by
  have hpair (d : UInt8) (hd : solid d) : ∀ c ∈ [0x30, d], solid c :=
    List.forall_mem_cons.mpr ⟨rfl, List.forall_mem_singleton.mpr hd⟩
  rcases h with rfl | rfl | ⟨ds, rfl, hds, -⟩
  · exact hpair _ rfl
  · exact hpair _ rfl
  · intro c hc
    rcases List.mem_cons.mp hc with rfl | hc
    · rfl
    rcases List.mem_cons.mp hc with rfl | hc
    · rfl
    rcases hds c hc with hdigit | hloose
    · exact decide_eq_true (by have hrange := (isDigit_range le_rfl hdigit).1; omega)
    · exact decide_eq_true (by have hrange := looseChar_iff.mp hloose; omega)

theorem unsigned_loose (h : Loose l) (hends : Ends rest) : (atoiUnsigned neg (l ++ rest)).ok = true := by
  have hsolid := loose_solid h
  have hempty : ∀ c ∈ ([] : List UInt8), solid c := fun _ h => absurd h List.not_mem_nil
  rcases h with rfl | rfl | ⟨ds, rfl, hds, -⟩
  · exact (atoiNumber_ok (r := 16) (by decide) hempty hends).mpr fun _ h => absurd h List.not_mem_nil
  · exact (atoiNumber_ok (r := 2) (by decide) hempty hends).mpr fun _ h => absurd h List.not_mem_nil
  · exact (atoiNumber_ok (r := 16) (by decide) (fun c hc => hsolid c (List.mem_cons_of_mem _ (List.mem_cons_of_mem _ hc))) hends).mpr
      fun c hc => charValue_lt_sixteen.mpr (hds c hc)

theorem atoiNumber_failed (h : (atoiNumber neg r str).ok = false) : (atoiNumber neg r str).res = 0 := by
  unfold atoiNumber at h ⊢
  generalize atoiLoop r 0 str = out at h ⊢
  obtain ⟨ok, val, str⟩ := out
  cases ok with
  | false => rfl
  | true => exact absurd h.symm Bool.false_ne_true

theorem unsigned_failed (h : (atoiUnsigned neg str).ok = false) : (atoiUnsigned neg str).res = 0 := by
  unfold atoiUnsigned at h ⊢
  dsimp only at h ⊢
  split_ifs at h ⊢ with h1 h2 h3 h4 h5 h6
  · exact atoiNumber_failed h
  · exact atoiNumber_failed h
  · rfl
  · exact atoiNumber_failed h
  · rfl
  · exact atoiNumber_failed h

end unsigned

section token

variable {v : UInt32} {n : ℕ}

def signOf (str : List UInt8) : Bool := (skipSpaces str).headD 0 = 0x2d

/-- The string behind its spaces and its sign. -/
def bodyOf (str : List UInt8) : List UInt8 := if signOf str then (skipSpaces str).tail else skipSpaces str

theorem xatoi_eq (str : List UInt8) : xatoi str = atoiUnsigned (signOf str) (bodyOf str) := by
  rw [xatoi]
  by_cases h : (skipSpaces str).headD 0 = 0x2d
  · have hsign : signOf str = true := decide_eq_true h
    rw [if_pos h, bodyOf, hsign, if_pos rfl]
  · have hsign : signOf str = false := decide_eq_false h
    rw [if_neg h, bodyOf, hsign]
    rfl

theorem skipSpaces_replicate (k : ℕ) (h : str.headD 0 ≠ 0x20) : skipSpaces (List.replicate k 0x20 ++ str) = str := by
  induction k with
  | zero =>
    cases str with
    | nil => rfl
    | cons c str => exact if_neg h
  | succ k ih => exact (if_pos rfl).trans ih

theorem exists_spaces (str : List UInt8) : ∃ k, str = List.replicate k 0x20 ++ skipSpaces str := by
  induction str with
  | nil => exact ⟨0, rfl⟩
  | cons c str ih =>
    rw [skipSpaces]
    split_ifs with hc
    · obtain ⟨k, hk⟩ := ih
      refine ⟨k + 1, ?_⟩
      rw [hc, List.replicate_succ, List.cons_append, ← hk]
    · exact ⟨0, rfl⟩

theorem signOf_append (k : ℕ) (neg : Bool) (hblank : l.headD 0 ≠ 0x20) (hminus : l.headD 0 ≠ 0x2d) :
    signOf (List.replicate k 0x20 ++ ((if neg then [0x2d] else []) ++ l)) = neg ∧
      bodyOf (List.replicate k 0x20 ++ ((if neg then [0x2d] else []) ++ l)) = l := by
  cases neg with
  | true =>
    have hblank : (0x2d :: l).headD 0 ≠ 0x20 := show (0x2d : UInt8) ≠ 0x20 by decide
    have hskip : skipSpaces (List.replicate k 0x20 ++ (0x2d :: l)) = 0x2d :: l := skipSpaces_replicate k hblank
    have hsign : signOf (List.replicate k 0x20 ++ (0x2d :: l)) = true := by
      rw [signOf, hskip]
      rfl
    refine ⟨hsign, ?_⟩
    change bodyOf (List.replicate k 0x20 ++ (0x2d :: l)) = l
    rw [bodyOf, hsign, hskip]
    rfl
  | false =>
    have hskip : skipSpaces (List.replicate k 0x20 ++ l) = l := skipSpaces_replicate k hblank
    have hsign : signOf (List.replicate k 0x20 ++ l) = false := by
      rw [signOf, hskip]
      exact decide_eq_false hminus
    refine ⟨hsign, ?_⟩
    change bodyOf (List.replicate k 0x20 ++ l) = l
    rw [bodyOf, hsign, hskip]
    rfl

theorem str_eq (str : List UInt8) :
    ∃ k, str = List.replicate k 0x20 ++ ((if signOf str then [0x2d] else []) ++ bodyOf str) := by
  obtain ⟨k, hk⟩ := exists_spaces str
  refine ⟨k, hk.trans ?_⟩
  congr 1
  by_cases h : (skipSpaces str).headD 0 = 0x2d
  · have hsign : signOf str = true := decide_eq_true h
    rw [bodyOf, hsign, if_pos rfl, if_pos rfl]
    cases hskip : skipSpaces str with
    | nil =>
      rw [hskip] at h
      exact absurd h (by decide)
    | cons c rest =>
      rw [hskip] at h
      rw [List.tail_cons, List.singleton_append, ← h]
      rfl
  · have hsign : signOf str = false := decide_eq_false h
    rw [bodyOf, hsign]
    rfl

theorem digits_head {base : ℕ} (hbase : base ≤ 16) (h : Digits base ds n) : 48 ≤ (ds.headD 0).toNat := by
  cases ds with
  | nil => exact absurd rfl h.1
  | cons d ds => exact (isDigit_range hbase (h.2.1 d List.mem_cons_self)).1

theorem numeral_head (h : Numeral l n) : 48 ≤ (l.headD 0).toNat := by
  rcases h with ⟨-, hdigits⟩ | ⟨rfl, -⟩ | ⟨ds, rfl, -⟩ | ⟨ds, rfl, -⟩ | ⟨ds, rfl, -⟩
  · exact digits_head (by decide) hdigits
  · exact le_rfl
  · exact le_rfl
  · exact le_rfl
  · exact le_rfl

theorem loose_head (h : Loose l) : 48 ≤ (l.headD 0).toNat := by
  rcases h with rfl | rfl | ⟨ds, rfl, -⟩
  · exact le_rfl
  · exact le_rfl
  · exact le_rfl

theorem numeral_solid (h : Numeral l n) : ∀ c ∈ l, solid c := by
  rcases h with ⟨-, hdigits⟩ | ⟨rfl, -⟩ | ⟨ds, rfl, hdigits⟩ | ⟨ds, rfl, hdigits⟩ | ⟨ds, rfl, hdigits⟩
  · exact digits_solid (by decide) hdigits.2.1
  · exact List.forall_mem_singleton.mpr rfl
  · exact List.forall_mem_cons.mpr ⟨rfl, digits_solid (by decide) hdigits.2.1⟩
  · exact List.forall_mem_cons.mpr ⟨rfl, List.forall_mem_cons.mpr ⟨rfl, digits_solid (by decide) hdigits.2.1⟩⟩
  · exact List.forall_mem_cons.mpr ⟨rfl, List.forall_mem_cons.mpr ⟨rfl, digits_solid (by decide) hdigits.2.1⟩⟩

theorem body_append (k : ℕ) (neg : Bool) (h : 48 ≤ (l.headD 0).toNat) :
    signOf (List.replicate k 0x20 ++ ((if neg then [0x2d] else []) ++ (l ++ rest))) = neg ∧
      bodyOf (List.replicate k 0x20 ++ ((if neg then [0x2d] else []) ++ (l ++ rest))) = l ++ rest := by
  have hhead : (l ++ rest).headD 0 = l.headD 0 := by
    cases l with
    | nil => exact absurd h (by decide)
    | cons c l => rfl
  apply signOf_append
  · rw [hhead]
    intro heq
    rw [heq] at h
    exact absurd h (by decide)
  · rw [hhead]
    intro heq
    rw [heq] at h
    exact absurd h (by decide)

theorem accepts_iff : Accepts str v rest ↔
    ∃ l n, bodyOf str = l ++ rest ∧ Numeral l n ∧ Ends rest ∧ v = signed (signOf str) n := by
  constructor
  · rintro ⟨k, neg, l, n, rfl, hnumeral, hends, hv⟩
    obtain ⟨hsign, hbody⟩ := @body_append rest l k neg (numeral_head hnumeral)
    rw [hsign, hbody]
    exact ⟨l, n, rfl, hnumeral, hends, hv⟩
  · rintro ⟨l, n, hbody, hnumeral, hends, hv⟩
    obtain ⟨k, hstr⟩ := str_eq str
    rw [hbody] at hstr
    exact ⟨k, signOf str, l, n, hstr, hnumeral, hends, hv⟩

theorem startsLoose_iff : StartsLoose str ↔ ∃ l rest, bodyOf str = l ++ rest ∧ Loose l ∧ Ends rest := by
  constructor
  · rintro ⟨k, neg, l, rest, rfl, hloose, hends⟩
    rw [(@body_append rest l k neg (loose_head hloose)).2]
    exact ⟨l, rest, rfl, hloose, hends⟩
  · rintro ⟨l, rest, hbody, hloose, hends⟩
    obtain ⟨k, hstr⟩ := str_eq str
    rw [hbody] at hstr
    exact ⟨k, signOf str, l, rest, hstr, hloose, hends⟩

theorem takeWhile_solid (hsolid : ∀ c ∈ l, solid c) (hends : Ends rest) : (l ++ rest).takeWhile solid = l := by
  have hrest : rest.takeWhile solid = [] := by
    cases rest with
    | nil => rfl
    | cons c rest => exact List.takeWhile_cons_of_neg (Bool.eq_false_iff.mp hends)
  rw [List.takeWhile_append_of_pos hsolid, hrest, List.append_nil]

theorem exists_token (str : List UInt8) : ∃ l rest, str = l ++ rest ∧ (∀ c ∈ l, solid c) ∧ Ends rest := by
  refine ⟨str.takeWhile solid, str.dropWhile solid, (List.takeWhile_append_dropWhile ..).symm,
    fun c hc => List.mem_takeWhile_imp hc, ?_⟩
  induction str with
  | nil => rfl
  | cons c str ih =>
    rw [List.dropWhile_cons]
    split_ifs with hc
    · exact ih
    · exact Bool.eq_false_iff.mpr hc

theorem loose_not_numeral (h : Loose l) : ¬Numeral l n := by
  have hfirst (ds : List UInt8) : ¬((0x30 :: ds : List UInt8).head? ≠ some 0x30) := not_not_intro rfl
  have hx (base : ℕ) (hbase : base ≤ 16) (ds : List UInt8) : ¬Digits base (0x78 :: ds) n := by
    intro hdigits
    have hdigit := hdigits.2.1 0x78 List.mem_cons_self
    have hlt : digitValue 0x78 < base := of_decide_eq_true hdigit
    exact absurd (hlt.trans_le hbase) (by decide)
  have hb (ds : List UInt8) : ¬Digits 8 (0x62 :: ds) n := by
    intro hdigits
    have hdigit := hdigits.2.1 0x62 List.mem_cons_self
    exact absurd hdigit (by decide)
  have hxb : (0x78 : UInt8) ≠ 0x62 := by decide
  rintro (⟨hhead, -⟩ | ⟨hzero, -⟩ | ⟨ds', heq, hdigits⟩ | ⟨ds', heq, hdigits⟩ | ⟨ds', heq, hdigits⟩)
  · rcases h with rfl | rfl | ⟨ds, rfl, -⟩
    · exact hfirst _ hhead
    · exact hfirst _ hhead
    · exact hfirst _ hhead
  · rcases h with rfl | rfl | ⟨ds, rfl, -⟩
    · exact absurd hzero (by decide)
    · exact absurd hzero (by decide)
    · exact absurd (congrArg List.length hzero) (by simp)
  · rcases h with rfl | rfl | ⟨ds, rfl, -⟩
    · obtain ⟨-, rfl⟩ := List.cons_eq_cons.mp heq
      exact hx 8 (by decide) _ hdigits
    · obtain ⟨-, rfl⟩ := List.cons_eq_cons.mp heq
      exact hb _ hdigits
    · obtain ⟨-, rfl⟩ := List.cons_eq_cons.mp heq
      exact hx 8 (by decide) _ hdigits
  · rcases h with rfl | rfl | ⟨ds, rfl, -, c, hc, hloose⟩
    · obtain ⟨-, heq⟩ := List.cons_eq_cons.mp heq
      obtain ⟨-, rfl⟩ := List.cons_eq_cons.mp heq
      exact hdigits.1 rfl
    · obtain ⟨-, heq⟩ := List.cons_eq_cons.mp heq
      exact hxb (List.cons_eq_cons.mp heq).1.symm
    · obtain ⟨-, heq⟩ := List.cons_eq_cons.mp heq
      obtain ⟨-, rfl⟩ := List.cons_eq_cons.mp heq
      exact (isDigit_range le_rfl (hdigits.2.1 c hc)).2.1 hloose
  · rcases h with rfl | rfl | ⟨ds, rfl, -⟩
    · obtain ⟨-, heq⟩ := List.cons_eq_cons.mp heq
      exact hxb (List.cons_eq_cons.mp heq).1
    · obtain ⟨-, heq⟩ := List.cons_eq_cons.mp heq
      obtain ⟨-, rfl⟩ := List.cons_eq_cons.mp heq
      exact hdigits.1 rfl
    · obtain ⟨-, heq⟩ := List.cons_eq_cons.mp heq
      exact hxb (List.cons_eq_cons.mp heq).1

end token

section grammar

variable {v : UInt32} {vs : List UInt32}

/-- The string is read as the grammar says. -/
def Meets (str : List UInt8) : Prop :=
  (∀ v rest, Accepts str v rest → xatoi str = ⟨true, v, rest⟩) ∧
    ((xatoi str).ok = true → ∃ v rest, Accepts str v rest) ∧ ((xatoi str).ok = false → (xatoi str).res = 0)

/-- The string starts with numbers, each with an end behind it. -/
inductive Lists : List UInt8 → List UInt32 → Prop
  | nil (str : List UInt8) : Lists str []
  | cons {str rest : List UInt8} {v : UInt32} {vs : List UInt32} (h : Accepts str v rest) (hvs : Lists rest vs) :
      Lists str (v :: vs)

/-- The results of `n` calls, each of which goes on where the one before has stopped. -/
def calls : ℕ → List UInt8 → List (Bool × UInt32)
  | 0, _ => []
  | n + 1, str => ((xatoi str).ok, (xatoi str).res) :: calls n (xatoi str).str

theorem accepts_read (h : Accepts str v rest) : xatoi str = ⟨true, v, rest⟩ := by
  obtain ⟨l, n, hbody, hnumeral, hends, rfl⟩ := accepts_iff.mp h
  rw [xatoi_eq, hbody]
  exact unsigned_numeral hnumeral hends

theorem calls_read (h : Lists str vs) : calls vs.length str = vs.map fun v => (true, v) := by
  induction h with
  | nil str => rfl
  | cons h hvs ih =>
    rw [List.length_cons, calls, accepts_read h]
    exact congrArg _ ih

theorem failed_zero (h : (xatoi str).ok = false) : (xatoi str).res = 0 := by
  rw [xatoi_eq] at h ⊢
  exact unsigned_failed h

theorem read_accepts (hloose : ¬StartsLoose str) (hok : (xatoi str).ok = true) : ∃ v rest, Accepts str v rest := by
  obtain ⟨l, rest, hbody, hsolid, hends⟩ := exists_token (bodyOf str)
  rw [xatoi_eq, hbody] at hok
  rcases unsigned_ok hsolid hends hok with ⟨n, hnumeral⟩ | h
  · exact ⟨_, rest, accepts_iff.mpr ⟨l, n, hbody, hnumeral, hends, rfl⟩⟩
  · exact absurd (startsLoose_iff.mpr ⟨l, rest, hbody, h, hends⟩) hloose

theorem loose_read (h : StartsLoose str) : (xatoi str).ok = true ∧ ¬∃ v rest, Accepts str v rest := by
  obtain ⟨l, rest, hbody, hloose, hends⟩ := startsLoose_iff.mp h
  constructor
  · rw [xatoi_eq, hbody]
    exact unsigned_loose hloose hends
  · rintro ⟨v, rest', haccepts⟩
    obtain ⟨l', n, hbody', hnumeral, hends', -⟩ := accepts_iff.mp haccepts
    have hl := takeWhile_solid (loose_solid hloose) hends
    rw [← hbody, hbody', takeWhile_solid (numeral_solid hnumeral) hends'] at hl
    rw [hl] at hnumeral
    exact loose_not_numeral hloose hnumeral

theorem xatoi_reads_iff (str : List UInt8) : (Meets str ↔ ¬StartsLoose str) ∧
    ∀ vs, Lists str vs → calls vs.length str = vs.map fun v => (true, v) := by
  refine ⟨⟨fun h hloose => ?_, fun h => ?_⟩, fun vs => calls_read⟩
  · obtain ⟨hok, hnone⟩ := loose_read hloose
    exact hnone (h.2.1 hok)
  · exact ⟨fun v rest => accepts_read, read_accepts h, failed_zero⟩

/-- `0x` alone is read as a number. -/
theorem xatoi_reads_prefix : ¬∀ str : List UInt8, Meets str := by
  intro h
  obtain ⟨hok, hnone⟩ := @loose_read [0x30, 0x78] (startsLoose_iff.mpr ⟨[0x30, 0x78], [], rfl, Or.inl rfl, rfl⟩)
  exact hnone ((h [0x30, 0x78]).2.1 hok)

end grammar

end Lpc1788Libraries.Monitor

import Lpc1788Libraries.Monitor.Scanning
import Mathlib.Data.Nat.Digits.Lemmas

namespace Lpc1788Libraries.Monitor

open Lpc1788Libraries.Support IntegerText

section digits

variable {r n v : ℕ}

/-- The lowest `n` digits, of which there is at least one, the lowest one first. -/
def lowDigits (r n v : ℕ) : List ℕ := if v = 0 then [0] else (Nat.digits r v).take n

theorem lowDigits_succ (hr : 1 < r) (n v : ℕ) :
    lowDigits r (n + 1) v = v % r :: if v / r = 0 then [] else lowDigits r n (v / r) := by
  by_cases hv : v = 0
  · rw [lowDigits, if_pos hv, hv, Nat.zero_div, if_pos rfl, Nat.zero_mod]
  · rw [lowDigits, if_neg hv, Nat.digits_def' hr (Nat.pos_of_ne_zero hv), List.take_succ_cons]
    congr 1
    split_ifs with hrest
    · rw [hrest, Nat.digits_zero, List.take_nil]
    · rw [lowDigits, if_neg hrest]

theorem lowDigits_lt (hr : 1 < r) : ∀ d ∈ lowDigits r n v, d < r := by
  intro d hd
  rw [lowDigits] at hd
  split_ifs at hd
  · rw [List.mem_singleton.mp hd]
    exact Nat.zero_lt_of_lt hr
  · exact Nat.digits_lt_base hr (List.mem_of_mem_take hd)

theorem lowDigits_length (hr : 1 < r) (hn : 0 < n) (hv : v < r ^ n) (k : ℕ) : (lowDigits r k v).length ≤ n := by
  rw [lowDigits]
  split_ifs
  · exact hn
  · rw [List.length_take]
    exact (Nat.min_le_right _ _).trans ((Nat.digits_length_le_iff hr v).mpr hv)

theorem lowDigits_value (hr : 1 < r) (n v : ℕ) : Nat.ofDigits r (lowDigits r n v) = v % r ^ n := by
  rw [lowDigits]
  split_ifs with hv
  · rw [hv, Nat.zero_mod, Nat.ofDigits_singleton]
  · exact (Nat.self_mod_pow_eq_ofDigits_take n v hr).symm

theorem lowDigits_getLast (hr : 1 < r) (hn : v < r ^ n) (hv : v ≠ 0) (h : lowDigits r n v ≠ []) :
    (lowDigits r n v).getLast h ≠ 0 := by
  have hall : lowDigits r n v = Nat.digits r v := by
    rw [lowDigits, if_neg hv, List.take_of_length_le ((Nat.digits_length_le_iff hr v).mpr hn)]
  simp only [hall]
  exact Nat.getLast_digit_ne_zero r hv

/-- The character that the loop makes of a digit. -/
def digitChar (c : UInt8) (d : ℕ) : UInt8 :=
  (if UInt8.ofNat d > 9 then UInt8.ofNat d + (if c = 0x78 then 0x27 else 0x07) else UInt8.ofNat d) + 0x30

theorem digitChar_toNat {d : ℕ} (c : UInt8) (hd : d < 16) :
    (digitChar c d).toNat = d + 48 + if 9 < d then (if c = 0x78 then 39 else 7) else 0 := by
  have hword : (UInt8.ofNat d).toNat = d := by
    rw [UInt8.toNat_ofNat']
    omega
  have hgt : UInt8.ofNat d > 9 ↔ 9 < d := by
    rw [gt_iff_lt, UInt8.lt_iff_toNat_lt, hword]
    exact Iff.rfl
  have hletter : (if c = 0x78 then 0x27 else 0x07 : UInt8).toNat = if c = 0x78 then 39 else 7 := by
    split_ifs
    · rfl
    · rfl
  have hzero : (0x30 : UInt8).toNat = 48 := rfl
  simp only [digitChar, hgt]
  by_cases h : 9 < d
  · rw [if_pos h, if_pos h, UInt8.toNat_add, UInt8.toNat_add, hword, hletter, hzero]
    split_ifs <;> omega
  · rw [if_neg h, if_neg h, UInt8.toNat_add, hword, hzero]
    omega

theorem digitValue_digitChar {d : ℕ} (c : UInt8) (hd : d < 16) : digitValue (digitChar c d) = d := by
  rw [digitValue_eq, digitChar_toNat c hd]
  split_ifs <;> omega

/-- The digits of a number as they are read, the highest one first. -/
def numeralText (c : UInt8) (r v : ℕ) : List UInt8 := ((lowDigits r sizeofS v).map (digitChar c)).reverse

theorem valueOf_reverse {ds : List ℕ} (c : UInt8) (hds : ∀ d ∈ ds, d < 16) :
    valueOf r (ds.map (digitChar c)).reverse = Nat.ofDigits r ds := by
  induction ds with
  | nil => rfl
  | cons d ds ih =>
    obtain ⟨hd, hds⟩ := List.forall_mem_cons.mp hds
    have hrest := ih hds
    rw [valueOf] at hrest
    rw [List.map_cons, List.reverse_cons, valueOf, List.foldl_append, hrest, List.foldl_cons, List.foldl_nil,
      digitValue_digitChar c hd, Nat.ofDigits_cons]
    ring

theorem numeralText_digits (c : UInt8) (hr : 1 < r) (hle : r ≤ 16) (v : ℕ) :
    Digits r (numeralText c r v) (v % r ^ sizeofS) := by
  have hdigits := @lowDigits_lt r sizeofS v hr
  have hsmall : ∀ d ∈ lowDigits r sizeofS v, d < 16 := fun d hd => (hdigits d hd).trans_le hle
  constructor
  · rw [numeralText, sizeofS, lowDigits_succ hr]
    simp
  constructor
  · intro x hx
    obtain ⟨d, hd, rfl⟩ := List.mem_map.mp (List.mem_reverse.mp hx)
    rw [isDigit, digitValue_digitChar c (hsmall d hd)]
    exact decide_eq_true (hdigits d hd)
  · rw [numeralText, valueOf_reverse c hsmall, lowDigits_value hr]

theorem numeralText_head (c : UInt8) (hr : 1 < r) (hle : r ≤ 16) (hn : v < r ^ sizeofS) (hv : v ≠ 0) :
    (numeralText c r v).head? ≠ some 0x30 := by
  have hne : lowDigits r sizeofS v ≠ [] := by
    rw [sizeofS, lowDigits_succ hr]
    exact List.cons_ne_nil _ _
  have hlast := lowDigits_getLast hr hn hv hne
  have hlt := lowDigits_lt hr _ (List.getLast_mem hne)
  rw [numeralText, List.head?_reverse, List.getLast?_map, List.getLast?_eq_some_getLast hne, Option.map_some]
  intro h
  have hvalue := congrArg digitValue (Option.some_inj.mp h)
  rw [digitValue_digitChar c (hlt.trans_le hle)] at hvalue
  exact hlast hvalue

end digits

section buffer

variable {c : UInt8} {r v : UInt32} {s : List UInt8}

theorem push_eq (h : s.length < sizeofS) (c : UInt8) : push s c = some (s ++ [c]) := if_pos h

theorem digitLoop_step (h : s.length < sizeofS) (n : ℕ) (v : UInt32) : digitLoop c r (n + 1) v s =
    if v / r ≠ 0 ∧ s.length + 1 < sizeofS then digitLoop c r n (v / r) (s ++ [digitChar c (v.toNat % r.toNat)])
    else some (s ++ [digitChar c (v.toNat % r.toNat)]) := by
  have hchar : digitChar c (v.toNat % r.toNat) =
      (if (v % r).toUInt8 > 9 then (v % r).toUInt8 + (if c = 0x78 then 0x27 else 0x07) else (v % r).toUInt8) + 0x30 := rfl
  rw [digitLoop, ← hchar, push_eq h]
  simp only [Option.bind_eq_bind, Option.bind_some, List.length_append, List.length_singleton]

theorem digitLoop_eq (hr : 1 < r.toNat) (n : ℕ) (hs : s.length + (n + 1) = sizeofS) (v : UInt32) :
    digitLoop c r (n + 1) v s = some (s ++ (lowDigits r.toNat (n + 1) v.toNat).map (digitChar c)) := by
  have hzero (v : UInt32) : v / r = 0 ↔ v.toNat / r.toNat = 0 := by
    rw [← UInt32.toNat_inj, UInt32.toNat_div]
    exact Iff.rfl
  induction n generalizing v s with
  | zero =>
    have hlast : lowDigits r.toNat 0 (v.toNat / r.toNat) = [] ∨ v.toNat / r.toNat = 0 := by
      rw [lowDigits]
      split_ifs with hv
      · exact Or.inr hv
      · exact Or.inl (List.take_zero)
    have hrest : (if v.toNat / r.toNat = 0 then [] else lowDigits r.toNat 0 (v.toNat / r.toNat)) = [] := by
      split_ifs with hv
      · rfl
      · exact hlast.resolve_right hv
    rw [digitLoop_step (by omega), if_neg (by omega), lowDigits_succ hr, hrest, List.map_singleton]
  | succ n ih =>
    rw [digitLoop_step (by omega), lowDigits_succ hr]
    by_cases hv : v / r = 0
    · rw [if_neg (fun h => h.1 hv), if_pos ((hzero v).mp hv), List.map_singleton]
    · have hlength : (s ++ [digitChar c (v.toNat % r.toNat)]).length + (n + 1) = sizeofS := by
        rw [List.length_append, List.length_singleton]
        omega
      rw [if_pos ⟨hv, by omega⟩, if_neg (mt (hzero v).mpr hv), ih hlength, UInt32.toNat_div, List.append_assoc, List.map_cons]
      rfl

theorem digitLoop_text (hr : 1 < r.toNat) (v : UInt32) :
    digitLoop c r sizeofS v [] = some (numeralText c r.toNat v.toNat).reverse := by
  rw [numeralText, List.reverse_reverse]
  exact digitLoop_eq hr 15 rfl v

/-- The text of a number with its sign. -/
def wordText (c t : UInt8) (r v : UInt32) : List UInt8 :=
  if t = 0x44 ∧ v &&& 0x80000000 ≠ 0 then 0x2d :: numeralText c r.toNat (0 - v).toNat else numeralText c r.toNat v.toNat

theorem putNumeral_eq {t : UInt8} (d : Directive) (hr : 1 < r.toNat) (ht : t = 0x44 → r = 10) (v : UInt32) :
    putNumeral d t r v =
      some (field d (if d.f &&& 1 = 0 then 0x20 else 0x30) (wordText d.c t r v).length (xputs (wordText d.c t r v))) := by
  by_cases hneg : t = 0x44 ∧ v &&& 0x80000000 ≠ 0
  · have hlength : (numeralText d.c r.toNat (0 - v).toNat).reverse.length < sizeofS := by
      have hv := (0 - v).toNat_lt
      have hbase : r.toNat = 10 := by
        rw [ht hneg.1]
        rfl
      rw [numeralText, List.reverse_reverse, List.length_map, hbase]
      exact (lowDigits_length (n := 10) (by decide) (by decide) (by omega) _).trans_lt (by decide)
    rw [wordText, if_pos hneg]
    simp only [putNumeral, if_pos hneg, digitLoop_text hr, Option.bind_eq_bind, Option.bind_some, push_eq hlength,
      List.reverse_append, List.reverse_reverse, List.length_append, List.length_reverse]
    rfl
  · rw [wordText, if_neg hneg]
    simp only [putNumeral, if_neg hneg, digitLoop_text hr, Option.bind_eq_bind, Option.bind_some, List.reverse_reverse,
      List.length_reverse]

theorem wordText_ne_newline {t : UInt8} (hr : 1 < r.toNat) (hle : r.toNat ≤ 16) (v : UInt32) :
    ∀ x ∈ wordText c t r v, x ≠ 0x0a := by
  have hdigits (n : ℕ) : ∀ x ∈ numeralText c r.toNat n, x ≠ 0x0a := by
    rintro x hx rfl
    have hrange := (isDigit_range hle ((numeralText_digits c hr hle n).2.1 _ hx)).1
    exact absurd hrange (by decide)
  rw [wordText]
  split_ifs
  · exact List.forall_mem_cons.mpr ⟨by decide, hdigits _⟩
  · exact hdigits _

theorem xputs_eq {str : List UInt8} (h : ∀ x ∈ str, x ≠ 0x0a) : xputs str = str := by
  induction str with
  | nil => rfl
  | cons x str ih =>
    obtain ⟨hx, h⟩ := List.forall_mem_cons.mp h
    have hrest := ih h
    rw [xputs] at hrest ⊢
    rw [List.flatMap_cons, hrest, xputc, if_neg hx]
    rfl

theorem putNumeral_plain {t : UInt8} (c : UInt8) (hr : 1 < r.toNat) (hle : r.toNat ≤ 16) (ht : t = 0x44 → r = 10) (v : UInt32) :
    putNumeral ⟨4, 0, c, []⟩ t r v = some (wordText c t r v) := by
  rw [putNumeral_eq _ hr ht, xputs_eq (wordText_ne_newline hr hle v)]
  simp [field]

end buffer

section form

variable {c t : UInt8} {r v w : UInt32} {l : List UInt8}

theorem xvprintf_literal {x : UInt8} {fmt out : List UInt8} {arp : List Arg} (hx : x ≠ 0x25) (hnewline : x ≠ 0x0a)
    (h : xvprintf fmt arp = some out) : xvprintf (x :: fmt) arp = some (x :: out) := by
  rw [xvprintf, if_pos hx, h, Option.map_some, xputc, if_neg hnewline]
  rfl

theorem xvprintf_long (hdirective : directive [0x6c, c] = ⟨4, 0, c, []⟩) (hc : c ≠ 0)
    (hput : putDirective ⟨4, 0, c, []⟩ [.word v] = putWord (putNumeral ⟨4, 0, c, []⟩ t r) [.word v])
    (hr : 1 < r.toNat) (hle : r.toNat ≤ 16) (ht : t = 0x44 → r = 10) :
    xvprintf [0x25, 0x6c, c] [.word v] = some (wordText c t r v) := by
  rw [xvprintf, if_neg (not_not_intro rfl), hdirective]
  dsimp only
  rw [if_neg hc, hput, putWord, putNumeral_plain c hr hle ht, Option.map_some, Option.bind_some, xvprintf, Option.map_some,
    List.append_nil]

/-- What is printed for the value `v` is read as `w`, whatever the memory behind it holds. -/
def ReadsBack (fmt : List UInt8) (v w : UInt32) : Prop :=
  ∃ buff, xsprintf fmt [.word v] = some buff ∧ ∀ memory, ∃ rest, xatoi (buff ++ memory) = ⟨true, w, rest⟩

theorem readsBack_of_text {fmt : List UInt8} {n : ℕ} (neg : Bool)
    (hprint : xvprintf fmt [.word v] = some ((if neg then [0x2d] else []) ++ l))
    (hnumeral : Numeral l n) (hw : w = signed neg n) : ReadsBack fmt v w := by
  have hbuff : xsprintf fmt [.word v] = some (((if neg then [0x2d] else []) ++ l) ++ [0]) := by
    rw [xsprintf, hprint, Option.map_some]
  refine ⟨_, hbuff, fun memory => ⟨0 :: memory, ?_⟩⟩
  apply accepts_read
  refine ⟨0, neg, l, n, ?_, hnumeral, rfl, hw⟩
  rw [List.append_assoc, List.append_assoc]
  rfl

end form

section reading

variable {v : UInt32}

/-- `%ld`. -/
def decimalForm : List UInt8 := [0x25, 0x6c, 0x64]

/-- `0x%lX`. -/
def hexadecimalForm : List UInt8 := [0x30, 0x78, 0x25, 0x6c, 0x58]

/-- `0%lo`. -/
def octalForm : List UInt8 := [0x30, 0x25, 0x6c, 0x6f]

/-- `0b%lb`. -/
def binaryForm : List UInt8 := [0x30, 0x62, 0x25, 0x6c, 0x62]

theorem wordText_unsigned {c t : UInt8} {r : UInt32} (ht : t ≠ 0x44) : wordText c t r v = numeralText c r.toNat v.toNat :=
  if_neg fun h => ht h.1

theorem signed_toNat (v : UInt32) : v = signed false v.toNat := UInt32.ofNat_toNat.symm

theorem decimal_numeral (c : UInt8) (v : UInt32) : Numeral (numeralText c 10 v.toNat) v.toNat := by
  have hv := v.toNat_lt
  have hdigits := @numeralText_digits 10 c (by decide) (by decide) v.toNat
  rw [Nat.mod_eq_of_lt (by rw [sizeofS]; omega)] at hdigits
  by_cases hzero : v.toNat = 0
  · rw [hzero]
    exact Or.inr (Or.inl ⟨rfl, rfl⟩)
  · exact Or.inl ⟨numeralText_head c (by decide) (by decide) (by rw [sizeofS]; omega) hzero, hdigits⟩

theorem decimal_reads (v : UInt32) : ReadsBack decimalForm v v := by
  have hprint := @xvprintf_long 0x64 0x44 10 v rfl (by decide) rfl (by decide) (by decide) fun _ => rfl
  by_cases hneg : v &&& 0x80000000 ≠ 0
  · have htext : wordText 0x64 0x44 10 v = 0x2d :: numeralText 0x64 10 (0 - v).toNat := if_pos ⟨rfl, hneg⟩
    rw [htext] at hprint
    apply readsBack_of_text true hprint (decimal_numeral _ _)
    rw [signed, if_pos rfl, UInt32.ofNat_toNat]
    rw [UInt32.zero_sub, UInt32.zero_sub, UInt32.neg_neg]
  · have htext : wordText 0x64 0x44 10 v = numeralText 0x64 10 v.toNat := if_neg fun h => hneg h.2
    rw [htext] at hprint
    exact readsBack_of_text false hprint (decimal_numeral _ _) (signed_toNat v)

theorem hexadecimal_reads (v : UInt32) : ReadsBack hexadecimalForm v v := by
  have hlong := @xvprintf_long 0x58 0x58 16 v rfl (by decide) rfl (by decide) (by decide) fun h => absurd h (by decide)
  have hprint : xvprintf hexadecimalForm [.word v] = some (0x30 :: 0x78 :: numeralText 0x58 16 v.toNat) := by
    rw [wordText_unsigned (by decide)] at hlong
    exact xvprintf_literal (by decide) (by decide) (xvprintf_literal (by decide) (by decide) hlong)
  have hv := v.toNat_lt
  have hdigits := @numeralText_digits 16 0x58 (by decide) (by decide) v.toNat
  rw [Nat.mod_eq_of_lt (by rw [sizeofS]; omega)] at hdigits
  exact readsBack_of_text false hprint (Or.inr (Or.inr (Or.inr (Or.inl ⟨_, rfl, hdigits⟩)))) (signed_toNat v)

theorem octal_reads (v : UInt32) : ReadsBack octalForm v v := by
  have hlong := @xvprintf_long 0x6f 0x4f 8 v rfl (by decide) rfl (by decide) (by decide) fun h => absurd h (by decide)
  have hprint : xvprintf octalForm [.word v] = some (0x30 :: numeralText 0x6f 8 v.toNat) := by
    rw [wordText_unsigned (by decide)] at hlong
    exact xvprintf_literal (by decide) (by decide) hlong
  have hv := v.toNat_lt
  have hdigits := @numeralText_digits 8 0x6f (by decide) (by decide) v.toNat
  rw [Nat.mod_eq_of_lt (by rw [sizeofS]; omega)] at hdigits
  exact readsBack_of_text false hprint (Or.inr (Or.inr (Or.inl ⟨_, rfl, hdigits⟩))) (signed_toNat v)

theorem binary_reads (v : UInt32) : ReadsBack binaryForm v (v % 0x10000) := by
  have hlong := @xvprintf_long 0x62 0x42 2 v rfl (by decide) rfl (by decide) (by decide) fun h => absurd h (by decide)
  have hprint : xvprintf binaryForm [.word v] = some (0x30 :: 0x62 :: numeralText 0x62 2 v.toNat) := by
    rw [wordText_unsigned (by decide)] at hlong
    exact xvprintf_literal (by decide) (by decide) (xvprintf_literal (by decide) (by decide) hlong)
  have hdigits := @numeralText_digits 2 0x62 (by decide) (by decide) v.toNat
  have hlow : (v % 0x10000).toNat = v.toNat % 2 ^ sizeofS := UInt32.toNat_mod v 0x10000
  rw [← hlow] at hdigits
  exact readsBack_of_text false hprint (Or.inr (Or.inr (Or.inr (Or.inr ⟨_, rfl, hdigits⟩)))) (signed_toNat _)

theorem putDirective_isSome (d : Directive) (arp : List Arg) (v : UInt32)
    (h : (if d.c ≥ 0x61 then d.c - 0x20 else d.c) ≠ 0x53) : (putDirective d (.word v :: arp)).isSome := by
  have hnumeral {t : UInt8} {r : UInt32} (hr : 1 < r.toNat) (ht : t = 0x44 → r = 10) :
      (putWord (putNumeral d t r) (.word v :: arp)).isSome := by
    rw [putWord, putNumeral_eq d hr ht]
    rfl
  unfold putDirective
  generalize (if d.c ≥ 0x61 then d.c - 0x20 else d.c) = t at h ⊢
  dsimp only
  rw [if_neg h]
  split_ifs with hc hb ho hd hx
  · rfl
  · exact hnumeral (by decide) fun ht => absurd (hb.symm.trans ht) (by decide)
  · exact hnumeral (by decide) fun ht => absurd (ho.symm.trans ht) (by decide)
  · exact hnumeral (by decide) fun _ => rfl
  · exact hnumeral (by decide) fun ht => absurd (hx.symm.trans ht) (by decide)
  · rfl

theorem printed_numbers_read (v : UInt32) :
    ReadsBack decimalForm v v ∧ ReadsBack hexadecimalForm v v ∧ ReadsBack octalForm v v ∧
      ReadsBack binaryForm v (v % 0x10000) ∧
      ∀ (d : Directive) (arp : List Arg), (if d.c ≥ 0x61 then d.c - 0x20 else d.c) ≠ 0x53 →
        (putDirective d (.word v :: arp)).isSome :=
  ⟨decimal_reads v, hexadecimal_reads v, octal_reads v, binary_reads v, fun d arp => putDirective_isSome d arp v⟩

/-- The value that needs seventeen binary digits. -/
theorem binary_number_lost : ¬∀ v : UInt32, ReadsBack binaryForm v v := by
  intro h
  obtain ⟨buff, hprint, hread⟩ := h 0x10000
  obtain ⟨buff', hprint', hread'⟩ := binary_reads 0x10000
  obtain rfl := Option.some_inj.mp (hprint.symm.trans hprint')
  obtain ⟨rest, hread⟩ := hread []
  obtain ⟨rest', hread'⟩ := hread' []
  have hres : (0x10000 : UInt32) = 0x10000 % 0x10000 := congrArg Atoi.res (hread.symm.trans hread')
  exact absurd hres (by decide)

end reading

end Lpc1788Libraries.Monitor

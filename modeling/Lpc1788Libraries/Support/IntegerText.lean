import Mathlib.Data.List.TakeWhile
import Mathlib.Data.Int.Order.Basic
import Mathlib.Tactic.Common

namespace Lpc1788Libraries.Support.IntegerText

/-- `isspace`. -/
def isSpace (c : UInt8) : Bool := c = 0x20 ∨ 0x09 ≤ c ∧ c ≤ 0x0d

/-- The value of a digit or letter; what is neither is no digit of any base. -/
def digitValue (c : UInt8) : ℕ :=
  if 0x30 ≤ c ∧ c ≤ 0x39 then c.toNat - 0x30
  else if 0x61 ≤ c ∧ c ≤ 0x7a then c.toNat - 0x61 + 10
  else if 0x41 ≤ c ∧ c ≤ 0x5a then c.toNat - 0x41 + 10
  else 36

def isDigit (base : ℕ) (c : UInt8) : Bool := digitValue c < base

def valueOf (base : ℕ) (digits : List UInt8) : ℕ := digits.foldl (fun n c => n * base + digitValue c) 0

section grammar

/-- An integer constant without a suffix, and its value. -/
inductive Constant : List UInt8 → ℕ → Prop where
  | decimal (c : UInt8) (l : List UInt8) (hc : c ≠ 0x30) (h : ∀ x ∈ c :: l, isDigit 10 x) :
      Constant (c :: l) (valueOf 10 (c :: l))
  | octal (l : List UInt8) (h : ∀ x ∈ l, isDigit 8 x) : Constant (0x30 :: l) (valueOf 8 (0x30 :: l))
  | hexadecimal (x : UInt8) (l : List UInt8) (hx : x = 0x78 ∨ x = 0x58) (hne : l ≠ []) (h : ∀ c ∈ l, isDigit 16 c) :
      Constant (0x30 :: x :: l) (valueOf 16 l)

inductive Sign : List UInt8 → Bool → Prop where
  | absent : Sign [] false
  | plus : Sign [0x2b] false
  | minus : Sign [0x2d] true

/-- The text is blanks, a sign or none, and a constant. -/
def Spells (text : List UInt8) (neg : Bool) (m : ℕ) : Prop :=
  ∃ blanks sign digits, text = blanks ++ (sign ++ digits) ∧ (∀ c ∈ blanks, isSpace c) ∧ Sign sign neg ∧ Constant digits m

/-- The text denotes the integer. -/
def Denotes (text : List UInt8) (v : ℤ) : Prop := ∃ neg m, Spells text neg m ∧ v = if neg then -(m : ℤ) else m

end grammar

section conversion

/-- The base of the constant at the start of a text, and where its digits begin. A prefix without a
digit behind it is the constant 0. -/
def radix (text : List UInt8) : ℕ × List UInt8 :=
  if text.head? = some 0x30 then
    if (text[1]? = some 0x78 ∨ text[1]? = some 0x58) ∧ text[2]?.any (isDigit 16) then (16, text.drop 2) else (8, text)
  else (10, text)

def constantAt (text : List UInt8) : Option (ℕ × List UInt8) :=
  if (radix text).2.takeWhile (isDigit (radix text).1) = [] then none
  else some (valueOf (radix text).1 ((radix text).2.takeWhile (isDigit (radix text).1)),
    (radix text).2.dropWhile (isDigit (radix text).1))

def signAt (text : List UInt8) : Bool × List UInt8 :=
  if text.head? = some 0x2d then (true, text.tail)
  else if text.head? = some 0x2b then (false, text.tail)
  else (false, text)

/-- The sign and the magnitude of the number at the start of a text, and the text behind it. -/
def subject (text : List UInt8) : Option (Bool × ℕ × List UInt8) :=
  (constantAt (signAt (text.dropWhile isSpace)).2).map fun x => ((signAt (text.dropWhile isSpace)).1, x.1, x.2)

/-- `strtoul` in base 0, for numbers of 32 bits: the result, and the number of characters before the end pointer. -/
def strtoul (text : List UInt8) : ℕ × ℕ :=
  match subject text with
  | none => (0, 0)
  | some (neg, m, rest) =>
    (if 0xffffffff < m then 0xffffffff else if neg then (0x100000000 - m) % 0x100000000 else m, text.length - rest.length)

/-- `strtol` in base 0, for numbers of 32 bits. -/
def strtol (text : List UInt8) : ℤ × ℕ :=
  match subject text with
  | none => (0, 0)
  | some (neg, m, rest) =>
    (max (-0x80000000) (min 0x7fffffff (if neg then -(m : ℤ) else m)), text.length - rest.length)

end conversion

section correctness

variable {text digits : List UInt8} {base m : ℕ} {neg : Bool} {c : UInt8} {l : List UInt8}

theorem takeWhile_all {p : UInt8 → Bool} (h : ∀ c ∈ l, p c) : l.takeWhile p = l ∧ l.dropWhile p = [] :=
  ⟨List.takeWhile_eq_self_iff.mpr h, List.dropWhile_eq_nil_iff.mpr h⟩

theorem constantAt_whole : constantAt text = some (m, []) ↔
    (radix text).2 ≠ [] ∧ (∀ c ∈ (radix text).2, isDigit (radix text).1 c) ∧ m = valueOf (radix text).1 (radix text).2 := by
  unfold constantAt
  constructor
  · intro h
    split at h
    · exact absurd h (by simp)
    · next hne =>
      rw [Option.some.injEq, Prod.mk.injEq] at h
      have hall := List.dropWhile_eq_nil_iff.mp h.2
      rw [(takeWhile_all hall).1] at h hne
      exact ⟨hne, hall, h.1.symm⟩
  · rintro ⟨hne, hall, rfl⟩
    obtain ⟨htake, hdrop⟩ := takeWhile_all hall
    rw [htake, hdrop, if_neg hne]

theorem radix_decimal (hc : c ≠ 0x30) : radix (c :: l) = (10, c :: l) := by
  unfold radix
  rw [if_neg (by simpa using hc)]

theorem radix_octal (h : ∀ x ∈ l, isDigit 8 x) : radix (0x30 :: l) = (8, 0x30 :: l) := by
  have hx : ¬ (l[0]? = some 0x78 ∨ l[0]? = some 0x58) := by
    rintro (hx | hx)
    · exact absurd (h _ (List.mem_of_getElem? hx)) (by decide)
    · exact absurd (h _ (List.mem_of_getElem? hx)) (by decide)
  unfold radix
  rw [List.head?_cons, if_pos rfl, if_neg]
  intro hxd
  exact hx (by simpa using hxd.1)

theorem radix_hexadecimal {x : UInt8} (hx : x = 0x78 ∨ x = 0x58) (hc : isDigit 16 c) :
    radix (0x30 :: x :: c :: l) = (16, c :: l) := by
  unfold radix
  rw [List.head?_cons, if_pos rfl, if_pos]
  · rfl
  · exact ⟨by simpa using hx, by simpa using hc⟩

theorem constantAt_iff : constantAt text = some (m, []) ↔ Constant text m := by
  rw [constantAt_whole]
  constructor
  · rintro ⟨hne, hall, rfl⟩
    unfold radix at hne hall ⊢
    by_cases hzero : text.head? = some 0x30
    · obtain ⟨l, rfl⟩ : ∃ l, text = 0x30 :: l := by
        cases text with
        | nil => exact absurd hzero (by simp)
        | cons c l => exact ⟨l, by rw [Option.some.inj hzero]⟩
      by_cases hx : ((0x30 :: l)[1]? = some 0x78 ∨ (0x30 :: l)[1]? = some 0x58) ∧ (0x30 :: l)[2]?.any (isDigit 16)
      · simp only [if_pos hzero, if_pos hx] at hne hall ⊢
        cases l with
        | nil => exact absurd hx.1 (by simp)
        | cons x l => exact .hexadecimal x l (by simpa using hx.1) hne hall
      · simp only [if_pos hzero, if_neg hx] at hne hall ⊢
        exact .octal l fun c hc => hall c (List.mem_cons_of_mem _ hc)
    · simp only [if_neg hzero] at hne hall ⊢
      cases text with
      | nil => exact absurd rfl hne
      | cons c l => exact .decimal c l (fun h => hzero (congrArg some h)) hall
  · rintro (⟨c, l, hc, h⟩ | ⟨l, h⟩ | ⟨x, l, hx, hne, h⟩)
    · rw [radix_decimal hc]
      exact ⟨List.cons_ne_nil _ _, h, rfl⟩
    · rw [radix_octal h]
      refine ⟨List.cons_ne_nil _ _, ?_, rfl⟩
      rintro x (_ | ⟨_, hx⟩)
      · change isDigit 8 0x30 = true
        decide
      · exact h x hx
    · obtain ⟨c, l, rfl⟩ := List.exists_cons_of_ne_nil hne
      rw [radix_hexadecimal hx (h c List.mem_cons_self)]
      exact ⟨hne, h, rfl⟩

theorem isDigit_or_sign {base : ℕ} (h : isDigit base c) (hbase : base ≤ 16) :
    isSpace c = false ∧ c ≠ 0x2d ∧ c ≠ 0x2b := by
  have hvalue : ∀ x : UInt8, isSpace x = true ∨ x = 0x2d ∨ x = 0x2b → digitValue x = 36 := by
    rintro x (hx | rfl | rfl)
    · unfold isSpace at hx
      unfold digitValue
      simp only [decide_eq_true_iff] at hx
      rw [if_neg, if_neg, if_neg]
      all_goals
        rintro ⟨h1, h2⟩
        rcases hx with rfl | ⟨h3, h4⟩
        · exact absurd h1 (by decide)
        · exact absurd (UInt8.le_trans h1 h4) (by decide)
    · rfl
    · rfl
  unfold isDigit at h
  rw [decide_eq_true_iff] at h
  refine ⟨?_, ?_, ?_⟩
  · by_contra hs
    have h36 := hvalue c (.inl (by simpa using hs))
    omega
  · intro hc
    have h36 := hvalue c (.inr (.inl hc))
    omega
  · intro hc
    have h36 := hvalue c (.inr (.inr hc))
    omega

theorem Constant.head (h : Constant text m) : ∃ c l, text = c :: l ∧ isDigit 10 c := by
  rcases h with ⟨c, l, hc, hall⟩ | ⟨l, hall⟩ | ⟨x, l, hx, hne, hall⟩
  · exact ⟨c, l, rfl, hall c List.mem_cons_self⟩
  · exact ⟨_, l, rfl, by decide⟩
  · exact ⟨_, _, rfl, by decide⟩

theorem signAt_sign {sign : List UInt8} (hs : Sign sign neg) (h : Constant digits m) : signAt (sign ++ digits) = (neg, digits) := by
  obtain ⟨c, l, rfl, hc⟩ := h.head
  obtain ⟨-, hminus, hplus⟩ := isDigit_or_sign hc (by decide)
  cases hs with
  | absent =>
    unfold signAt
    rw [List.nil_append, List.head?_cons, if_neg (by simpa using hminus), if_neg (by simpa using hplus)]
  | plus => rfl
  | minus => rfl

theorem signAt_split : ∃ sign, text = sign ++ (signAt text).2 ∧ Sign sign (signAt text).1 := by
  unfold signAt
  split
  · next h =>
    cases text with
    | nil => exact absurd h (by simp)
    | cons c l => exact ⟨[0x2d], by rw [Option.some.inj h]; rfl, .minus⟩
  · split
    · next h =>
      cases text with
      | nil => exact absurd h (by simp)
      | cons c l => exact ⟨[0x2b], by rw [Option.some.inj h]; rfl, .plus⟩
    · exact ⟨[], rfl, .absent⟩

theorem Spells.subject (h : Spells text neg m) : subject text = some (neg, m, []) := by
  obtain ⟨blanks, sign, digits, rfl, hblanks, hsign, hconst⟩ := h
  obtain ⟨c, l, rfl, hc⟩ := hconst.head
  have hdrop : (blanks ++ (sign ++ c :: l)).dropWhile isSpace = sign ++ c :: l := by
    rw [List.dropWhile_append_of_pos hblanks]
    cases hsign with
    | absent => exact List.dropWhile_cons_of_neg (by rw [(isDigit_or_sign hc (by decide)).1]; simp)
    | plus => rfl
    | minus => rfl
  unfold IntegerText.subject
  rw [hdrop, signAt_sign hsign hconst, constantAt_iff.mpr hconst]
  rfl

theorem spells_of_subject (h : subject text = some (neg, m, [])) : Spells text neg m := by
  obtain ⟨⟨n, rest⟩, hconst, heq⟩ := Option.map_eq_some_iff.mp h
  simp only [Prod.mk.injEq] at heq
  obtain ⟨rfl, rfl, rfl⟩ := heq
  obtain ⟨sign, hsplit, hsign⟩ := @signAt_split (text.dropWhile isSpace)
  refine ⟨text.takeWhile isSpace, sign, _, ?_, fun c hc => List.mem_takeWhile_imp hc, hsign, constantAt_iff.mp hconst⟩
  rw [← hsplit, List.takeWhile_append_dropWhile]

theorem Spells.unique {neg' : Bool} {m' : ℕ} (h : Spells text neg m) (h' : Spells text neg' m') : neg = neg' ∧ m = m' := by
  have heq := h.subject.symm.trans h'.subject
  simpa using heq

theorem Denotes.unique {v w : ℤ} (h : Denotes text v) (h' : Denotes text w) : v = w := by
  obtain ⟨neg, m, hs, rfl⟩ := h
  obtain ⟨neg', m', hs', rfl⟩ := h'
  obtain ⟨rfl, rfl⟩ := hs.unique hs'
  rfl

theorem subject_stops {n : ℕ} (hn : ∀ neg m rest, subject text = some (neg, m, rest) → n = text.length - rest.length)
    (hnone : subject text = none → n = 0) : (n = 0 ∨ n < text.length) ↔ ¬ ∃ neg m, Spells text neg m := by
  cases hs : subject text with
  | none =>
    refine iff_of_true (.inl (hnone hs)) ?_
    rintro ⟨neg, m, h⟩
    rw [h.subject] at hs
    exact absurd hs (by simp)
  | some x =>
    obtain ⟨neg, m, rest⟩ := x
    have hlen := hn neg m rest hs
    have hne : text ≠ [] := by
      rintro rfl
      have hnil : subject [] = none := by decide
      exact absurd (hnil.symm.trans hs) (by simp)
    have hpos := List.length_pos_iff.mpr hne
    cases rest with
    | nil =>
      rw [List.length_nil] at hlen
      exact iff_of_false (by omega) fun h => h ⟨neg, m, spells_of_subject hs⟩
    | cons c l =>
      rw [List.length_cons] at hlen
      refine iff_of_true (.inr (by omega)) ?_
      rintro ⟨neg', m', h⟩
      rw [h.subject] at hs
      exact absurd hs (by simp)

theorem strtoul_stops : ((strtoul text).2 = 0 ∨ (strtoul text).2 < text.length) ↔ ¬ ∃ neg m, Spells text neg m := by
  apply subject_stops
  · intro neg m rest h
    unfold strtoul
    rw [h]
  · intro h
    unfold strtoul
    rw [h]

theorem strtol_stops : ((strtol text).2 = 0 ∨ (strtol text).2 < text.length) ↔ ¬ ∃ neg m, Spells text neg m := by
  apply subject_stops
  · intro neg m rest h
    unfold strtol
    rw [h]
  · intro h
    unfold strtol
    rw [h]

theorem strtoul_spells (h : Spells text neg m) : (strtoul text).1 =
    if 0xffffffff < m then 0xffffffff else if neg then (0x100000000 - m) % 0x100000000 else m := by
  unfold strtoul
  rw [h.subject]

theorem strtol_spells (h : Spells text neg m) :
    (strtol text).1 = max (-0x80000000) (min 0x7fffffff (if neg then -(m : ℤ) else m)) := by
  unfold strtol
  rw [h.subject]

end correctness

end Lpc1788Libraries.Support.IntegerText

import Lpc1788Libraries.Cli.CliArguments
import Lpc1788Libraries.Support.IntegerText

namespace Lpc1788Libraries.Cli

open Lpc1788Libraries.Support IntegerText

section model

variable {w : ℕ} (cfg : Config) (s : CliState) (argvIndex : ℕ)

/-- Writes the member of `cli_argv_val` that has the width of `x`. -/
def setMember (val : BitVec 64) (x : BitVec w) : BitVec 64 := (val >>> w <<< w) ||| x.setWidth 64

/-- The argument behind the command's own words; the index is a byte. -/
def argvString : List UInt8 := stringAt cfg s (s.argv ((argvIndex + (s.treeIndex + 1)) % 0x100))

/-- `cli_argv_val` after the conversion. -/
def argvToUnsigned (min max : BitVec w) (val : BitVec 64) : Bool × BitVec 64 :=
  let r := strtoul (argvString cfg s argvIndex)
  if r.2 = 0 ∨ r.2 < (argvString cfg s argvIndex).length then (false, val)
  else if min.toNat ≤ r.1 ∧ r.1 ≤ max.toNat then (true, setMember val (BitVec.ofNat w r.1))
  else (false, val)

def argvToSigned (min max : BitVec w) (val : BitVec 64) : Bool × BitVec 64 :=
  let r := strtol (argvString cfg s argvIndex)
  if r.2 = 0 ∨ r.2 < (argvString cfg s argvIndex).length then (false, val)
  else if min.toInt ≤ r.1 ∧ r.1 ≤ max.toInt then (true, setMember val (BitVec.ofInt w r.1))
  else (false, val)

def cliUtilArgvToU8 (min max : BitVec 8) (val : BitVec 64) : Bool × BitVec 64 := argvToUnsigned cfg s argvIndex min max val

def cliUtilArgvToU16 (min max : BitVec 16) (val : BitVec 64) : Bool × BitVec 64 := argvToUnsigned cfg s argvIndex min max val

def cliUtilArgvToU32 (min max : BitVec 32) (val : BitVec 64) : Bool × BitVec 64 := argvToUnsigned cfg s argvIndex min max val

def cliUtilArgvToS8 (min max : BitVec 8) (val : BitVec 64) : Bool × BitVec 64 := argvToSigned cfg s argvIndex min max val

def cliUtilArgvToS16 (min max : BitVec 16) (val : BitVec 64) : Bool × BitVec 64 := argvToSigned cfg s argvIndex min max val

def cliUtilArgvToS32 (min max : BitVec 32) (val : BitVec 64) : Bool × BitVec 64 := argvToSigned cfg s argvIndex min max val

end model

/-- The conversion accepts the texts of the integers between the bounds and stores their values. -/
structure Converts {w : ℕ} (value : BitVec w → ℤ) (text : List UInt8) (min max : BitVec w) (val : BitVec 64)
    (r : Bool × BitVec 64) : Prop where
  accepts : r.1 = true ↔ ∃ v, Denotes text v ∧ value min ≤ v ∧ v ≤ value max
  stores : r.1 = true → Denotes text (value (r.2.setWidth w))
  keeps : r.1 = false → r.2 = val

variable {w : ℕ} {cfg : Config} {s : CliState} {argvIndex : ℕ} {lo hi : BitVec w} {val : BitVec 64} {text : List UInt8} {v : ℤ}

theorem setMember_member {x : BitVec w} (hw : w ≤ 64) : (setMember val x).setWidth w = x := by
  apply BitVec.eq_of_getLsbD_eq
  intro i hi
  simp [setMember, hi, Nat.lt_of_lt_of_le hi hw]

/-- What `strtoul` makes of an integer. -/
def wrapped (v : ℤ) : ℤ :=
  if 0 ≤ v ∧ v < 0x100000000 then v else if -0x100000000 < v ∧ v < 0 then v + 0x100000000 else 0xffffffff

theorem strtoul_denotes (h : Denotes text v) : ((strtoul text).1 : ℤ) = wrapped v := by
  obtain ⟨neg, m, hs, rfl⟩ := h
  rw [strtoul_spells hs]
  unfold wrapped
  cases neg with
  | true =>
    simp only [if_true]
    split_ifs <;> omega
  | false =>
    simp only [Bool.false_eq_true, if_false]
    split_ifs <;> omega

/-- What `strtol` makes of an integer. -/
def clamped (v : ℤ) : ℤ := max (-0x80000000) (min 0x7fffffff v)

theorem strtol_denotes (h : Denotes text v) : (strtol text).1 = clamped v := by
  obtain ⟨neg, m, hs, rfl⟩ := h
  exact strtol_spells hs

theorem converts_iff {value : BitVec w → ℤ} {conv : ℤ → ℤ} {i : ℤ} {n : ℕ} {x : BitVec w} {r : Bool × BitVec 64} (hw : w ≤ 64)
    (hr : r = if n = 0 ∨ n < text.length then (false, val)
      else if value lo ≤ i ∧ i ≤ value hi then (true, setMember val x) else (false, val))
    (hstops : (n = 0 ∨ n < text.length) ↔ ¬ ∃ neg m, Spells text neg m) (hconv : ∀ v, Denotes text v → i = conv v)
    (hx : value lo ≤ i → i ≤ value hi → value x = i) (hexact : ∀ v, value lo ≤ v → v ≤ value hi → conv v = v) :
    Converts value text lo hi val r ↔
      ∀ v, Denotes text v → conv v ≠ v → ¬ (value lo ≤ conv v ∧ conv v ≤ value hi) := by
  by_cases hspells : ∃ neg m, Spells text neg m
  · obtain ⟨neg, m, hs⟩ := hspells
    obtain ⟨u, hu⟩ : ∃ u, Denotes text u := ⟨_, neg, m, hs, rfl⟩
    rw [if_neg (fun h => hstops.mp h ⟨neg, m, hs⟩), hconv u hu] at hr
    rw [hconv u hu] at hx
    constructor
    · intro h v hv hne hin
      obtain rfl := hu.unique hv
      rw [if_pos hin] at hr
      have hstored := h.stores (by rw [hr])
      rw [hr, setMember_member hw, hx hin.1 hin.2] at hstored
      exact hne (hstored.unique hu)
    · intro h
      by_cases hin : value lo ≤ conv u ∧ conv u ≤ value hi
      · have hsame : conv u = u := by_contra fun hne => h u hu hne hin
        rw [if_pos hin] at hr
        rw [hr]
        refine ⟨iff_of_true rfl ⟨u, hu, by omega, by omega⟩, fun _ => ?_, fun hf => absurd hf (by simp)⟩
        rw [setMember_member hw, hx hin.1 hin.2, hsame]
        exact hu
      · rw [if_neg hin] at hr
        rw [hr]
        refine ⟨iff_of_false (by simp) ?_, fun hf => absurd hf (by simp), fun _ => rfl⟩
        rintro ⟨v, hv, hlo, hhi⟩
        obtain rfl := hu.unique hv
        rw [hexact u hlo hhi] at hin
        exact hin ⟨hlo, hhi⟩
  · have hnone : ∀ v, ¬ Denotes text v := fun v ⟨neg, m, hs, _⟩ => hspells ⟨neg, m, hs⟩
    rw [if_pos (hstops.mpr hspells)] at hr
    rw [hr]
    refine iff_of_true ⟨?_, fun hf => absurd hf (by simp), fun _ => rfl⟩ fun v hv => absurd hv (hnone v)
    exact iff_of_false (by simp) fun ⟨v, hv, _⟩ => hnone v hv

theorem argvToUnsigned_iff (hw : w ≤ 32) :
    Converts (fun x => (x.toNat : ℤ)) (argvString cfg s argvIndex) lo hi val (argvToUnsigned cfg s argvIndex lo hi val) ↔
      ∀ v, Denotes (argvString cfg s argvIndex) v → wrapped v ≠ v → ¬ ((lo.toNat : ℤ) ≤ wrapped v ∧ wrapped v ≤ hi.toNat) := by
  have hlt := hi.isLt
  have hle : 2 ^ w ≤ 2 ^ 32 := Nat.pow_le_pow_right (by decide) hw
  refine converts_iff (i := ((strtoul (argvString cfg s argvIndex)).1 : ℤ)) (x := BitVec.ofNat w (strtoul (argvString cfg s argvIndex)).1)
    (by omega) ?_ strtoul_stops (fun v hv => strtoul_denotes hv) ?_ ?_
  · unfold argvToUnsigned
    simp only [Int.ofNat_le]
  · intro _ h
    rw [BitVec.toNat_ofNat, Nat.mod_eq_of_lt (by omega)]
  · intro v h h'
    exact if_pos (by omega)

theorem argvToSigned_iff (hpos : 0 < w) (hw : w ≤ 32) :
    Converts BitVec.toInt (argvString cfg s argvIndex) lo hi val (argvToSigned cfg s argvIndex lo hi val) ↔
      ∀ v, Denotes (argvString cfg s argvIndex) v → clamped v ≠ v → ¬ (lo.toInt ≤ clamped v ∧ clamped v ≤ hi.toInt) := by
  have hlt := hi.toInt_lt
  have hge := lo.le_toInt
  have hle : 2 ^ (w - 1) ≤ 2 ^ 31 := Nat.pow_le_pow_right (by decide) (by omega)
  have hle' : (2 : ℤ) ^ (w - 1) ≤ 2 ^ 31 := by exact_mod_cast hle
  refine converts_iff (i := (strtol (argvString cfg s argvIndex)).1) (x := BitVec.ofInt w (strtol (argvString cfg s argvIndex)).1)
    (by omega) rfl strtol_stops (fun v hv => strtol_denotes hv) ?_ ?_
  · intro h h'
    exact BitVec.toInt_ofInt_eq_self hpos (by omega) (by omega)
  · intro v h h'
    unfold clamped
    omega

/-- The conversion takes a negative integer for one between the bounds. -/
def WrapsInto (lo hi v : ℤ) : Prop := -0x100000000 < v ∧ v < 0 ∧ lo ≤ v + 0x100000000 ∧ v + 0x100000000 ≤ hi

theorem wrapped_bounds {l h : ℤ} (hl : 0 ≤ l) (hh : h ≤ 0xffffffff) : (wrapped v ≠ v → ¬ (l ≤ wrapped v ∧ wrapped v ≤ h)) ↔
    ¬ WrapsInto l h v ∧ ¬ ((0x100000000 ≤ v ∨ v ≤ -0x100000000) ∧ l ≤ 0xffffffff ∧ h = 0xffffffff) := by
  unfold wrapped WrapsInto
  split_ifs <;> omega

theorem clamped_bounds {l h : ℤ} (hl : -0x80000000 ≤ l) (hh : h ≤ 0x7fffffff) : (clamped v ≠ v → ¬ (l ≤ clamped v ∧ clamped v ≤ h)) ↔
    ¬ (0x7fffffff < v ∧ l ≤ 0x7fffffff ∧ h = 0x7fffffff) ∧ ¬ (v < -0x80000000 ∧ l = -0x80000000 ∧ -0x80000000 ≤ h) := by
  unfold clamped
  omega

/-- When the conversions of `cli_cmd`'s arguments are right, for every argument. -/
theorem argvTo_exact_iff :
    (∀ lo hi : BitVec 8, Converts (fun x => (x.toNat : ℤ)) (argvString cfg s argvIndex) lo hi val
      (cliUtilArgvToU8 cfg s argvIndex lo hi val) ↔
        ∀ v, Denotes (argvString cfg s argvIndex) v → ¬ WrapsInto lo.toNat hi.toNat v) ∧
    (∀ lo hi : BitVec 16, Converts (fun x => (x.toNat : ℤ)) (argvString cfg s argvIndex) lo hi val
      (cliUtilArgvToU16 cfg s argvIndex lo hi val) ↔
        ∀ v, Denotes (argvString cfg s argvIndex) v → ¬ WrapsInto lo.toNat hi.toNat v) ∧
    (∀ lo hi : BitVec 32, Converts (fun x => (x.toNat : ℤ)) (argvString cfg s argvIndex) lo hi val
      (cliUtilArgvToU32 cfg s argvIndex lo hi val) ↔
        ∀ v, Denotes (argvString cfg s argvIndex) v → ¬ WrapsInto lo.toNat hi.toNat v ∧
          ¬ ((0x100000000 ≤ v ∨ v ≤ -0x100000000) ∧ hi.toNat = 0xffffffff)) ∧
    (∀ lo hi : BitVec 8, Converts BitVec.toInt (argvString cfg s argvIndex) lo hi val (cliUtilArgvToS8 cfg s argvIndex lo hi val)) ∧
    (∀ lo hi : BitVec 16, Converts BitVec.toInt (argvString cfg s argvIndex) lo hi val
      (cliUtilArgvToS16 cfg s argvIndex lo hi val)) ∧
    ∀ lo hi : BitVec 32, Converts BitVec.toInt (argvString cfg s argvIndex) lo hi val (cliUtilArgvToS32 cfg s argvIndex lo hi val) ↔
      ∀ v, Denotes (argvString cfg s argvIndex) v →
        ¬ (0x7fffffff < v ∧ hi.toInt = 0x7fffffff) ∧ ¬ (v < -0x80000000 ∧ lo.toInt = -0x80000000) := by
  refine ⟨?_, ?_, ?_, ?_, ?_, ?_⟩
  · intro lo hi
    have hlt := hi.isLt
    refine (argvToUnsigned_iff (by decide)).trans (forall₂_congr fun v _ => ?_)
    rw [wrapped_bounds (by omega) (by omega)]
    exact and_iff_left (by omega)
  · intro lo hi
    have hlt := hi.isLt
    refine (argvToUnsigned_iff (by decide)).trans (forall₂_congr fun v _ => ?_)
    rw [wrapped_bounds (by omega) (by omega)]
    exact and_iff_left (by omega)
  · intro lo hi
    have hlt := hi.isLt
    have hlo := lo.isLt
    refine (argvToUnsigned_iff (by decide)).trans (forall₂_congr fun v _ => ?_)
    rw [wrapped_bounds (by omega) (by omega)]
    apply and_congr_right
    intro _
    omega
  · intro lo hi
    have hlt := hi.toInt_lt
    have hge := lo.le_toInt
    refine (argvToSigned_iff (by decide) (by decide)).mpr fun v _ => ?_
    rw [clamped_bounds (by omega) (by omega)]
    omega
  · intro lo hi
    have hlt := hi.toInt_lt
    have hge := lo.le_toInt
    refine (argvToSigned_iff (by decide) (by decide)).mpr fun v _ => ?_
    rw [clamped_bounds (by omega) (by omega)]
    omega
  · intro lo hi
    have hlt := hi.toInt_lt
    have hge := lo.le_toInt
    have hlt' := lo.toInt_lt
    have hge' := hi.le_toInt
    refine (argvToSigned_iff (by decide) (by decide)).trans (forall₂_congr fun v _ => ?_)
    rw [clamped_bounds (by omega) (by omega)]
    omega

/-- The text `-1`. -/
theorem argvToU32_wraps : ¬ ∀ (cfg : Config) (s : CliState) (argvIndex : ℕ) (lo hi : BitVec 32) (val : BitVec 64),
    lo.toNat ≤ hi.toNat → Converts (fun x => (x.toNat : ℤ)) (argvString cfg s argvIndex) lo hi val
      (cliUtilArgvToU32 cfg s argvIndex lo hi val) := by
  intro h
  have htext : argvString boardConsole (typedLine [0x2d, 0x31]) 0 = [0x2d, 0x31] := by decide
  have hspells : Spells [0x2d, 0x31] true 1 := spells_of_subject (by decide)
  have hdenotes : Denotes [0x2d, 0x31] (-1) := ⟨true, 1, hspells, rfl⟩
  have hconv := h boardConsole (typedLine [0x2d, 0x31]) 0 0 0xffffffff 0 (by decide)
  have haccepted : (cliUtilArgvToU32 boardConsole (typedLine [0x2d, 0x31]) 0 0 0xffffffff 0).1 = true := by decide
  obtain ⟨v, hv, hlo, -⟩ := hconv.accepts.mp haccepted
  rw [htext] at hv
  obtain rfl := hdenotes.unique hv
  exact absurd hlo (by decide)

end Lpc1788Libraries.Cli

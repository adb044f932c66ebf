import Mathlib.Data.Nat.Bitwise
import Mathlib.Tactic.IntervalCases

namespace Lpc1788Libraries.TextLcd

/-- A call of `lcd_HD44780_Puts`, with the array that its string starts in. -/
structure PutsCall where
  x : UInt8
  y : UInt8
  memory : List UInt8
  deriving DecidableEq

section encoders

/-- A store into a local array; behind its end it has no result. -/
def store (i : ℕ) (v : UInt8) (buff : List UInt8) : Option (List UInt8) := if i < buff.length then some (buff.set i v) else none

/-- Stores from the place `i` on. -/
def storeChars : ℕ → List UInt8 → List UInt8 → Option (List UInt8)
  | _, [], buff => some buff
  | i, c :: cs, buff => do storeChars (i + 1) cs (← store i c buff)

/-- `buff[0] = '0' + c`, and so on with the other digits. -/
def putDigits (size : ℕ) (x y : UInt8) (digits : List ℕ) : Option (List PutsCall) := do
  let buff ← storeChars 0 (digits.map fun c => 0x30 + UInt8.ofNat c) (List.replicate size 0)
  return [⟨x, y, buff⟩]

def lcdPutDec99 (x y : UInt8) (decnum : ℕ) : Option (List PutsCall) :=
  let c1 := decnum % 10
  let c2 := (decnum / 10) % 10
  putDigits 3 x y [c2, c1]

def lcdPutDec (x y : UInt8) (decnum : ℕ) : Option (List PutsCall) :=
  let c1 := decnum % 10
  let c2 := (decnum / 10) % 10
  let c3 := (decnum / 100) % 10
  putDigits 4 x y [c3, c2, c1]

def lcdPutDec16 (x y : UInt8) (decnum : ℕ) : Option (List PutsCall) :=
  let c1 := decnum % 10
  let c2 := (decnum / 10) % 10
  let c3 := (decnum / 100) % 10
  let c4 := (decnum / 1000) % 10
  let c5 := (decnum / 10000) % 10
  putDigits 6 x y [c5, c4, c3, c2, c1]

def lcdPutDec32 (x y : UInt8) (decnum : ℕ) : Option (List PutsCall) :=
  let c1 := decnum % 10
  let c2 := (decnum / 10) % 10
  let c3 := (decnum / 100) % 10
  let c4 := (decnum / 1000) % 10
  let c5 := (decnum / 10000) % 10
  let c6 := (decnum / 100000) % 10
  let c7 := (decnum / 1000000) % 10
  let c8 := (decnum / 10000000) % 10
  let c9 := (decnum / 100000000) % 10
  let c10 := (decnum / 1000000000) % 10
  putDigits 11 x y [c10, c9, c8, c7, c6, c5, c4, c3, c2, c1]

def nibbleChar (nibble : ℕ) : UInt8 := if nibble > 9 then 0x41 + UInt8.ofNat nibble - 10 else 0x30 + UInt8.ofNat nibble

/-- The loop over the nibbles, from `i` down to 0. -/
def hexLoop (hexnum : ℕ) : ℕ → ℕ → List UInt8 → Option (List UInt8)
  | 0, idx, buff => store idx (nibbleChar ((hexnum >>> (4 * 0)) &&& 0x0F)) buff
  | i + 1, idx, buff => do
    let buff ← store idx (nibbleChar ((hexnum >>> (4 * (i + 1))) &&& 0x0F)) buff
    hexLoop hexnum i (idx + 1) buff

def putNibbles (size i : ℕ) (x y : UInt8) (hexnum : ℕ) : Option (List PutsCall) := do
  let buff ← hexLoop hexnum i 0 (List.replicate size 0)
  return [⟨x, y, buff⟩]

/-- `"0x"`, and the digits behind it. -/
def putPrefixed (size i : ℕ) (x y : UInt8) (hexnum : ℕ) : Option (List PutsCall) := do
  let digits ← putNibbles size i (x + 2) y hexnum
  return ⟨x, y, [0x30, 0x78, 0]⟩ :: digits

def lcdPutHex_ (x y : UInt8) (hexnum : ℕ) : Option (List PutsCall) := putNibbles 3 1 x y hexnum

def lcdPutHex (x y : UInt8) (hexnum : ℕ) : Option (List PutsCall) := putPrefixed 3 1 x y hexnum

def lcdPutHex16 (x y : UInt8) (hexnum : ℕ) : Option (List PutsCall) := putPrefixed 4 3 x y hexnum

def lcdPutHex32 (x y : UInt8) (hexnum : ℕ) : Option (List PutsCall) := putPrefixed 8 7 x y hexnum

end encoders

section representation

/-- The digit for `A` to `F` in upper case. -/
def upperDigit (d : ℕ) : UInt8 := if d < 10 then UInt8.ofNat (0x30 + d) else UInt8.ofNat (0x41 + (d - 10))

/-- The last `n` digits of a number, the highest first. -/
def fixedDigits (base : ℕ) : ℕ → ℕ → List ℕ
  | 0, _ => []
  | n + 1, v => fixedDigits base n (v / base) ++ [v % base]

def fixedText (base n v : ℕ) : List UInt8 := (fixedDigits base n v).map upperDigit

theorem fixedDigits_succ (base n v : ℕ) : fixedDigits base (n + 1) v = fixedDigits base n (v / base) ++ [v % base] := rfl

theorem fixedDigits_length (base n v : ℕ) : (fixedDigits base n v).length = n := by
  induction n generalizing v with
  | zero => rfl
  | succ n ih =>
    rw [fixedDigits_succ, List.length_append, ih]
    rfl

theorem fixedDigits_lt {base : ℕ} (hbase : 0 < base) (n v : ℕ) : ∀ d ∈ fixedDigits base n v, d < base := by
  induction n generalizing v with
  | zero =>
    intro d hd
    exact absurd hd List.not_mem_nil
  | succ n ih =>
    intro d hd
    rcases List.mem_append.mp hd with hd | hd
    · exact ih _ d hd
    · rw [List.mem_singleton.mp hd]
      exact Nat.mod_lt _ hbase

theorem fixedDigits_value (base n v : ℕ) : (fixedDigits base n v).foldl (fun a d => a * base + d) 0 = v % base ^ n := by
  induction n generalizing v with
  | zero =>
    rw [pow_zero, Nat.mod_one]
    rfl
  | succ n ih =>
    rw [fixedDigits_succ, List.foldl_append, ih, pow_succ, Nat.mul_comm (base ^ n), Nat.mod_mul]
    change v / base % base ^ n * base + v % base = _
    rw [Nat.mul_comm, Nat.add_comm]

theorem fixedDigits_cons (base n v : ℕ) : fixedDigits base (n + 1) v = v / base ^ n % base :: fixedDigits base n v := by
  induction n generalizing v with
  | zero =>
    rw [pow_zero, Nat.div_one]
    rfl
  | succ n ih =>
    rw [fixedDigits_succ, ih, fixedDigits_succ, List.cons_append, Nat.div_div_eq_div_mul, ← Nat.pow_succ']

theorem upperDigit_ne_zero {d : ℕ} (h : d < 16) : upperDigit d ≠ 0 := by
  interval_cases d <;> decide

theorem decimalChar_eq {d : ℕ} (h : d < 10) : 0x30 + UInt8.ofNat d = upperDigit d := by
  interval_cases d <;> decide

theorem nibbleChar_eq {d : ℕ} (h : d < 16) : nibbleChar d = upperDigit d := by
  interval_cases d <;> decide

/-- A string of `n` digits with the value. -/
def Shows (base n v : ℕ) (text : List UInt8) : Prop :=
  ∃ ds : List ℕ, ds.length = n ∧ (∀ d ∈ ds, d < base) ∧ ds.foldl (fun a d => a * base + d) 0 = v ∧ text = ds.map upperDigit

theorem shows_fixedText {base : ℕ} (hbase : 0 < base) (n v : ℕ) : Shows base n (v % base ^ n) (fixedText base n v) :=
  ⟨fixedDigits base n v, fixedDigits_length base n v, fixedDigits_lt hbase n v, fixedDigits_value base n v, rfl⟩

end representation

section buffers

variable {size n base v : ℕ} {x y : UInt8} {chars buff init : List UInt8}

theorem storeChars_fits (init : List UInt8) {k : ℕ} (h : chars.length ≤ k) :
    storeChars init.length chars (init ++ List.replicate k 0) =
      some (init ++ chars ++ List.replicate (k - chars.length) 0) := by
  induction chars generalizing init k with
  | nil => rw [storeChars, List.append_nil, List.length_nil, Nat.sub_zero]
  | cons c chars ih =>
    obtain ⟨k, rfl⟩ : ∃ k', k = k' + 1 := ⟨k - 1, by rw [List.length_cons] at h; omega⟩
    have hstore : store init.length c (init ++ List.replicate (k + 1) 0) = some ((init ++ [c]) ++ List.replicate k 0) := by
      have hlt : init.length < (init ++ List.replicate (k + 1) 0).length := by
        rw [List.length_append, List.length_replicate]
        omega
      unfold store
      rw [if_pos hlt, List.set_append_right _ _ le_rfl, Nat.sub_self, List.replicate_succ, List.set_cons_zero,
        List.append_assoc]
      rfl
    have hlen : (init ++ [c]).length = init.length + 1 := by
      rw [List.length_append]
      rfl
    have hrest := ih (init ++ [c]) (Nat.le_of_succ_le_succ h)
    rw [hlen] at hrest
    rw [storeChars, hstore]
    change storeChars _ _ _ = _
    rw [hrest, List.append_assoc init, List.length_cons, Nat.add_sub_add_right]
    rfl

theorem storeChars_initial (h : chars.length ≤ size) :
    storeChars 0 chars (List.replicate size 0) = some (chars ++ List.replicate (size - chars.length) 0) := by
  have hfits := storeChars_fits [] h
  rwa [List.nil_append, List.nil_append] at hfits

theorem hexLoop_eq (hexnum i idx : ℕ) (buff : List UInt8) :
    hexLoop hexnum i idx buff = storeChars idx (fixedText 16 (i + 1) hexnum) buff := by
  have hnibble : ∀ j, nibbleChar ((hexnum >>> (4 * j)) &&& 0x0F) = upperDigit (hexnum / 16 ^ j % 16) := by
    intro j
    have hand : (hexnum >>> (4 * j)) &&& 0x0F = hexnum / 16 ^ j % 16 := by
      have hpow : 16 ^ j = 2 ^ (4 * j) := by rw [Nat.pow_mul]
      rw [Nat.shiftRight_eq_div_pow, ← hpow]
      exact Nat.and_two_pow_sub_one_eq_mod _ 4
    rw [hand, nibbleChar_eq (Nat.mod_lt _ (by decide))]
  induction i generalizing idx buff with
  | zero =>
    have htext : fixedText 16 1 hexnum = [upperDigit (hexnum / 16 ^ 0 % 16)] := by
      rw [fixedText, fixedDigits_cons]
      rfl
    rw [hexLoop, hnibble, htext, storeChars]
    cases store idx (upperDigit (hexnum / 16 ^ 0 % 16)) buff with
    | none => rfl
    | some b => rfl
  | succ i ih =>
    have htext : fixedText 16 (i + 2) hexnum = upperDigit (hexnum / 16 ^ (i + 1) % 16) :: fixedText 16 (i + 1) hexnum := by
      rw [fixedText, fixedDigits_cons]
      rfl
    rw [hexLoop, hnibble, htext, storeChars]
    simp only [ih]

/-- The last call passes a string that ends inside of its array, with the digits of the value. -/
def PassesNumber (base n v : ℕ) (calls : Option (List PutsCall)) : Prop :=
  ∃ init call, calls = some (init ++ [call]) ∧ 0 ∈ call.memory ∧ Shows base n v (call.memory.takeWhile (· ≠ 0))

theorem fixedText_ne_zero (hbase : 0 < base) (hle : base ≤ 16) (n v : ℕ) : ∀ c ∈ fixedText base n v, c ≠ 0 := by
  intro c hc
  obtain ⟨d, hd, rfl⟩ := List.mem_map.mp hc
  exact upperDigit_ne_zero ((fixedDigits_lt hbase n v d hd).trans_le hle)

theorem passesNumber_iff (hbase : 0 < base) (hle : base ≤ 16) (hsize : n ≤ size) {calls : List PutsCall} {call : PutsCall}
    (hmem : storeChars 0 (fixedText base n v) (List.replicate size 0) = some call.memory) {w : ℕ} (hv : v % base ^ n = w) :
    PassesNumber base n w (some (calls ++ [call])) ↔ n < size := by
  have hlen : (fixedText base n v).length = n := (List.length_map _).trans (fixedDigits_length base n v)
  have hne := fixedText_ne_zero hbase hle n v
  have hmemory : call.memory = fixedText base n v ++ List.replicate (size - n) 0 := by
    rw [storeChars_initial (hlen.le.trans hsize), hlen] at hmem
    exact (Option.some.inj hmem).symm
  constructor
  · rintro ⟨init, call', he, h0, -⟩
    have hcall : call = call' := List.append_inj_right' (Option.some.inj he) rfl |> List.cons.inj |>.1
    rw [← hcall, hmemory] at h0
    rcases List.mem_append.mp h0 with h0 | h0
    · exact absurd rfl (hne 0 h0)
    · have hpos := (List.mem_replicate.mp h0).1
      omega
  · intro hlt
    obtain ⟨k, hk⟩ : ∃ k, size - n = k + 1 := ⟨size - n - 1, by omega⟩
    refine ⟨calls, call, rfl, ?_, ?_⟩
    · rw [hmemory, hk]
      exact List.mem_append_right _ List.mem_cons_self
    · have htake : (fixedText base n v ++ List.replicate (k + 1) 0).takeWhile (· ≠ 0) = fixedText base n v := by
        rw [List.takeWhile_append_of_pos, List.replicate_succ, List.takeWhile_cons_of_neg, List.append_nil]
        · simp
        · intro c hc
          exact decide_eq_true (hne c hc)
      rw [hmemory, hk, htake, ← hv]
      exact shows_fixedText hbase n v

end buffers

section encoding

/-- The functions that put a number. -/
inductive PutNumber where
  | dec99
  | dec
  | dec16
  | dec32
  | hex_
  | hex
  | hex16
  | hex32
  deriving DecidableEq

namespace PutNumber

def run : PutNumber → UInt8 → UInt8 → ℕ → Option (List PutsCall)
  | dec99 => lcdPutDec99
  | dec => lcdPutDec
  | dec16 => lcdPutDec16
  | dec32 => lcdPutDec32
  | hex_ => lcdPutHex_
  | hex => lcdPutHex
  | hex16 => lcdPutHex16
  | hex32 => lcdPutHex32

/-- The bits of the argument. -/
def bits : PutNumber → ℕ
  | dec16 | hex16 => 16
  | dec32 | hex32 => 32
  | _ => 8

def base : PutNumber → ℕ
  | dec99 | dec | dec16 | dec32 => 10
  | _ => 16

def digits : PutNumber → ℕ
  | dec99 | hex_ | hex => 2
  | dec => 3
  | dec16 => 5
  | dec32 => 10
  | hex16 => 4
  | hex32 => 8

/-- The number that is shown. -/
def value : PutNumber → ℕ → ℕ
  | dec99, v => v % 100
  | _, v => v

end PutNumber

variable {x y : UInt8} {v size n : ℕ}

theorem putDigits_eq (h : n ≤ size) : ∃ call : PutsCall, putDigits size x y (fixedDigits 10 n v) = some ([] ++ [call]) ∧
    storeChars 0 (fixedText 10 n v) (List.replicate size 0) = some call.memory := by
  have hlen : (fixedText 10 n v).length = n := (List.length_map _).trans (fixedDigits_length 10 n v)
  have hchars : (fixedDigits 10 n v).map (fun c => 0x30 + UInt8.ofNat c) = fixedText 10 n v :=
    List.map_congr_left fun d hd => decimalChar_eq (fixedDigits_lt (by decide) n v d hd)
  have hstore := storeChars_initial (hlen.le.trans h)
  refine ⟨⟨x, y, _⟩, ?_, hstore⟩
  unfold putDigits
  rw [hchars, hstore]
  rfl

theorem putNibbles_eq {i : ℕ} (h : i + 1 ≤ size) : ∃ call : PutsCall, putNibbles size i x y v = some ([] ++ [call]) ∧
    storeChars 0 (fixedText 16 (i + 1) v) (List.replicate size 0) = some call.memory := by
  have hlen : (fixedText 16 (i + 1) v).length = i + 1 := (List.length_map _).trans (fixedDigits_length 16 (i + 1) v)
  have hstore := storeChars_initial (hlen.le.trans h)
  refine ⟨⟨x, y, _⟩, ?_, hstore⟩
  unfold putNibbles
  rw [hexLoop_eq, hstore]
  rfl

theorem putPrefixed_eq {i : ℕ} (h : i + 1 ≤ size) : ∃ calls, ∃ call : PutsCall,
    putPrefixed size i x y v = some (calls ++ [call]) ∧
    storeChars 0 (fixedText 16 (i + 1) v) (List.replicate size 0) = some call.memory := by
  obtain ⟨call, hcalls, hmem⟩ := @putNibbles_eq (x + 2) y v size i h
  refine ⟨[⟨x, y, [0x30, 0x78, 0]⟩], call, ?_, hmem⟩
  unfold putPrefixed
  rw [hcalls]
  rfl

/-- A number is passed as a string of its digits, except by the two functions whose array has no room for the zero. -/
theorem putNumber_passes_iff (f : PutNumber) (x y : UInt8) {v : ℕ} (hv : v < 2 ^ f.bits) :
    PassesNumber f.base f.digits (f.value v) (f.run x y v) ↔ f ≠ .hex16 ∧ f ≠ .hex32 := by
  cases f with
  | dec99 =>
    obtain ⟨call, hcalls, hmem⟩ := @putDigits_eq x y v 3 2 (by decide)
    have hrun : PutNumber.run .dec99 x y v = some ([] ++ [call]) := hcalls
    rw [hrun]
    exact (passesNumber_iff (by decide) (by decide) (by decide) hmem rfl).trans (by decide)
  | dec =>
    have hdigits : fixedDigits 10 3 v = [v / 100 % 10, v / 10 % 10, v % 10] := by
      simp [fixedDigits, Nat.div_div_eq_div_mul]
    obtain ⟨call, hcalls, hmem⟩ := @putDigits_eq x y v 4 3 (by decide)
    rw [hdigits] at hcalls
    have hrun : PutNumber.run .dec x y v = some ([] ++ [call]) := hcalls
    have hlt : v % 10 ^ 3 = v := Nat.mod_eq_of_lt (hv.trans (by decide))
    rw [hrun]
    exact (passesNumber_iff (by decide) (by decide) (by decide) hmem hlt).trans (by decide)
  | dec16 =>
    have hdigits : fixedDigits 10 5 v = [v / 10000 % 10, v / 1000 % 10, v / 100 % 10, v / 10 % 10, v % 10] := by
      simp [fixedDigits, Nat.div_div_eq_div_mul]
    obtain ⟨call, hcalls, hmem⟩ := @putDigits_eq x y v 6 5 (by decide)
    rw [hdigits] at hcalls
    have hrun : PutNumber.run .dec16 x y v = some ([] ++ [call]) := hcalls
    have hlt : v % 10 ^ 5 = v := Nat.mod_eq_of_lt (hv.trans (by decide))
    rw [hrun]
    exact (passesNumber_iff (by decide) (by decide) (by decide) hmem hlt).trans (by decide)
  | dec32 =>
    have hdigits : fixedDigits 10 10 v = [v / 1000000000 % 10, v / 100000000 % 10, v / 10000000 % 10, v / 1000000 % 10,
        v / 100000 % 10, v / 10000 % 10, v / 1000 % 10, v / 100 % 10, v / 10 % 10, v % 10] := by
      simp [fixedDigits, Nat.div_div_eq_div_mul]
    obtain ⟨call, hcalls, hmem⟩ := @putDigits_eq x y v 11 10 (by decide)
    rw [hdigits] at hcalls
    have hrun : PutNumber.run .dec32 x y v = some ([] ++ [call]) := hcalls
    have hlt : v % 10 ^ 10 = v := Nat.mod_eq_of_lt (hv.trans (by decide))
    rw [hrun]
    exact (passesNumber_iff (by decide) (by decide) (by decide) hmem hlt).trans (by decide)
  | hex_ =>
    obtain ⟨call, hcalls, hmem⟩ := @putNibbles_eq x y v 3 1 (by decide)
    have hrun : PutNumber.run .hex_ x y v = some ([] ++ [call]) := hcalls
    have hlt : v % 16 ^ 2 = v := Nat.mod_eq_of_lt hv
    rw [hrun]
    exact (passesNumber_iff (by decide) (by decide) (by decide) hmem hlt).trans (by decide)
  | hex =>
    obtain ⟨calls, call, hcalls, hmem⟩ := @putPrefixed_eq x y v 3 1 (by decide)
    have hrun : PutNumber.run .hex x y v = some (calls ++ [call]) := hcalls
    have hlt : v % 16 ^ 2 = v := Nat.mod_eq_of_lt hv
    rw [hrun]
    exact (passesNumber_iff (by decide) (by decide) (by decide) hmem hlt).trans (by decide)
  | hex16 =>
    obtain ⟨calls, call, hcalls, hmem⟩ := @putPrefixed_eq x y v 4 3 (by decide)
    have hrun : PutNumber.run .hex16 x y v = some (calls ++ [call]) := hcalls
    have hlt : v % 16 ^ 4 = v := Nat.mod_eq_of_lt hv
    rw [hrun]
    exact (passesNumber_iff (by decide) (by decide) (by decide) hmem hlt).trans (by decide)
  | hex32 =>
    obtain ⟨calls, call, hcalls, hmem⟩ := @putPrefixed_eq x y v 8 7 (by decide)
    have hrun : PutNumber.run .hex32 x y v = some (calls ++ [call]) := hcalls
    have hlt : v % 16 ^ 8 = v := Nat.mod_eq_of_lt hv
    rw [hrun]
    exact (passesNumber_iff (by decide) (by decide) (by decide) hmem hlt).trans (by decide)

theorem putNumber_passes_iff_seven : PassesNumber 10 5 1788 (PutNumber.dec16.run 1 1 1788) :=
  (putNumber_passes_iff .dec16 1 1 (by decide)).mpr (by decide)

/-- The four digits of `0xBEEF` fill the array. -/
theorem lcdPutHex16_unterminated : ¬ PassesNumber 16 4 0xBEEF (lcdPutHex16 1 1 0xBEEF) := by
  rintro ⟨init, call, hcalls, h0, -⟩
  have hrun : lcdPutHex16 1 1 0xBEEF =
      some ([⟨1, 1, [0x30, 0x78, 0]⟩] ++ [⟨3, 1, [0x42, 0x45, 0x45, 0x46]⟩]) := rfl
  rw [hrun] at hcalls
  have hcall := (List.cons.inj (List.append_inj_right' (Option.some.inj hcalls) rfl)).1
  rw [← hcall] at h0
  exact absurd h0 (by decide)

end encoding

end Lpc1788Libraries.TextLcd

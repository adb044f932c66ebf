import Mathlib.Order.Nat
import Mathlib.Tactic.Common

namespace Lpc1788Libraries.Monitor

section output

/-- With `_CR_CRLF`. -/
def xputc (c : UInt8) : List UInt8 := if c = 0x0a then [0x0d, c] else [c]

def xputs (str : List UInt8) : List UInt8 := str.flatMap xputc

/-- An argument of `xprintf`; `int` and `long` have the same size. -/
inductive Arg
  | word (v : UInt32)
  | string (str : List UInt8)

/-- A `%` sequence: its flags, the minimum width, the type, which is `0` at the end of the format, and the
format behind it. -/
structure Directive where
  f : UInt32
  w : UInt32
  c : UInt8
  fmt : List UInt8

def takeWidth : UInt32 → List UInt8 → UInt32 × List UInt8
  | w, [] => (w, [])
  | w, c :: fmt => if 0x30 ≤ c ∧ c ≤ 0x39 then takeWidth (w * 10 + c.toUInt32 - 0x30) fmt else (w, c :: fmt)

def directive (fmt : List UInt8) : Directive :=
  let (f, fmt) : UInt32 × List UInt8 :=
    if fmt.headD 0 = 0x30 then (1, fmt.tail) else if fmt.headD 0 = 0x2d then (2, fmt.tail) else (0, fmt)
  let (w, fmt) := takeWidth 0 fmt
  let (f, fmt) := if fmt.headD 0 = 0x6c ∨ fmt.headD 0 = 0x4c then (f ||| 4, fmt.tail) else (f, fmt)
  ⟨f, w, fmt.headD 0, fmt.tail⟩

/-- The size of the buffer `s`. -/
def sizeofS : ℕ := 16

/-- `s[i++] = c`. It has no result when `i` is not inside of the buffer. -/
def push (s : List UInt8) (c : UInt8) : Option (List UInt8) := if s.length < sizeofS then some (s ++ [c]) else none

/-- The loop over the digits, the lowest one first, which makes no more rounds than there are places. -/
def digitLoop (c : UInt8) (r : UInt32) : ℕ → UInt32 → List UInt8 → Option (List UInt8)
  | 0, _, _ => none
  | n + 1, v, s => do
    let d := (v % r).toUInt8
    let v := v / r
    let d := if d > 9 then d + (if c = 0x78 then 0x27 else 0x07) else d
    let s ← push s (d + 0x30)
    if v ≠ 0 ∧ s.length < sizeofS then digitLoop c r n v s else some s

/-- A text in a field. The first loop leaves `j` one behind the place where it stopped. -/
def field (d : Directive) (fill : UInt8) (length : ℕ) (text : List UInt8) : List UInt8 :=
  if d.f &&& 2 = 0 then
    let j := (max length d.w.toNat + 1) % 0x100000000
    List.replicate (d.w.toNat - length) fill ++ (text ++ List.replicate (d.w.toNat - j) 0x20)
  else text ++ List.replicate (d.w.toNat - length) 0x20

/-- The part behind the `switch`, for the type `t` in upper case. -/
def putNumeral (d : Directive) (t : UInt8) (r v : UInt32) : Option (List UInt8) := do
  let negative := t = 0x44 ∧ v &&& 0x80000000 ≠ 0
  let v := if negative then 0 - v else v
  let s ← digitLoop d.c r sizeofS v []
  let s ← if negative then push s 0x2d else some s
  some (field d (if d.f &&& 1 = 0 then 0x20 else 0x30) s.length (xputs s.reverse))

def putWord (put : UInt32 → Option (List UInt8)) : List Arg → Option (List UInt8 × List Arg)
  | .word v :: arp => (put v).map fun out => (out, arp)
  | _ => none

def putString (d : Directive) : List Arg → Option (List UInt8 × List Arg)
  | .string p :: arp => some (field d 0x20 p.length (xputs p), arp)
  | _ => none

/-- What a `%` sequence puts, and the arguments left; it has no result when its argument is missing. -/
def putDirective (d : Directive) (arp : List Arg) : Option (List UInt8 × List Arg) :=
  let t := if d.c ≥ 0x61 then d.c - 0x20 else d.c
  if t = 0x53 then putString d arp
  else if t = 0x43 then putWord (fun v => some (xputc v.toUInt8)) arp
  else if t = 0x42 then putWord (putNumeral d t 2) arp
  else if t = 0x4f then putWord (putNumeral d t 8) arp
  else if t = 0x44 ∨ t = 0x55 then putWord (putNumeral d t 10) arp
  else if t = 0x58 then putWord (putNumeral d t 16) arp
  else some (xputc d.c, arp)

theorem takeWidth_length (w : UInt32) (fmt : List UInt8) : (takeWidth w fmt).2.length ≤ fmt.length := by
  induction fmt generalizing w with
  | nil => exact le_rfl
  | cons c fmt ih =>
    rw [takeWidth]
    split_ifs
    · exact Nat.le_trans (ih _) (Nat.le_succ _)
    · exact le_rfl

theorem directive_length (fmt : List UInt8) : (directive fmt).fmt.length ≤ fmt.length := by
  have htail (l : List UInt8) : l.tail.length ≤ l.length := by
    rw [List.length_tail]
    exact Nat.sub_le _ _
  unfold directive
  dsimp only
  apply Nat.le_trans (htail _)
  have hlong (f : UInt32) (l : List UInt8) :
      (if l.headD 0 = 0x6c ∨ l.headD 0 = 0x4c then (f ||| 4, l.tail) else (f, l)).2.length ≤ l.length := by
    split_ifs
    · exact htail l
    · exact le_rfl
  apply Nat.le_trans (hlong _ _)
  apply Nat.le_trans (takeWidth_length _ _)
  split_ifs
  · exact htail fmt
  · exact htail fmt
  · exact le_rfl

/-- The characters that the format and its arguments put. -/
def xvprintf (fmt : List UInt8) (arp : List Arg) : Option (List UInt8) :=
  match fmt with
  | [] => some []
  | c :: fmt =>
    if c ≠ 0x25 then (xvprintf fmt arp).map (xputc c ++ ·)
    else
      let d := directive fmt
      if d.c = 0 then some []
      else (putDirective d arp).bind fun (out, arp) => (xvprintf d.fmt arp).map (out ++ ·)
termination_by fmt.length
decreasing_by
  · exact Nat.lt_succ_self _
  · exact Nat.lt_succ_of_le (directive_length _)

/-- What is in the memory behind `buff` afterwards. -/
def xsprintf (fmt : List UInt8) (arp : List Arg) : Option (List UInt8) := (xvprintf fmt arp).map (· ++ [0])

end output

section input

/-- The result of `xatoi` with `*res` and the text behind `*str`. -/
structure Atoi where
  ok : Bool
  res : UInt32
  str : List UInt8

def skipSpaces : List UInt8 → List UInt8
  | [] => []
  | c :: str => if c = 0x20 then skipSpaces str else c :: str

/-- The digit that the loop makes of a character. -/
def atoiDigit (r c : UInt8) : Option UInt8 :=
  let c := if c ≥ 0x61 then c - 0x20 else c
  let c := c - 0x30
  let letter := if c ≥ 17 then (if c - 7 ≤ 9 then none else some (c - 7)) else some c
  letter.bind fun c => if c ≥ r then none else some c

def atoiLoop (r : UInt8) : UInt32 → List UInt8 → Bool × UInt32 × List UInt8
  | val, [] => (true, val, [])
  | val, c :: str =>
    if c > 0x20 then
      match atoiDigit r c with
      | none => (false, val, c :: str)
      | some d => atoiLoop r (val * r.toUInt32 + d.toUInt32) str
    else (true, val, c :: str)

/-- The digits of the radix `r`, and the sign. -/
def atoiNumber (s : Bool) (r : UInt8) (str : List UInt8) : Atoi :=
  let (ok, val, str) := atoiLoop r 0 str
  if ok then ⟨true, if s then 0 - val else val, str⟩ else ⟨false, 0, str⟩

/-- The part behind the sign. -/
def atoiUnsigned (s : Bool) (str : List UInt8) : Atoi :=
  let c := str.headD 0
  if c = 0x30 then
    let str := str.tail
    let c := str.headD 0
    if c = 0x78 then atoiNumber s 16 str.tail
    else if c = 0x62 then atoiNumber s 2 str.tail
    else if c ≤ 0x20 then ⟨true, 0, str⟩
    else if c < 0x30 ∨ c > 0x39 then ⟨false, 0, str⟩
    else atoiNumber s 8 str
  else if c < 0x30 ∨ c > 0x39 then ⟨false, 0, str⟩
  else atoiNumber s 10 str

/-- The list is the memory from `*str` on, where a missing character reads as the zero that ends the string. -/
def xatoi (str : List UInt8) : Atoi :=
  let str := skipSpaces str
  if str.headD 0 = 0x2d then atoiUnsigned true str.tail else atoiUnsigned false str

end input

end Lpc1788Libraries.Monitor

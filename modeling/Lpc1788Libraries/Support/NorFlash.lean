import Mathlib.Data.Nat.Basic
import Mathlib.Tactic.Common

namespace Lpc1788Libraries.Support.NorFlash

/-- The bytes of a flash memory, by page and by offset in the page. -/
def Pages := ℕ → ℕ → UInt8

def erased : Pages := fun _ _ => 0xff

namespace Pages

variable (f : Pages)

/-- Erasing sets every bit of a page. -/
def erase (page : ℕ) : Pages := fun q i => if q = page then 0xff else f q i

/-- The byte that a program operation applies at offset `i`, all ones outside of the data. -/
def mask (offset : ℕ) (data : List UInt8) (i : ℕ) : UInt8 :=
  if i < offset then 0xff else data.getD (i - offset) 0xff

/-- Programming can only clear bits. -/
def program (page offset : ℕ) (data : List UInt8) : Pages :=
  fun q i => if q = page then f q i &&& mask offset data i else f q i

def read (page offset n : ℕ) : List UInt8 := (List.range n).map fun k => f page (offset + k)

end Pages

open Pages

variable {f g : Pages} {page q offset i n m : ℕ} {data : List UInt8}

@[simp] theorem and_ff (b : UInt8) : b &&& 0xff = b := by
  apply UInt8.toBitVec_inj.mp
  exact BitVec.and_allOnes

@[simp] theorem ff_and (b : UInt8) : 0xff &&& b = b := by
  apply UInt8.toBitVec_inj.mp
  exact BitVec.allOnes_and

@[simp] theorem erase_same : f.erase page page i = 0xff := by simp [erase]

theorem erase_other (h : q ≠ page) : f.erase page q i = f q i := by simp [erase, h]

theorem program_other (h : q ≠ page) : f.program page offset data q i = f q i := by
  simp [program, h]

theorem program_same : f.program page offset data page i = f page i &&& mask offset data i := by
  simp [program]

theorem mask_outside (h : i < offset ∨ offset + data.length ≤ i) : mask offset data i = 0xff := by
  rcases h with h | h
  · simp [mask, h]
  · have : data[i - offset]? = none := by simp; omega
    simp [mask, show ¬ i < offset by omega, List.getD_eq_getElem?_getD, this]

theorem mask_inside {k : ℕ} (h : k < data.length) : mask offset data (offset + k) = data[k] := by
  simp [mask, h, show ¬ offset + k < offset by omega]

theorem program_outside (h : i < offset ∨ offset + data.length ≤ i) :
    f.program page offset data q i = f q i := by
  by_cases hq : q = page
  · subst hq
    rw [program_same, mask_outside h, and_ff]
  · exact program_other hq

@[simp] theorem length_read : (f.read page offset n).length = n := by simp [Pages.read]

theorem getElem?_read {k : ℕ} (h : k < n) : (f.read page offset n)[k]? = some (f page (offset + k)) := by
  simp [Pages.read, h]

theorem read_congr (h : ∀ k < n, f page (offset + k) = g q (m + k)) :
    f.read page offset n = g.read q m n :=
  List.map_congr_left fun k hk => h k (List.mem_range.mp hk)

theorem read_program_outside (h : m + n ≤ offset ∨ offset + data.length ≤ m) :
    (f.program page offset data).read q m n = f.read q m n :=
  read_congr fun k _ => program_outside (by omega)

theorem read_program (h : ∀ k < data.length, f page (offset + k) = 0xff) :
    (f.program page offset data).read page offset data.length = data := by
  apply List.ext_getElem (by simp)
  intro k h1 h2
  simp [Pages.read, program_same, h k h2, mask_inside h2]

end Lpc1788Libraries.Support.NorFlash

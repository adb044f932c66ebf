import Lpc1788Libraries.Support.ByteBits
import Lpc1788Libraries.TextLcd.Hd44780

namespace Lpc1788Libraries.TextLcd

open Lpc1788Libraries.Support ByteBits

section driver

def rsCmdBit : UInt8 := 0x00

def rsDataBit : UInt8 := 0x01

def rwWriteBit : UInt8 := 0x00

def eEnableBit : UInt8 := 0x04

def blOnBit : UInt8 := 0x08

/-- The bytes that the port expander puts on its lines, one after the other. -/
def lcdCmd4bit (cmd : UInt8) : List UInt8 :=
  let cmd := cmd &&& ~~~eEnableBit
  let up := cmd ||| eEnableBit
  [cmd, up, up &&& ~~~eEnableBit]

def lcdCmd (cmd : UInt8) : List UInt8 :=
  lcdCmd4bit ((cmd &&& 0xf0) ||| blOnBit ||| rwWriteBit ||| rsCmdBit) ++
    lcdCmd4bit (((cmd &&& 0x0f) <<< 4) ||| blOnBit ||| rwWriteBit ||| rsCmdBit)

def lcdData (data : UInt8) : List UInt8 :=
  lcdCmd4bit ((data &&& 0xf0) ||| blOnBit ||| rwWriteBit ||| rsDataBit) ++
    lcdCmd4bit (((data &&& 0x0f) <<< 4) ||| blOnBit ||| rwWriteBit ||| rsDataBit)

def Transfer.bytes : Transfer → List UInt8
  | .cmd c => lcdCmd c
  | .data c => lcdData c

/-- What `lcd_HD44780_Init` sends before the first command. -/
def lcdSync : List UInt8 := lcdCmd4bit 0x30 ++ lcdCmd4bit 0x30 ++ lcdCmd4bit 0x30 ++ lcdCmd4bit 0x20

end driver

section receiver

/-- The lines of the display that the port drives: register select, read or write, enable and DB7 to DB4. -/
structure Lines where
  rs : Bool
  rw : Bool
  e : Bool
  nibble : ℕ
  deriving DecidableEq

def lines (port : UInt8) : Lines :=
  ⟨port.toNat.testBit 0, port.toNat.testBit 1, port.toNat.testBit 2, port.toNat / 16⟩

/-- The display's end of the lines: the instruction and the data register, the width of the interface, and whether a
register has got its upper half only. -/
structure Receiver where
  lines : Lines
  ir : ℕ
  dr : ℕ
  wide : Bool
  half : Bool
  received : List Transfer

namespace Receiver

variable (r : Receiver)

/-- A byte is complete. The function set instruction `0x30` widens the interface to eight lines, `0x20` narrows it to four. -/
def accept (b : ℕ) : Receiver :=
  if r.lines.rs then { r with dr := b, half := false, received := r.received ++ [.data (UInt8.ofNat b)] }
  else { r with
    ir := b
    half := false
    wide := if b / 16 = 3 then true else if b / 16 = 2 then false else r.wide
    received := r.received ++ [.cmd (UInt8.ofNat b)] }

/-- What a pulse of the enable line takes in. Nothing drives DB3 to DB0. -/
def strobe (floating : ℕ) : Receiver :=
  if r.wide then r.accept (16 * r.lines.nibble + floating)
  else if r.half then r.accept ((if r.lines.rs then r.dr else r.ir) / 16 * 16 + r.lines.nibble)
  else if r.lines.rs then { r with dr := 16 * r.lines.nibble + r.dr % 16, half := true }
  else { r with ir := 16 * r.lines.nibble + r.ir % 16, half := true }

end Receiver

/-- The lines may change so: register select and direction only while the enable line is low, the data not with its fall. -/
def Lines.Allowed (l l' : Lines) : Prop :=
  (l.e = false ∧ l'.e = false) ∨ (l'.rs = l.rs ∧ l'.rw = l.rw ∧ (l'.e = true ∨ l'.nibble = l.nibble))

/-- The port gets a byte. What a change that is not allowed, or the end of a read, leaves in the display is open. -/
inductive Next (r : Receiver) (port : UInt8) : Receiver → Prop
  | held (h : r.lines.Allowed (lines port)) (he : r.lines.e = false ∨ (lines port).e = true) :
    Next r port { r with lines := lines port }
  | strobe (h : r.lines.Allowed (lines port)) (he : r.lines.e = true) (he' : (lines port).e = false)
    (hrw : r.lines.rw = false) (floating : ℕ) (hf : floating < 16) : Next r port { r.strobe floating with lines := lines port }
  | spoilt {r' : Receiver} (h : r.lines.Allowed (lines port) → r.lines.e = true ∧ (lines port).e = false ∧ r.lines.rw = true)
    (hl : r'.lines = lines port) : Next r port r'

inductive Nexts : Receiver → List UInt8 → Receiver → Prop
  | nil {r : Receiver} : Nexts r [] r
  | cons {r t u : Receiver} {port : UInt8} {ports : List UInt8} (h : Next r port t) (hs : Nexts t ports u) :
    Nexts r (port :: ports) u

end receiver

variable {r t u : Receiver} {port cmd : UInt8} {xs ys : List UInt8} {tr : Transfer} {trs : List Transfer}

section levels

theorem lines_down : ∀ cmd : UInt8, lines (cmd &&& ~~~eEnableBit) = { lines cmd with e := false } :=
  forall_byte (by decide +kernel)

theorem lines_up : ∀ cmd : UInt8, lines (cmd ||| eEnableBit) = { lines cmd with e := true } :=
  forall_byte (by decide +kernel)

theorem lines_cmd : ∀ cmd : UInt8,
    lines ((cmd &&& 0xf0) ||| blOnBit ||| rwWriteBit ||| rsCmdBit) = ⟨false, false, false, cmd.toNat / 16⟩ ∧
      lines (((cmd &&& 0x0f) <<< 4) ||| blOnBit ||| rwWriteBit ||| rsCmdBit) = ⟨false, false, false, cmd.toNat % 16⟩ :=
  forall_byte (by decide +kernel)

theorem lines_data : ∀ data : UInt8,
    lines ((data &&& 0xf0) ||| blOnBit ||| rwWriteBit ||| rsDataBit) = ⟨true, false, false, data.toNat / 16⟩ ∧
      lines (((data &&& 0x0f) <<< 4) ||| blOnBit ||| rwWriteBit ||| rsDataBit) = ⟨true, false, false, data.toNat % 16⟩ :=
  forall_byte (by decide +kernel)

end levels

section next

theorem next_exists (r : Receiver) (port : UInt8) : ∃ t, Next r port t := by
  by_cases ha : r.lines.Allowed (lines port)
  · cases he : r.lines.e with
    | false => exact ⟨_, .held ha (.inl he)⟩
    | true =>
      cases he' : (lines port).e with
      | true => exact ⟨_, .held ha (.inr he')⟩
      | false =>
        cases hrw : r.lines.rw with
        | false => exact ⟨_, .strobe ha he he' hrw 0 (Nat.zero_lt_succ 15)⟩
        | true => exact ⟨{ r with lines := lines port }, .spoilt (fun _ => ⟨he, he', hrw⟩) rfl⟩
  · exact ⟨{ r with lines := lines port }, .spoilt (fun h => absurd h ha) rfl⟩

theorem nexts_exists (r : Receiver) (xs : List UInt8) : ∃ t, Nexts r xs t := by
  induction xs generalizing r with
  | nil => exact ⟨r, .nil⟩
  | cons port xs ih =>
    obtain ⟨t, ht⟩ := next_exists r port
    obtain ⟨u, hu⟩ := ih t
    exact ⟨u, .cons ht hu⟩

theorem nexts_append (h : Nexts r (xs ++ ys) u) : ∃ t, Nexts r xs t ∧ Nexts t ys u := by
  induction xs generalizing r with
  | nil => exact ⟨r, .nil, h⟩
  | cons port xs ih =>
    cases h with
    | cons hn hs =>
      obtain ⟨t, ht, hu⟩ := ih hs
      exact ⟨t, .cons hn ht, hu⟩

theorem next_lines (h : Next r port t) : t.lines = lines port := by
  cases h with
  | held h he => rfl
  | strobe h he he' hrw floating hf => rfl
  | spoilt h hl => exact hl

theorem next_held (ha : r.lines.Allowed (lines port)) (he : r.lines.e = false ∨ (lines port).e = true)
    (h : Next r port t) : t = { r with lines := lines port } := by
  cases h with
  | held h he => rfl
  | strobe h hr hp hrw floating hf => simp [hr, hp] at he
  | spoilt h hl =>
    obtain ⟨hr, hp, -⟩ := h ha
    simp [hr, hp] at he

theorem next_falls (ha : r.lines.Allowed (lines port)) (he : r.lines.e = true) (he' : (lines port).e = false)
    (hrw : r.lines.rw = false) (h : Next r port t) :
    ∃ floating < 16, t = { r.strobe floating with lines := lines port } := by
  cases h with
  | held h hno => simp [he, he'] at hno
  | strobe h hr hp hrw floating hf => exact ⟨floating, hf, rfl⟩
  | spoilt h hl =>
    obtain ⟨-, -, hread⟩ := h ha
    simp [hrw] at hread

theorem pulse_takes (hrw : (lines cmd).rw = false) (h : Nexts r (lcdCmd4bit cmd) u) :
    ∃ t floating, floating < 16 ∧ t.lines = { lines cmd with e := true } ∧
      (r.lines.e = false → t = { r with lines := { lines cmd with e := true } }) ∧
      u = { t.strobe floating with lines := { lines cmd with e := false } } := by
  cases h with
  | @cons _ m _ _ _ h₁ h =>
    cases h with
    | @cons _ t _ _ _ h₂ h =>
      cases h with
      | cons h₃ h =>
        cases h
        have hm : m.lines = { lines cmd with e := false } := by rw [next_lines h₁, lines_down]
        have ht : t = { m with lines := { lines cmd with e := true } } := by
          have hup := next_held (.inr (by rw [hm, lines_up, lines_down]; exact ⟨rfl, rfl, .inl rfl⟩)) (.inl (by rw [hm])) h₂
          rwa [lines_up, lines_down] at hup
        have htl : t.lines = { lines cmd with e := true } := by rw [ht]
        obtain ⟨floating, hf, hu⟩ := next_falls
          (.inr (by rw [htl, lines_down, lines_up, lines_down]; exact ⟨rfl, rfl, .inr rfl⟩)) (by rw [htl])
          (by rw [lines_down]) (by rw [htl]; exact hrw) h₃
        rw [lines_down, lines_up, lines_down] at hu
        refine ⟨t, floating, hf, htl, ?_, hu⟩
        intro he
        rw [ht, next_held (.inl ⟨he, by rw [lines_down]⟩) (.inl he) h₁]

end next

section synchronising

/-- The interface has four lines, no byte is half complete, and the enable line is low. -/
structure Idle (r : Receiver) : Prop where
  narrow : r.wide = false
  whole : r.half = false
  low : r.lines.e = false

/-- How far the nibbles of the instruction `0x30` have brought the display. -/
def Woken (r : Receiver) : ℕ → Prop
  | 0 => True
  | 1 => r.wide = true ∨ r.half = false ∨ r.ir / 16 = 3
  | 2 => r.wide = true ∨ r.half = true ∧ r.ir / 16 = 3
  | _ => r.wide = true

theorem woken_succ {floating k : ℕ} (hf : floating < 16) (hrs : t.lines.rs = false) (hn : t.lines.nibble = 3)
    (h : Woken t k) : Woken (t.strobe floating) (k + 1) := by
  unfold Receiver.strobe Receiver.accept
  rw [hrs, hn]
  by_cases hwide : t.wide = true
  · have hset : (16 * 3 + floating) / 16 = 3 := by omega
    simp only [hwide, if_true, Bool.false_eq_true, if_false, hset]
    match k with
    | 0 => exact .inl rfl
    | 1 => exact .inl rfl
    | k + 2 => rfl
  · by_cases hhalf : t.half = true
    · simp only [hwide, hhalf, if_true, Bool.false_eq_true, if_false]
      match k, h with
      | 0, _ => exact .inr (.inl rfl)
      | 1, h =>
        have hir : t.ir / 16 = 3 := (h.resolve_left hwide).resolve_left (by simp [hhalf])
        simp only [hir]
        exact .inl rfl
      | 2, h =>
        have hir : t.ir / 16 = 3 := (h.resolve_left hwide).2
        simp only [hir]
        rfl
      | k + 3, h => exact absurd h hwide
    · simp only [hwide, hhalf, Bool.false_eq_true, if_false]
      have hir : (16 * 3 + t.ir % 16) / 16 = 3 := by omega
      match k, h with
      | 0, _ => exact .inr (.inr hir)
      | 1, _ => exact .inr ⟨rfl, hir⟩
      | 2, h => exact absurd (h.resolve_left hwide).1 hhalf
      | k + 3, h => exact absurd h hwide

theorem woken_pulse {k : ℕ} (h : Nexts r (lcdCmd4bit 0x30) u) (hk : r.lines.e = false ∧ Woken r k ∨ k = 0) :
    u.lines.e = false ∧ Woken u (k + 1) := by
  have hlines : lines 0x30 = ⟨false, false, false, 3⟩ := by decide
  obtain ⟨t, floating, hf, htl, hlow, rfl⟩ := pulse_takes (by rw [hlines]) h
  refine ⟨rfl, ?_⟩
  have ht : Woken t k := by
    rcases hk with ⟨he, hw⟩ | rfl
    · rw [hlow he]
      match k with
      | 0 => trivial
      | 1 => exact hw
      | 2 => exact hw
      | k + 3 => exact hw
    · trivial
  have hstrobe := woken_succ hf (by rw [htl, hlines]) (by rw [htl, hlines]) ht
  match k with
  | 0 => exact hstrobe
  | 1 => exact hstrobe
  | k + 2 => exact hstrobe

theorem sync_idle (h : Nexts r lcdSync u) : Idle u := by
  obtain ⟨r₃, h, h₄⟩ := nexts_append h
  obtain ⟨r₂, h, h₃⟩ := nexts_append h
  obtain ⟨r₁, h₁, h₂⟩ := nexts_append h
  have hwide := (woken_pulse h₃ (.inl (woken_pulse h₂ (.inl (woken_pulse h₁ (.inr rfl)))))).2
  have hlow := (woken_pulse h₃ (.inl (woken_pulse h₂ (.inl (woken_pulse h₁ (.inr rfl)))))).1
  have hlines : lines 0x20 = ⟨false, false, false, 2⟩ := by decide
  obtain ⟨t, floating, hf, htl, ht, rfl⟩ := pulse_takes (by rw [hlines]) h₄
  have htw : t.wide = true := by
    rw [ht hlow]
    exact hwide
  have hset : (16 * 2 + floating) / 16 = 2 := by omega
  refine ⟨?_, ?_, rfl⟩
  · simp [Receiver.strobe, Receiver.accept, htw, htl, hlines, hset]
  · simp [Receiver.strobe, Receiver.accept, htw, htl, hlines]

end synchronising

section bytes

/-- The transfer leaves the width of the interface as it is. -/
def Transfer.KeepsWidth : Transfer → Prop
  | .cmd c => c.toNat / 16 ≠ 3
  | .data _ => True

theorem bytes_received (hr : Idle r) (hk : tr.KeepsWidth) (h : Nexts r tr.bytes u) :
    Idle u ∧ u.received = r.received ++ [tr] := by
  cases tr with
  | cmd c =>
    obtain ⟨m, h₁, h₂⟩ := nexts_append h
    obtain ⟨hup, hlow⟩ := lines_cmd c
    obtain ⟨t, f, -, htl, ht, rfl⟩ := pulse_takes (by rw [hup]) h₁
    obtain rfl := ht hr.low
    obtain ⟨t, f', -, htl', ht', rfl⟩ := pulse_takes (by rw [hlow]) h₂
    obtain rfl := ht' rfl
    have hc : (16 * (c.toNat / 16) + r.ir % 16) / 16 * 16 + c.toNat % 16 = c.toNat := by omega
    have hne : c.toNat / 16 ≠ 3 := hk
    simp only [Receiver.strobe, Receiver.accept, hup, hlow, hr.narrow, hr.whole, Bool.false_eq_true, if_false, if_true, hc,
      hne, ite_self, UInt8.ofNat_toNat]
    exact ⟨⟨rfl, rfl, rfl⟩, trivial⟩
  | data c =>
    obtain ⟨m, h₁, h₂⟩ := nexts_append h
    obtain ⟨hup, hlow⟩ := lines_data c
    obtain ⟨t, f, -, htl, ht, rfl⟩ := pulse_takes (by rw [hup]) h₁
    obtain rfl := ht hr.low
    obtain ⟨t, f', -, htl', ht', rfl⟩ := pulse_takes (by rw [hlow]) h₂
    obtain rfl := ht' rfl
    have hc : (16 * (c.toNat / 16) + r.dr % 16) / 16 * 16 + c.toNat % 16 = c.toNat := by omega
    simp only [Receiver.strobe, Receiver.accept, hup, hlow, hr.narrow, hr.whole, Bool.false_eq_true, if_false, if_true, hc,
      UInt8.ofNat_toNat]
    exact ⟨⟨rfl, rfl, rfl⟩, trivial⟩

theorem run_received (hr : Idle r) (hk : ∀ tr ∈ trs, tr.KeepsWidth) (h : Nexts r (trs.flatMap Transfer.bytes) u) :
    Idle u ∧ u.received = r.received ++ trs := by
  induction trs generalizing r with
  | nil =>
    cases h
    exact ⟨hr, (List.append_nil _).symm⟩
  | cons tr trs ih =>
    obtain ⟨t, h₁, h₂⟩ := nexts_append h
    obtain ⟨ht, htr⟩ := bytes_received hr (hk tr List.mem_cons_self) h₁
    obtain ⟨hu, hur⟩ := ih ht (fun x hx => hk x (List.mem_cons_of_mem _ hx)) h₂
    refine ⟨hu, ?_⟩
    rw [hur, htr, List.append_assoc, List.singleton_append]

end bytes

end Lpc1788Libraries.TextLcd

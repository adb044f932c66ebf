import Lpc1788Libraries.Support.MemoryBlock
import Lpc1788Libraries.TextLcd.NibbleBus

namespace Lpc1788Libraries.TextLcd

open Lpc1788Libraries.Support ByteBits

section driver

/-- `HD44780_Options_t`. -/
structure Lcd where
  opts : Hd44780Options
  displayControl : UInt8
  displayFunction : UInt8
  displayMode : UInt8
  deriving DecidableEq

/-- The functions that change a flag of the display control. -/
def setControl (change : UInt8 → UInt8) (lcd : Lcd) : Lcd × List Transfer :=
  ({ lcd with displayControl := change lcd.displayControl }, [.cmd (0x08 ||| change lcd.displayControl)])

def lcdDisplayOn : Lcd → Lcd × List Transfer := setControl (· ||| 0x04)

def lcdDisplayOff : Lcd → Lcd × List Transfer := setControl (· &&& ~~~0x04)

def lcdBlinkOn : Lcd → Lcd × List Transfer := setControl (· ||| 0x01)

def lcdBlinkOff : Lcd → Lcd × List Transfer := setControl (· &&& ~~~0x01)

def lcdCursorOn : Lcd → Lcd × List Transfer := setControl (· ||| 0x02)

def lcdCursorOff : Lcd → Lcd × List Transfer := setControl (· &&& ~~~0x02)

def lcdClear : List Transfer := [.cmd 0x01]

def lcdScrollLeft (count : UInt8) : List Transfer := List.replicate count.toNat (.cmd (0x10 ||| 0x08 ||| 0x00))

def lcdScrollRight (count : UInt8) : List Transfer := List.replicate count.toNat (.cmd (0x10 ||| 0x08 ||| 0x04))

def lcdCreateChar (location : UInt8) (data : Fin 8 → UInt8) : List Transfer :=
  .cmd (0x40 ||| ((location &&& 0x07) <<< (3 : UInt8))) :: (List.ofFn data).map .data

def lcdPutChar (opts : Hd44780Options) (x y c : UInt8) : Option (Hd44780Options × List Transfer) := do
  let (opts, start) ← lcdCursorSet opts x y
  let (opts, sent) ← lcdPutsChar opts c
  return (opts, start ++ sent)

def lcdPutCustom (opts : Hd44780Options) (x y location : UInt8) : Option (Hd44780Options × List Transfer) := do
  let (opts, start) ← lcdCursorSet opts x y
  return (opts, start ++ [.data location])

/-- `lcd_HD44780_Init`, with what it sends behind `lcdSync`. -/
def lcdInit (cols rows : UInt8) : Lcd × List Transfer :=
  let displayFunction : UInt8 := if rows > 1 then 0x00 ||| 0x08 else 0x00
  let lcd : Lcd := ⟨⟨rows, cols, 0, 0⟩, 0x04, displayFunction, 0x02⟩
  let on := lcdDisplayOn lcd
  (on.1, [.cmd (0x20 ||| displayFunction)] ++ on.2 ++ lcdClear ++ [.cmd (0x04 ||| lcd.displayMode)])

inductive LcdCall where
  | clear
  | puts (x y : UInt8) (str : List UInt8)
  | putChar (x y c : UInt8)
  | putCustom (x y location : UInt8)
  | createChar (location : UInt8) (data : Fin 8 → UInt8)
  | scrollLeft (count : UInt8)
  | scrollRight (count : UInt8)
  | displayOn
  | displayOff
  | blinkOn
  | blinkOff
  | cursorOn
  | cursorOff

/-- A call that only places and writes characters. -/
def texts (lcd : Lcd) (r : Option (Hd44780Options × List Transfer)) : Option (Lcd × List Transfer) :=
  r.map fun x => ({ lcd with opts := x.1 }, x.2)

def lcdCall (lcd : Lcd) : LcdCall → Option (Lcd × List Transfer)
  | .clear => some (lcd, lcdClear)
  | .puts x y str => texts lcd (lcdPuts lcd.opts x y str)
  | .putChar x y c => texts lcd (lcdPutChar lcd.opts x y c)
  | .putCustom x y location => texts lcd (lcdPutCustom lcd.opts x y location)
  | .createChar location data => some (lcd, lcdCreateChar location data)
  | .scrollLeft count => some (lcd, lcdScrollLeft count)
  | .scrollRight count => some (lcd, lcdScrollRight count)
  | .displayOn => some (lcdDisplayOn lcd)
  | .displayOff => some (lcdDisplayOff lcd)
  | .blinkOn => some (lcdBlinkOn lcd)
  | .blinkOff => some (lcdBlinkOff lcd)
  | .cursorOn => some (lcdCursorOn lcd)
  | .cursorOff => some (lcdCursorOff lcd)

def lcdCalls (lcd : Lcd) : List LcdCall → Option (Lcd × List Transfer)
  | [] => some (lcd, [])
  | call :: calls => do
    let (lcd, sent) ← lcdCall lcd call
    let (lcd, rest) ← lcdCalls lcd calls
    return (lcd, sent ++ rest)

end driver

section controller

/-- What the instructions of the display work on. The address counter points into the text or into the glyphs. -/
structure Controller where
  ddram : ℕ → UInt8
  cgram : ℕ → UInt8
  ac : ℕ
  toGlyphs : Bool
  increment : Bool
  shifting : Bool
  display : Bool
  cursor : Bool
  blink : Bool
  twoLines : Bool
  shift : ℤ

namespace Controller

/-- The address behind or before another one, with one or two lines of text. -/
def nextAddress (twoLines forward : Bool) (a : ℕ) : ℕ :=
  match twoLines, forward with
  | true, true => if a = 0x27 then 0x40 else if a = 0x67 then 0x00 else (a + 1) % 0x80
  | true, false => if a = 0x40 then 0x27 else if a = 0x00 then 0x67 else (a + 0x7f) % 0x80
  | false, true => if a = 0x4f then 0x00 else (a + 1) % 0x80
  | false, false => if a = 0x00 then 0x4f else (a + 0x7f) % 0x80

def move (s : Controller) (forward : Bool) : ℕ :=
  if s.toGlyphs then (if forward then s.ac + 1 else s.ac + 0x3f) % 0x40 else nextAddress s.twoLines forward s.ac

/-- The instruction is told by its highest bit that is set. -/
def exec (s : Controller) : Transfer → Controller
  | .data d =>
    if s.toGlyphs then { s with cgram := Function.update s.cgram s.ac d, ac := s.move s.increment }
    else { s with
      ddram := Function.update s.ddram s.ac d
      ac := s.move s.increment
      shift := if s.shifting then (if s.increment then s.shift - 1 else s.shift + 1) else s.shift }
  | .cmd c =>
    let n := c.toNat
    if 0x80 ≤ n then { s with ac := n - 0x80, toGlyphs := false }
    else if 0x40 ≤ n then { s with ac := n - 0x40, toGlyphs := true }
    else if 0x20 ≤ n then { s with twoLines := n.testBit 3 }
    else if 0x10 ≤ n then
      if n.testBit 3 then { s with shift := if n.testBit 2 then s.shift + 1 else s.shift - 1 }
      else { s with ac := s.move (n.testBit 2) }
    else if 0x08 ≤ n then { s with display := n.testBit 2, cursor := n.testBit 1, blink := n.testBit 0 }
    else if 0x04 ≤ n then { s with increment := n.testBit 1, shifting := n.testBit 0 }
    else if 0x02 ≤ n then { s with ac := 0, toGlyphs := false, shift := 0 }
    else if 0x01 ≤ n then
      { s with ddram := fun _ => 0x20, ac := 0, toGlyphs := false, increment := true, shift := 0 }
    else s

end Controller

end controller

section panel

/-- What a user of the driver knows of the display beside the text: the flags, the glyphs and how far the text is shifted
to the right. -/
structure Panel where
  display : Bool
  cursor : Bool
  blink : Bool
  glyphs : ℕ → UInt8
  shift : ℤ

namespace Panel

/-- After `lcd_HD44780_Init`. -/
def fresh (glyphs : ℕ → UInt8) : Panel := ⟨true, false, false, glyphs, 0⟩

def after (p : Panel) : LcdCall → Panel
  | .clear => { p with shift := 0 }
  | .createChar location data =>
    { p with glyphs := fun a => if a / 8 = location.toNat % 8 then data ⟨a % 8, Nat.mod_lt a (Nat.succ_pos 7)⟩ else p.glyphs a }
  | .scrollLeft count => { p with shift := p.shift - count.toNat }
  | .scrollRight count => { p with shift := p.shift + count.toNat }
  | .displayOn => { p with display := true }
  | .displayOff => { p with display := false }
  | .blinkOn => { p with blink := true }
  | .blinkOff => { p with blink := false }
  | .cursorOn => { p with cursor := true }
  | .cursorOff => { p with cursor := false }
  | _ => p

end Panel

/-- The flags as the display control instruction has them. -/
def controlOf (display cursor blink : Bool) : UInt8 :=
  (if display then 0x04 else 0x00) ||| (if cursor then 0x02 else 0x00) ||| (if blink then 0x01 else 0x00)

/-- The display is as the driver and its user know it. -/
structure Coherent (lcd : Lcd) (p : Panel) (s : Controller) : Prop where
  control : lcd.displayControl = controlOf p.display p.cursor p.blink
  display : s.display = p.display
  cursor : s.cursor = p.cursor
  blink : s.blink = p.blink
  cgram : s.cgram = p.glyphs
  shift : s.shift = p.shift
  increment : s.increment = true
  shifting : s.shifting = false
  twoLines : s.twoLines = decide (1 < lcd.opts.rows.toNat)

end panel

variable {lcd lcd' : Lcd} {opts opts' : Hd44780Options} {s : Controller} {p : Panel} {trs : List Transfer} {x y c : UInt8}
  {str : List UInt8} {call : LcdCall}

section texts

/-- Characters, and cursor addresses in the text. -/
def IsText (trs : List Transfer) : Prop := ∀ c, .cmd c ∈ trs → 0x80 ≤ c.toNat

theorem isText_append {trs' : List Transfer} (h : IsText trs) (h' : IsText trs') : IsText (trs ++ trs') := by
  intro c hc
  rcases List.mem_append.mp hc with hc | hc
  · exact h c hc
  · exact h' c hc

theorem isText_data : IsText [.data c] := by
  intro d hd
  simp at hd

theorem cursor_ge : ∀ a : UInt8, 0x80 ≤ (0x80 ||| a).toNat := forall_byte (by decide +kernel)

theorem setLocation_sent (h : setLocation opts x y = some (opts', trs)) :
    opts'.rows = opts.rows ∧ ∃ c, trs = [.cmd c] ∧ 0x80 ≤ c.toNat := by
  obtain ⟨offset, -, h⟩ := Option.bind_eq_some_iff.mp h
  obtain ⟨rfl, rfl⟩ := Prod.mk.inj (Option.some.inj h)
  exact ⟨rfl, _, rfl, cursor_ge _⟩

theorem cursorSet_sent (h : lcdCursorSet opts x y = some (opts', trs)) :
    opts'.rows = opts.rows ∧ ∃ c, trs = [.cmd c] ∧ 0x80 ≤ c.toNat := by
  unfold lcdCursorSet at h
  split at h
  · exact setLocation_sent h
  · exact setLocation_sent h

theorem cursorSet_text (h : lcdCursorSet opts x y = some (opts', trs)) : opts'.rows = opts.rows ∧ IsText trs := by
  obtain ⟨hrows, c, rfl, hc⟩ := cursorSet_sent h
  refine ⟨hrows, fun d hd => ?_⟩
  obtain rfl : d = c := by simpa using hd
  exact hc

theorem wrap_text (h : lcdWrap opts = some (opts', trs)) : opts'.rows = opts.rows ∧ IsText trs := by
  unfold lcdWrap at h
  split at h
  · exact cursorSet_text h
  · obtain ⟨rfl, rfl⟩ := Prod.mk.inj (Option.some.inj h)
    exact ⟨rfl, by simp [IsText]⟩

theorem putsChar_text (h : lcdPutsChar opts c = some (opts', trs)) : opts'.rows = opts.rows ∧ IsText trs := by
  unfold lcdPutsChar at h
  split at h
  · exact cursorSet_text h
  · split at h
    · exact cursorSet_text h
    · obtain ⟨rfl, rfl⟩ := Prod.mk.inj (Option.some.inj h)
      exact ⟨rfl, isText_data⟩

theorem putsLoop_text (h : lcdPutsLoop opts str = some (opts', trs)) : opts'.rows = opts.rows ∧ IsText trs := by
  induction str generalizing opts trs with
  | nil =>
    obtain ⟨rfl, rfl⟩ := Prod.mk.inj (Option.some.inj h)
    exact ⟨rfl, by simp [IsText]⟩
  | cons c str ih =>
    obtain ⟨⟨o₁, wrap⟩, h₁, h⟩ := Option.bind_eq_some_iff.mp h
    obtain ⟨⟨o₂, sent⟩, h₂, h⟩ := Option.bind_eq_some_iff.mp h
    obtain ⟨⟨o₃, rest⟩, h₃, h⟩ := Option.bind_eq_some_iff.mp h
    obtain ⟨rfl, rfl⟩ := Prod.mk.inj (Option.some.inj h)
    obtain ⟨hr₁, ht₁⟩ := wrap_text h₁
    obtain ⟨hr₂, ht₂⟩ := putsChar_text h₂
    obtain ⟨hr₃, ht₃⟩ := ih h₃
    exact ⟨hr₃.trans (hr₂.trans hr₁), isText_append (isText_append ht₁ ht₂) ht₃⟩

/-- What places the cursor first and then writes. -/
def Placed (opts : Hd44780Options) (opts' : Hd44780Options) (trs : List Transfer) : Prop :=
  opts'.rows = opts.rows ∧ ∃ c rest, trs = .cmd c :: rest ∧ IsText trs

theorem placed_of_cursorSet {o : Hd44780Options} {start rest : List Transfer} (h : lcdCursorSet opts x y = some (o, start))
    (hr : opts'.rows = o.rows ∧ IsText rest) : Placed opts opts' (start ++ rest) := by
  obtain ⟨hrows, c, rfl, hc⟩ := cursorSet_sent h
  exact ⟨hr.1.trans hrows, c, rest, rfl, isText_append (cursorSet_text h).2 hr.2⟩

theorem puts_placed (h : lcdPuts opts x y str = some (opts', trs)) : Placed opts opts' trs := by
  obtain ⟨⟨o, start⟩, h₁, h⟩ := Option.bind_eq_some_iff.mp h
  obtain ⟨⟨o', rest⟩, h₂, h⟩ := Option.bind_eq_some_iff.mp h
  obtain ⟨rfl, rfl⟩ := Prod.mk.inj (Option.some.inj h)
  exact placed_of_cursorSet h₁ (putsLoop_text h₂)

theorem putChar_placed (h : lcdPutChar opts x y c = some (opts', trs)) : Placed opts opts' trs := by
  obtain ⟨⟨o, start⟩, h₁, h⟩ := Option.bind_eq_some_iff.mp h
  obtain ⟨⟨o', rest⟩, h₂, h⟩ := Option.bind_eq_some_iff.mp h
  obtain ⟨rfl, rfl⟩ := Prod.mk.inj (Option.some.inj h)
  exact placed_of_cursorSet h₁ (putsChar_text h₂)

theorem putCustom_placed (h : lcdPutCustom opts x y c = some (opts', trs)) : Placed opts opts' trs := by
  obtain ⟨⟨o, start⟩, h₁, h⟩ := Option.bind_eq_some_iff.mp h
  obtain ⟨rfl, rfl⟩ := Prod.mk.inj (Option.some.inj h)
  exact placed_of_cursorSet h₁ ⟨rfl, isText_data⟩

/-- What a text leaves as it is. -/
def Controller.kept (s : Controller) : (ℕ → UInt8) × Bool × Bool × Bool × Bool × Bool × Bool × ℤ :=
  (s.cgram, s.increment, s.shifting, s.display, s.cursor, s.blink, s.twoLines, s.shift)

theorem exec_cursor (hc : 0x80 ≤ c.toNat) : s.exec (.cmd c) = { s with ac := c.toNat - 0x80, toGlyphs := false } := by
  simp only [Controller.exec, if_pos hc]

theorem exec_text (ht : IsText trs) (hg : s.toGlyphs = false) (hs : s.shifting = false) :
    (trs.foldl Controller.exec s).kept = s.kept := by
  induction trs generalizing s with
  | nil => rfl
  | cons tr trs ih =>
    have hrest : IsText trs := fun c hc => ht c (List.mem_cons_of_mem _ hc)
    rw [List.foldl_cons]
    cases tr with
    | cmd c =>
      have hc := ht c List.mem_cons_self
      rw [exec_cursor hc, @ih { s with ac := c.toNat - 0x80, toGlyphs := false } hrest rfl hs]
      simp only [Controller.kept]
    | data d =>
      have hexec : s.exec (.data d) = { s with ddram := Function.update s.ddram s.ac d, ac := s.move s.increment } := by
        simp only [Controller.exec, hg, hs, Bool.false_eq_true, if_false]
      rw [hexec, @ih { s with ddram := Function.update s.ddram s.ac d, ac := s.move s.increment } hrest hg hs]
      rfl

theorem exec_placed (h : Placed opts opts' trs) (hs : s.shifting = false) : (trs.foldl Controller.exec s).kept = s.kept := by
  obtain ⟨-, c, rest, rfl, ht⟩ := h
  have hc := ht c List.mem_cons_self
  have hrest : IsText rest := fun d hd => ht d (List.mem_cons_of_mem _ hd)
  rw [List.foldl_cons, exec_cursor hc, @exec_text { s with ac := c.toNat - 0x80, toGlyphs := false } _ hrest rfl hs]
  simp only [Controller.kept]

end texts

section glyphs

theorem exec_glyphs {ds : List UInt8} (hg : s.toGlyphs = true) (hi : s.increment = true) (hroom : s.ac + ds.length ≤ 0x40) :
    ((ds.map Transfer.data).foldl Controller.exec s).kept = Controller.kept { s with cgram := putBlock s.cgram s.ac ds } := by
  induction ds generalizing s with
  | nil => simp [Controller.kept]
  | cons d ds ih =>
    rw [List.length_cons] at hroom
    have hexec : s.exec (.data d) = { s with cgram := Function.update s.cgram s.ac d, ac := (s.ac + 1) % 0x40 } := by
      simp only [Controller.exec, Controller.move, hg, hi, if_true]
    rw [List.map_cons, List.foldl_cons, hexec, putBlock_cons]
    by_cases hnil : ds = []
    · subst hnil
      simp [Controller.kept]
    · have hpos := List.length_pos_iff.mpr hnil
      have hac : (s.ac + 1) % 0x40 = s.ac + 1 := Nat.mod_eq_of_lt (by omega)
      rw [hac, @ih { s with cgram := Function.update s.cgram s.ac d, ac := s.ac + 1 } hg hi (by change s.ac + 1 + _ ≤ _; omega)]
      simp only [Controller.kept]

theorem glyph_address : ∀ location : UInt8, (0x40 ||| ((location &&& 0x07) <<< (3 : UInt8))).toNat = 0x40 + 8 * (location.toNat % 8) :=
  forall_byte (by decide +kernel)

theorem exec_createChar {location : UInt8} {data : Fin 8 → UInt8} (hi : s.increment = true) :
    ((lcdCreateChar location data).foldl Controller.exec s).kept = Controller.kept { s with
      cgram := fun a => if a / 8 = location.toNat % 8 then data ⟨a % 8, Nat.mod_lt a (Nat.succ_pos 7)⟩ else s.cgram a } := by
  have hn := glyph_address location
  have hlt : location.toNat % 8 < 8 := Nat.mod_lt _ (Nat.succ_pos 7)
  have hexec : s.exec (.cmd (0x40 ||| ((location &&& 0x07) <<< (3 : UInt8)))) =
      { s with ac := 8 * (location.toNat % 8), toGlyphs := true } := by
    simp only [Controller.exec, hn, if_neg (show ¬ 0x80 ≤ 0x40 + 8 * (location.toNat % 8) by omega),
      if_pos (Nat.le_add_right 0x40 _), Nat.add_sub_cancel_left]
  have hroom : 8 * (location.toNat % 8) + (List.ofFn data).length ≤ 0x40 := by
    rw [List.length_ofFn]
    omega
  rw [lcdCreateChar, List.foldl_cons, hexec, @exec_glyphs { s with ac := 8 * (location.toNat % 8), toGlyphs := true } _ rfl hi hroom]
  simp only [Controller.kept, Prod.mk.injEq, and_true]
  funext a
  by_cases ha : a / 8 = location.toNat % 8
  · have hlen : a % 8 < (List.ofFn data).length := by
      rw [List.length_ofFn]
      exact Nat.mod_lt a (Nat.succ_pos 7)
    have hinside := putBlock_inside s.cgram (8 * (location.toNat % 8)) hlen
    rw [show 8 * (location.toNat % 8) + a % 8 = a by omega, List.getElem_ofFn] at hinside
    rw [if_pos ha, hinside]
  · rw [if_neg ha, putBlock_outside (by rw [List.length_ofFn]; omega)]

end glyphs

section coherence

theorem exec_control {d c b : Bool} :
    s.exec (.cmd (0x08 ||| controlOf d c b)) = { s with display := d, cursor := c, blink := b } := by
  cases d <;> cases c <;> cases b <;> rfl

theorem control_keepsWidth : ∀ d c b : Bool, (0x08 ||| controlOf d c b).toNat / 16 ≠ 3 := by decide

theorem control_coherent {change : UInt8 → UInt8} {d c b : Bool} (h : Coherent lcd p s)
    (hchange : change (controlOf p.display p.cursor p.blink) = controlOf d c b)
    (hcall : some (setControl change lcd) = some (lcd', trs)) :
    Coherent lcd' { p with display := d, cursor := c, blink := b } (trs.foldl Controller.exec s) ∧ ∀ tr ∈ trs, tr.KeepsWidth := by
  rw [← h.control] at hchange
  obtain ⟨rfl, rfl⟩ := Prod.mk.inj (Option.some.inj hcall)
  rw [hchange, List.foldl_cons, List.foldl_nil, exec_control]
  refine ⟨⟨rfl, rfl, rfl, rfl, h.cgram, h.shift, h.increment, h.shifting, h.twoLines⟩, ?_⟩
  intro tr htr
  obtain rfl := List.mem_singleton.mp htr
  exact control_keepsWidth d c b

theorem Coherent.kept {t : Controller} (h : Coherent lcd p s) (hk : t.kept = s.kept) (hc : lcd'.displayControl = lcd.displayControl)
    (hr : lcd'.opts.rows = lcd.opts.rows) : Coherent lcd' p t := by
  simp only [Controller.kept, Prod.mk.injEq] at hk
  obtain ⟨hcgram, hi, hs, hd, hcu, hb, ht, hsh⟩ := hk
  exact ⟨hc.trans h.control, hd.trans h.display, hcu.trans h.cursor, hb.trans h.blink, hcgram.trans h.cgram, hsh.trans h.shift,
    hi.trans h.increment, hs.trans h.shifting, hr ▸ ht.trans h.twoLines⟩

theorem exec_scroll {n : ℕ} {c : UInt8} {d : ℤ} (hc : ∀ s : Controller, s.exec (.cmd c) = { s with shift := s.shift + d }) :
    (List.replicate n (.cmd c)).foldl Controller.exec s = { s with shift := s.shift + n * d } := by
  induction n generalizing s with
  | zero => simp
  | succ n ih =>
    rw [List.replicate_succ, List.foldl_cons, hc, ih]
    simp only [Nat.cast_succ, Int.add_mul, Int.one_mul, Int.add_assoc, Int.add_comm d]

theorem scroll_coherent {n : ℕ} {c : UInt8} {d : ℤ} (h : Coherent lcd p s)
    (hc : ∀ s : Controller, s.exec (.cmd c) = { s with shift := s.shift + d }) (hk : c.toNat / 16 ≠ 3)
    (hcall : some (lcd, List.replicate n (Transfer.cmd c)) = some (lcd', trs)) :
    Coherent lcd' { p with shift := p.shift + n * d } (trs.foldl Controller.exec s) ∧ ∀ tr ∈ trs, tr.KeepsWidth := by
  obtain ⟨rfl, rfl⟩ := Prod.mk.inj (Option.some.inj hcall)
  rw [exec_scroll hc]
  refine ⟨⟨h.control, h.display, h.cursor, h.blink, h.cgram, congrArg (· + n * d) h.shift, h.increment, h.shifting, h.twoLines⟩, ?_⟩
  intro tr htr
  rw [List.eq_of_mem_replicate htr]
  exact hk

theorem isText_keepsWidth (h : IsText trs) : ∀ tr ∈ trs, tr.KeepsWidth := by
  intro tr htr
  cases tr with
  | data c => trivial
  | cmd c =>
    have hc := h c htr
    change c.toNat / 16 ≠ 3
    omega

theorem texts_coherent (h : Coherent lcd p s) {r : Option (Hd44780Options × List Transfer)}
    (hr : ∀ opts' trs, r = some (opts', trs) → Placed lcd.opts opts' trs) (hcall : texts lcd r = some (lcd', trs)) :
    Coherent lcd' p (trs.foldl Controller.exec s) ∧ ∀ tr ∈ trs, tr.KeepsWidth := by
  obtain ⟨⟨opts', sent⟩, hsent, hx⟩ := Option.map_eq_some_iff.mp hcall
  obtain ⟨rfl, rfl⟩ := Prod.mk.inj hx
  have hplaced := hr opts' sent hsent
  obtain ⟨hrows, c, rest, hsplit, ht⟩ := id hplaced
  exact ⟨h.kept (exec_placed hplaced h.shifting) rfl hrows, isText_keepsWidth ht⟩

theorem createChar_coherent {location : UInt8} {data : Fin 8 → UInt8} (h : Coherent lcd p s)
    (hcall : some (lcd, lcdCreateChar location data) = some (lcd', trs)) :
    Coherent lcd' (p.after (.createChar location data)) (trs.foldl Controller.exec s) ∧ ∀ tr ∈ trs, tr.KeepsWidth := by
  obtain ⟨rfl, rfl⟩ := Prod.mk.inj (Option.some.inj hcall)
  constructor
  · apply Coherent.kept _ (exec_createChar h.increment) rfl rfl
    exact ⟨h.control, h.display, h.cursor, h.blink, by rw [h.cgram]; rfl, h.shift, h.increment, h.shifting, h.twoLines⟩
  · intro tr htr
    rcases List.mem_cons.mp htr with rfl | htr
    · have hn := glyph_address location
      change (0x40 ||| ((location &&& 0x07) <<< (3 : UInt8))).toNat / 16 ≠ 3
      omega
    · obtain ⟨d, -, rfl⟩ := List.mem_map.mp htr
      trivial

theorem control_or : ∀ d c b : Bool, controlOf d c b ||| 0x04 = controlOf true c b ∧
    controlOf d c b ||| 0x02 = controlOf d true b ∧ controlOf d c b ||| 0x01 = controlOf d c true := by decide

theorem control_and : ∀ d c b : Bool, controlOf d c b &&& ~~~0x04 = controlOf false c b ∧
    controlOf d c b &&& ~~~0x02 = controlOf d false b ∧ controlOf d c b &&& ~~~0x01 = controlOf d c false := by decide

theorem call_coherent (h : Coherent lcd p s) (hcall : lcdCall lcd call = some (lcd', trs)) :
    Coherent lcd' (p.after call) (trs.foldl Controller.exec s) ∧ ∀ tr ∈ trs, tr.KeepsWidth := by
  obtain ⟨hd, hc, hb⟩ := control_or p.display p.cursor p.blink
  obtain ⟨hd', hc', hb'⟩ := control_and p.display p.cursor p.blink
  cases call with
  | clear =>
    obtain ⟨rfl, rfl⟩ := Prod.mk.inj (Option.some.inj hcall)
    refine ⟨?_, by simp [lcdClear, Transfer.KeepsWidth]⟩
    exact ⟨h.control, h.display, h.cursor, h.blink, h.cgram, rfl, rfl, h.shifting, h.twoLines⟩
  | puts x y str => exact texts_coherent h (fun _ _ => puts_placed) hcall
  | putChar x y c => exact texts_coherent h (fun _ _ => putChar_placed) hcall
  | putCustom x y location => exact texts_coherent h (fun _ _ => putCustom_placed) hcall
  | createChar location data => exact createChar_coherent h hcall
  | scrollLeft count =>
    have hleft := scroll_coherent (d := -1) h (fun _ => rfl) (by decide) hcall
    rwa [Int.mul_neg_one, ← Int.sub_eq_add_neg] at hleft
  | scrollRight count =>
    have hright := scroll_coherent (d := 1) h (fun _ => rfl) (by decide) hcall
    rwa [Int.mul_one] at hright
  | displayOn => exact control_coherent h hd hcall
  | displayOff => exact control_coherent h hd' hcall
  | blinkOn => exact control_coherent h hb hcall
  | blinkOff => exact control_coherent h hb' hcall
  | cursorOn => exact control_coherent h hc hcall
  | cursorOff => exact control_coherent h hc' hcall

theorem calls_coherent {calls : List LcdCall} (h : Coherent lcd p s) (hcalls : lcdCalls lcd calls = some (lcd', trs)) :
    Coherent lcd' (calls.foldl Panel.after p) (trs.foldl Controller.exec s) ∧ ∀ tr ∈ trs, tr.KeepsWidth := by
  induction calls generalizing lcd p s trs with
  | nil =>
    obtain ⟨rfl, rfl⟩ := Prod.mk.inj (Option.some.inj hcalls)
    exact ⟨h, by simp⟩
  | cons call calls ih =>
    obtain ⟨⟨lcd₁, sent⟩, h₁, hcalls⟩ := Option.bind_eq_some_iff.mp hcalls
    obtain ⟨⟨lcd₂, rest⟩, h₂, hcalls⟩ := Option.bind_eq_some_iff.mp hcalls
    obtain ⟨rfl, rfl⟩ := Prod.mk.inj (Option.some.inj hcalls)
    obtain ⟨hc, hk⟩ := call_coherent h h₁
    obtain ⟨hc', hk'⟩ := ih hc h₂
    rw [List.foldl_append, List.foldl_cons]
    refine ⟨hc', fun tr htr => ?_⟩
    rcases List.mem_append.mp htr with htr | htr
    · exact hk tr htr
    · exact hk' tr htr

theorem init_sent (cols rows : UInt8) :
    (lcdInit cols rows).2 = [.cmd (if rows > 1 then 0x28 else 0x20), .cmd 0x0c, .cmd 0x01, .cmd 0x06] := by
  by_cases hrows : rows > 1
  · simp [lcdInit, lcdDisplayOn, setControl, lcdClear, hrows]
    decide
  · simp [lcdInit, lcdDisplayOn, setControl, lcdClear, hrows]
    decide

theorem init_control : (0x04 : UInt8) ||| 0x04 = controlOf true false false := by decide

theorem exec_function {lines : Prop} [Decidable lines] :
    s.exec (.cmd (if lines then 0x28 else 0x20)) = { s with twoLines := decide lines } := by
  split
  · rename_i h
    rw [decide_eq_true h]
    rfl
  · rename_i h
    rw [decide_eq_false h]
    rfl

theorem init_coherent (cols rows : UInt8) (s : Controller) :
    Coherent (lcdInit cols rows).1 (.fresh s.cgram) ((lcdInit cols rows).2.foldl Controller.exec s) ∧
      ∀ tr ∈ (lcdInit cols rows).2, tr.KeepsWidth := by
  rw [init_sent]
  constructor
  · rw [List.foldl_cons, exec_function]
    exact ⟨init_control, rfl, rfl, rfl, rfl, rfl, rfl, rfl, decide_eq_decide.mpr UInt8.lt_iff_toNat_lt⟩
  · simp only [List.mem_cons, List.not_mem_nil, or_false, forall_eq_or_imp, forall_eq]
    refine ⟨?_, ?_, ?_, ?_⟩
    · split <;> simp [Transfer.KeepsWidth]
    · simp [Transfer.KeepsWidth]
    · simp [Transfer.KeepsWidth]
    · simp [Transfer.KeepsWidth]

end coherence

section run

variable {cols rows : UInt8} {calls : List LcdCall} {r u : Receiver}

/-- What `lcd_HD44780_Init` and calls behind it put on the port. -/
def portBytes (cols rows : UInt8) (trs : List Transfer) : List UInt8 :=
  lcdSync ++ ((lcdInit cols rows).2 ++ trs).flatMap Transfer.bytes

theorem portBytes_received (hcalls : lcdCalls (lcdInit cols rows).1 calls = some (lcd, trs))
    (h : Nexts r (portBytes cols rows trs) u) :
    Idle u ∧ ∃ t, Nexts r lcdSync t ∧ u.received = t.received ++ ((lcdInit cols rows).2 ++ trs) := by
  obtain ⟨t, hsync, h⟩ := nexts_append h
  have hinit := init_coherent cols rows ⟨fun _ => 0, fun _ => 0, 0, false, false, false, false, false, false, false, 0⟩
  have hkeeps : ∀ tr ∈ (lcdInit cols rows).2 ++ trs, tr.KeepsWidth := by
    intro tr htr
    rcases List.mem_append.mp htr with htr | htr
    · exact hinit.2 tr htr
    · exact (calls_coherent hinit.1 hcalls).2 tr htr
  obtain ⟨hidle, hreceived⟩ := run_received (sync_idle hsync) hkeeps h
  exact ⟨hidle, t, hsync, hreceived⟩

/-- Whatever state the display is in, it gets every byte of the driver once, in order, behind what it has
taken from the synchronisation, and is then between two bytes. -/
theorem calls_received (r : Receiver) (hcalls : lcdCalls (lcdInit cols rows).1 calls = some (lcd, trs)) :
    (∃ u, Nexts r (portBytes cols rows trs) u) ∧
      ∀ u, Nexts r (portBytes cols rows trs) u →
        Idle u ∧ ∃ t, Nexts r lcdSync t ∧ u.received = t.received ++ ((lcdInit cols rows).2 ++ trs) :=
  ⟨nexts_exists _ _, fun _ => portBytes_received hcalls⟩

theorem calls_received_example :
    (∃ u, Nexts ⟨⟨true, true, true, 9⟩, 0, 0, true, true, []⟩
      (portBytes 16 2 [.cmd 0x80, .data 0x41, .cmd 0x08, .cmd 0x18, .cmd 0x18]) u) ∧
      ∀ u, Nexts ⟨⟨true, true, true, 9⟩, 0, 0, true, true, []⟩
        (portBytes 16 2 [.cmd 0x80, .data 0x41, .cmd 0x08, .cmd 0x18, .cmd 0x18]) u →
        Idle u ∧ ∃ t, Nexts ⟨⟨true, true, true, 9⟩, 0, 0, true, true, []⟩ lcdSync t ∧ u.received =
          t.received ++ ((lcdInit 16 2).2 ++ [.cmd 0x80, .data 0x41, .cmd 0x08, .cmd 0x18, .cmd 0x18]) := by
  have hcalls : lcdCalls (lcdInit 16 2).1 [.puts 1 1 [0x41], .displayOff, .scrollLeft 2] =
      some (⟨⟨2, 16, 1, 0⟩, 0x00, 0x08, 0x02⟩, [.cmd 0x80, .data 0x41, .cmd 0x08, .cmd 0x18, .cmd 0x18]) := by decide
  exact calls_received _ hcalls

/-- After any calls the flags, the glyphs and the shift of the display are those that the calls tell, from the glyphs
behind the synchronisation on, and the text has gone into the text memory only. -/
theorem display_coherent (s : Controller) (hcalls : lcdCalls (lcdInit cols rows).1 calls = some (lcd, trs))
    (h : Nexts r (portBytes cols rows trs) u) :
    ∃ t, Nexts r lcdSync t ∧ Coherent lcd (calls.foldl Panel.after (.fresh (t.received.foldl Controller.exec s).cgram))
      (u.received.foldl Controller.exec s) := by
  obtain ⟨-, t, hsync, hreceived⟩ := portBytes_received hcalls h
  refine ⟨t, hsync, ?_⟩
  rw [hreceived, List.foldl_append, List.foldl_append]
  exact (calls_coherent (init_coherent cols rows _).1 hcalls).1

theorem display_coherent_example :
    ∃ u, ∃ t, Nexts ⟨⟨true, true, true, 9⟩, 0, 0, true, true, []⟩ lcdSync t ∧ Coherent ⟨⟨2, 16, 1, 0⟩, 0x02, 0x08, 0x02⟩
      ([.cursorOn, .puts 1 1 [0x41], .displayOff, .scrollLeft 1].foldl Panel.after (.fresh
        (t.received.foldl Controller.exec
          ⟨fun _ => 0, fun _ => 0, 0x45, true, false, true, true, false, true, false, 3⟩).cgram))
      ((Receiver.received u).foldl Controller.exec
        ⟨fun _ => 0, fun _ => 0, 0x45, true, false, true, true, false, true, false, 3⟩) := by
  obtain ⟨u, h⟩ := nexts_exists ⟨⟨true, true, true, 9⟩, 0, 0, true, true, []⟩
    (portBytes 16 2 [.cmd 0x0e, .cmd 0x80, .data 0x41, .cmd 0x0a, .cmd 0x18])
  exact ⟨u, display_coherent _ (by decide) h⟩

end run

end Lpc1788Libraries.TextLcd

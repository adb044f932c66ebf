import Lpc1788Libraries.Oled.Clipping

namespace Lpc1788Libraries.Oled

open Lpc1788Libraries.Support BoundedProgram

variable {s t : State} {color : OledColor} {x y : UInt8} {c : UInt8} {d : Display}

/-- The display shows the frame buffer. -/
def State.Coherent (s : State) : Prop :=
  ∀ p < 8, ∀ c < oledDisplayWidth, s.display.ram p (c + xOffset) = s.shadowFB (p * oledDisplayWidth + c)

def Keeps (s t : State) : Prop := s.Coherent → t.Coherent

instance : Std.Refl Keeps := ⟨fun _ h => h⟩

instance : IsTrans State Keeps := ⟨fun _ _ _ h h' hs => h' (h hs)⟩

section pixel

variable {a : ℤ × ℤ} {l : List (ℤ × ℤ)} {q : OledM Unit}

theorem painted_keeps (hx : x.toNat < 128) (hy : y.toNat ≤ 64) : Keeps s (painted s x y color) := by
  intro hs p hp c hc
  rw [oledDisplayWidth] at hc
  have hpos := pixelPos_eq (x := x) hy
  have hcell : p * 128 + c = pixelPos x y ↔ p = min (y.toNat / 8) 7 ∧ c = x.toNat := by omega
  have hold := hs p hp c hc
  rw [oledDisplayWidth, xOffset] at hold ⊢
  simp only [painted, Display.at, Display.data, Function.update_apply, hcell]
  by_cases hpage : p = min (y.toNat / 8) 7
  · rw [if_pos hpage, Function.update_apply, ← hpage]
    by_cases hcolumn : c = x.toNat
    · rw [if_pos (by omega), if_pos ⟨rfl, hcolumn⟩]
    · rw [if_neg (by omega), if_neg fun h => hcolumn h.2]
      exact hold
  · rw [if_neg hpage, if_neg fun h => hpage h.1]
    exact hold

/-- The column behind the last one, which the guard of `GLCD_putPixel` lets through. -/
def Strays (a : ℤ × ℤ) : Prop := a.1 % 256 = 128 ∧ a.2 % 256 ≤ 64

theorem plotted_keeps (h : ¬Strays a) : Keeps s (plotted color s a) := by
  rw [plotted]
  by_cases hp : Passes a
  · rw [if_pos hp]
    obtain ⟨hx, hy⟩ := hp
    have hx' := ofInt_mod a.1
    have hy' := ofInt_mod a.2
    have hne : (UInt8.ofInt a.1).toNat ≠ 128 := fun heq => h ⟨by omega, by omega⟩
    exact painted_keeps (by omega) hy
  · rw [if_neg hp]
    exact fun hs => hs

theorem plotAll_keeps (h : ∀ a ∈ l, ¬Strays a) : (plotAll color l).Within Keeps := by
  induction l with
  | nil => exact Prog.within_pure
  | cons a l ih =>
    obtain ⟨ha, hl⟩ := List.forall_mem_cons.mp h
    apply Prog.within_bind
    · intro s r t hr
      rw [← (plot_returns.mp hr).2]
      exact plotted_keeps ha
    · exact fun _ => ih hl

theorem Draws.keeps (hq : Draws color q l) (h : ∀ a ∈ l, ¬Strays a) : q.Within Keeps := fun _ _ _ hr =>
  plotAll_keeps h ((hq _ _ _).mp hr)

theorem Diverges.within {R : State → State → Prop} (h : Diverges q) : q.Within R := fun s _ _ hr =>
  absurd hr.terminates (h s)

theorem putPixel_keeps (h : x ≠ 128) : (glcdPutPixel x y color).Within Keeps := by
  apply draws_putPixel.keeps
  intro a ha
  rw [List.mem_singleton] at ha
  rintro ⟨hx, -⟩
  rw [ha] at hx
  have hlt := x.toNat_lt
  have heq : x.toNat = 128 := by
    change (x.toNat : ℤ) % 256 = 128 at hx
    omega
  exact h (UInt8.toNat_inj.mp heq)

end pixel

section clear

theorem command_ram (cmd : UInt8) : (d.command cmd).ram = d.ram := by
  rw [Display.command]
  split_ifs <;> rfl

theorem commands_ram (cmds : List UInt8) : (cmds.foldl Display.command d).ram = d.ram := by
  induction cmds generalizing d with
  | nil => rfl
  | cons cmd cmds ih => rw [List.foldl_cons, ih, command_ram]

theorem data_ram (p k : ℕ) : (d.data c).ram p k = if p = d.page ∧ k = d.column then c else d.ram p k := by
  have hram : (d.data c).ram = Function.update d.ram d.page (Function.update (d.ram d.page) d.column c) := rfl
  rw [hram]
  by_cases hp : p = d.page
  · rw [hp, Function.update_self, Function.update_apply]
    exact if_congr (and_iff_right rfl).symm rfl rfl
  · rw [Function.update_of_ne hp, if_neg fun h => hp h.1]

theorem datas_ram (n p k : ℕ) : ((List.replicate n c).foldl Display.data d).ram p k =
    if p = d.page ∧ d.column ≤ k ∧ k < d.column + n then c else d.ram p k := by
  induction n generalizing d with
  | zero => rw [if_neg (by omega), List.replicate_zero, List.foldl_nil]
  | succ n ih =>
    have hpage : (d.data c).page = d.page := rfl
    have hcolumn : (d.data c).column = d.column + 1 := rfl
    rw [List.replicate_succ, List.foldl_cons, ih, data_ram]
    split_ifs <;> first | rfl | omega

theorem receive_datas (n : ℕ) : d.receive ((0x40 :: List.replicate (n + 1) c).take (n + 1)) =
    (List.replicate n c).foldl Display.data d := by
  rw [List.take_succ_cons, List.take_replicate, Nat.min_eq_left (Nat.le_succ n)]
  rfl

/-- A page of the display after `GLCD_ClearScreen` wrote its 131 bytes to it. -/
def Display.cleared (c : UInt8) (d : Display) (i : UInt8) : Display :=
  (List.replicate 131 c).foldl Display.data (d.at (i.toNat - 0xB0) 0)

theorem clearPages_returns {l : List UInt8} (hl : ∀ i ∈ l, 0xB0 ≤ i.toNat ∧ i.toNat < 0xB8) {r : Unit} :
    (clearPages c l).Returns s r t ↔ { s with display := l.foldl (Display.cleared c) s.display } = t := by
  induction l generalizing s with
  | nil =>
    rw [clearPages, Prog.returns_pure]
    exact and_iff_right (Subsingleton.elim _ _)
  | cons i l ih =>
    obtain ⟨hi, hl⟩ := List.forall_mem_cons.mp hl
    have hcleared : (List.replicate 131 c).foldl Display.data (s.display.at (i.toNat - 0xB0) (0 + 0 * 16)) =
        s.display.cleared c i := by
      rw [Nat.zero_mul, Nat.add_zero, Display.cleared]
    have hpage : i.toNat = 0xB0 + (i.toNat - 0xB0) := by omega
    have hlow : (0x00 : UInt8).toNat = 0 := rfl
    have hhigh : (0x10 : UInt8).toNat = 0x10 + 0 := rfl
    rw [clearPages, mSetAddress_bind (by omega) hpage (by omega) hlow (by omega) hhigh, glcdWriteDataLen, masterSend,
      Prog.modify_bind_returns, ih hl, List.foldl_cons, receive_datas 131, hcleared]

theorem cleared_ram (l : List UInt8) (hl : ∀ i ∈ l, 0xB0 ≤ i.toNat) {p k : ℕ} (hk : k < 131) :
    (l.foldl (Display.cleared c) d).ram p k = if ∃ i ∈ l, i.toNat = 0xB0 + p then c else d.ram p k := by
  induction l generalizing d with
  | nil => simp only [List.foldl_nil, List.not_mem_nil, false_and, exists_false, if_false]
  | cons i l ih =>
    obtain ⟨hi, hl⟩ := List.forall_mem_cons.mp hl
    have hpage : p = i.toNat - 0xB0 ↔ i.toNat = 0xB0 + p := by omega
    have hcolumn : 0 ≤ k ∧ k < 0 + 131 := by omega
    rw [List.foldl_cons, ih hl, Display.cleared, datas_ram]
    simp only [Display.at, hpage, and_iff_left hcolumn, List.mem_cons, exists_eq_or_imp]
    by_cases h : ∃ i ∈ l, i.toNat = 0xB0 + p
    · rw [if_pos h, if_pos (Or.inr h)]
    · rw [if_neg h]
      exact if_congr (or_iff_left h).symm rfl rfl

def clearColor (color : OledColor) : UInt8 := if color = .white then 0xff else 0

/-- The state after `GLCD_ClearScreen`. -/
def State.clearScreen (color : OledColor) (s : State) : State where
  shadowFB i := if i < shadowFbSize then clearColor color else s.shadowFB i
  display := pages.foldl (Display.cleared (clearColor color)) s.display

theorem pages_range : ∀ i ∈ pages, 0xB0 ≤ i.toNat ∧ i.toNat < 0xB8 := by
  have hall : pages.all (fun i => 0xB0 ≤ i.toNat && i.toNat < 0xB8) = true := rfl
  intro i hi
  simpa using List.all_eq_true.mp hall i hi

theorem mem_pages : ∀ p < 8, ∃ i ∈ pages, i.toNat = 0xB0 + p := by
  have hget : ∀ k : Fin 8, (pages.get k).toNat = 0xB0 + k.val := by decide
  exact fun p hp => ⟨pages.get ⟨p, hp⟩, List.get_mem _ _, hget ⟨p, hp⟩⟩

theorem clearScreen_returns {r : Unit} : (glcdClearScreen color).Returns s r t ↔ s.clearScreen color = t := by
  have hpages : (clearPages (clearColor color) pages).Returns s ()
      { s with display := pages.foldl (Display.cleared (clearColor color)) s.display } :=
    (clearPages_returns pages_range).mpr rfl
  exact hpages.bind_iff.trans Prog.returns_modify

theorem clearScreen_coherent : (s.clearScreen color).Coherent := by
  intro p hp c hc
  rw [oledDisplayWidth] at hc
  have hindex : p * oledDisplayWidth + c < shadowFbSize := by
    rw [oledDisplayWidth, shadowFbSize]
    omega
  have hrange : ∀ i ∈ pages, 0xB0 ≤ i.toNat := fun i hi => (pages_range i hi).1
  rw [State.clearScreen, cleared_ram pages hrange (by rw [xOffset]; omega), if_pos (mem_pages p hp)]
  exact (if_pos hindex).symm

theorem writeCommands_returns {r : Unit} (cmds : List UInt8) : (writeCommands cmds).Returns s r t ↔
    { s with display := cmds.foldl Display.command s.display } = t := by
  induction cmds generalizing s with
  | nil =>
    rw [writeCommands, Prog.returns_pure]
    exact and_iff_right (Subsingleton.elim _ _)
  | cons cmd cmds ih =>
    rw [writeCommands, glcdWriteCommand, masterSend, Prog.modify_bind_returns, ih]
    rfl

/-- The state after `GLCD_SSD1306Init`. -/
def State.initialised (s : State) : State :=
  let s := { s with display := glcdSetupCodes.foldl Display.command s.display }
  let s := s.clearScreen .black
  { s with display := [0x8D, 0x14, 0xAF].foldl Display.command s.display }

theorem init_returns {r : Unit} : glcdSsd1306Init.Returns s r t ↔ s.initialised = t := by
  have hsetup : (writeCommands glcdSetupCodes).Returns s ()
      { s with display := glcdSetupCodes.foldl Display.command s.display } := (writeCommands_returns _).mpr rfl
  have hreset : glcdResetSsd1306.Returns s ()
      (State.clearScreen .black { s with display := glcdSetupCodes.foldl Display.command s.display }) :=
    hsetup.bind (clearScreen_returns.mpr rfl)
  rw [glcdSsd1306Init, masterSend, Prog.modify_bind_returns]
  exact hreset.bind_iff.trans (writeCommands_returns _)

theorem init_coherent : s.initialised.Coherent := by
  intro p hp c hc
  rw [State.initialised]
  dsimp only
  rw [commands_ram]
  exact clearScreen_coherent p hp c hc

end clear

section text

variable {fb bg : OledColor} {width : ℤ} {n : ℕ}

/-- The column that is `k` places to the right. -/
def columnAfter (x : UInt8) (k : ℤ) : UInt8 := x + UInt8.ofInt k

theorem columnAfter_add (k j : ℤ) : columnAfter (columnAfter x k) j = columnAfter x (k + j) := by
  rw [columnAfter, columnAfter, columnAfter, UInt8.ofInt_add, UInt8.add_assoc]

theorem columnAfter_zero : columnAfter x 0 = x := UInt8.add_zero x

theorem columnAfter_one : columnAfter x 1 = x + 1 := rfl

theorem putBits_answers (data : UInt8) (masks : List UInt8) :
    (putBits fb bg y data masks x).Answers (· = columnAfter x masks.length) := by
  induction masks generalizing x with
  | nil => exact Prog.answers_pure columnAfter_zero.symm
  | cons mask masks ih =>
    have hlength : columnAfter x (mask :: masks).length = columnAfter (x + 1) masks.length := by
      rw [← columnAfter_one, columnAfter_add, List.length_cons, Nat.cast_succ, add_comm]
    rw [hlength]
    exact Prog.answers_bind fun _ => ih

theorem putBits_keeps (data : UInt8) (masks : List UInt8) (h : ∀ k < masks.length, columnAfter x k ≠ 128) :
    (putBits fb bg y data masks x).Within Keeps := by
  induction masks generalizing x with
  | nil => exact Prog.within_pure
  | cons mask masks ih =>
    have hfirst := h 0 (Nat.succ_pos _)
    rw [Nat.cast_zero, columnAfter_zero] at hfirst
    apply Prog.within_bind (putPixel_keeps hfirst)
    intro _
    apply ih
    intro k hk
    have hnext := h (k + 1) (Nat.succ_lt_succ hk)
    rwa [Nat.cast_succ, add_comm, ← columnAfter_add, columnAfter_one] at hnext

theorem putBytes_answers (bytes : List UInt8) :
    (putBytes fb bg y bytes x).Answers (· = columnAfter x (8 * bytes.length : ℕ)) := by
  induction bytes generalizing x with
  | nil => exact Prog.answers_pure columnAfter_zero.symm
  | cons data bytes ih =>
    intro s z t hr
    obtain ⟨x', u, hx, hz⟩ := Prog.returns_bind.mp hr
    have hx' : x' = columnAfter x 8 := putBits_answers data fontMask hx
    have hz' := ih hz
    rw [hx', columnAfter_add] at hz'
    rw [hz', List.length_cons]
    congr 1
    push_cast
    ring

theorem putBytes_keeps (bytes : List UInt8) (h : ∀ k < 8 * bytes.length, columnAfter x k ≠ 128) :
    (putBytes fb bg y bytes x).Within Keeps := by
  induction bytes generalizing x with
  | nil => exact Prog.within_pure
  | cons data bytes ih =>
    rw [List.length_cons] at h
    apply Prog.within_bind_answers (putBits_keeps data fontMask _) (putBits_answers data fontMask)
    · rintro _ rfl
      apply ih
      intro k hk
      have hnext := h (8 + k) (by omega)
      rwa [Nat.cast_add, ← columnAfter_add] at hnext
    · intro k hk
      have hlt : k < 8 := hk
      exact h k (by omega)

/-- The columns of row `i` of a character, which starts `8 * n - width` places further than the row above. -/
def RowAvoids (width : ℤ) (n : ℕ) (x : UInt8) (i : ℕ) : Prop :=
  ∀ k < 8 * n, columnAfter x (i * (8 * n - width) + k) ≠ 128

theorem putRows_keeps (rows : List (List UInt8)) (hrows : ∀ row ∈ rows, row.length = n)
    (h : ∀ i < rows.length, RowAvoids width n x i) : (putRows fb bg width rows x y).Within Keeps := by
  induction rows generalizing x y with
  | nil => exact Prog.within_pure
  | cons row rows ih =>
    obtain ⟨hrow, hrows⟩ := List.forall_mem_cons.mp hrows
    rw [List.length_cons] at h
    apply Prog.within_bind_answers (putBytes_keeps row _) (putBytes_answers row)
    · rintro _ rfl
      apply ih hrows
      intro i hi k hk
      have hnext := h (i + 1) (by omega) k hk
      have hstart : columnAfter x (8 * row.length : ℕ) - UInt8.ofInt width = columnAfter x (8 * n - width) := by
        have hback : UInt8.ofInt (8 * n) = UInt8.ofInt (8 * n - width) + UInt8.ofInt width := by
          rw [← UInt8.ofInt_add, sub_add_cancel]
        rw [columnAfter, columnAfter, hrow, Nat.cast_mul, Nat.cast_ofNat, hback, ← UInt8.add_assoc,
          UInt8.add_sub_cancel]
      rw [hstart, columnAfter_add]
      convert hnext using 2
      push_cast
      ring
    · intro k hk
      have hfirst := h 0 (by omega) k (by omega)
      rwa [Nat.cast_zero, zero_mul, zero_add] at hfirst

/-- `GLCD_putChar` draws the character. -/
def IsDrawn (pfont : FontCfg) (x y : UInt8) : Prop :=
  (x.toNat : ℤ) < oledDisplayWidth - pfont.width ∧ (y.toNat : ℤ) < oledDisplayHeight - pfont.height

/-- The character is rejected, or does not reach the column behind the last one. -/
def CharAvoids (pfont : FontCfg) (x y : UInt8) : Prop :=
  IsDrawn pfont x y → ∀ i < pfont.height.toNat, RowAvoids pfont.width pfont.fontHrows x i

theorem putChar_keeps {font : ℤ → UInt8} {ch : UInt8} {pfont : FontCfg} (h : CharAvoids pfont x y) :
    (glcdPutChar fb bg font x y ch pfont).Within Keeps := by
  rw [glcdPutChar]
  by_cases hout : (x.toNat : ℤ) ≥ oledDisplayWidth - pfont.width ∨ (y.toNat : ℤ) ≥ oledDisplayHeight - pfont.height
  · rw [if_pos hout]
    exact Prog.within_pure
  · rw [if_neg hout]
    obtain ⟨hx, hy⟩ := not_or.mp hout
    apply Prog.within_bind
    · exact Prog.within_check
    intro _
    apply Prog.within_bind
    · apply putRows_keeps
      · intro row hrow
        obtain ⟨i, -, rfl⟩ := List.mem_map.mp hrow
        rw [List.length_map, List.length_range]
      · rw [charRows, List.length_map, List.length_range]
        exact h ⟨not_le.mp hx, not_le.mp hy⟩
    · exact fun _ => Prog.within_pure

theorem put5x7Rows_keeps (rows : List UInt8) (hx : x.toNat < oledDisplayWidth - 8) :
    (put5x7Rows fb bg rows x y).Within Keeps := by
  induction rows generalizing y with
  | nil => exact Prog.within_pure
  | cons data rows ih =>
    apply Prog.within_bind_answers (putBits_keeps data _ _) (putBits_answers data _)
    · rintro _ rfl
      have hback : columnAfter x (fontMask.take 6).length - 6 = x := UInt8.add_sub_cancel x 6
      rw [hback]
      exact ih
    · intro k hk heq
      have hlt : k < 6 := hk
      have hadd := congrArg UInt8.toNat heq
      have hk' : (UInt8.ofInt k).toNat = k := by
        have hmod := ofInt_mod k
        omega
      rw [columnAfter, UInt8.toNat_add, hk'] at hadd
      change (x.toNat + k) % 256 = 128 at hadd
      rw [oledDisplayWidth] at hx
      omega

theorem putChar5x7_keeps {font5x7 : UInt8 → List UInt8} {ch : UInt8} :
    (glcdPutChar5x7 fb bg font5x7 x y ch).Within Keeps := by
  rw [glcdPutChar5x7]
  by_cases hout : x.toNat ≥ oledDisplayWidth - 8 ∨ y.toNat ≥ oledDisplayHeight - 8
  · rw [if_pos hout]
    exact Prog.within_pure
  · rw [if_neg hout]
    obtain ⟨hx, -⟩ := not_or.mp hout
    apply Prog.within_bind (put5x7Rows_keeps _ (not_le.mp hx))
    exact fun _ => Prog.within_pure

theorem putChar_isDrawn {font : ℤ → UInt8} {ch : UInt8} {pfont : FontCfg} :
    (glcdPutChar fb bg font x y ch pfont).Answers fun b => b = true → IsDrawn pfont x y := by
  rw [glcdPutChar]
  by_cases hout : (x.toNat : ℤ) ≥ oledDisplayWidth - pfont.width ∨ (y.toNat : ℤ) ≥ oledDisplayHeight - pfont.height
  · rw [if_pos hout]
    exact Prog.answers_pure fun h => absurd h Bool.false_ne_true
  · obtain ⟨hx, hy⟩ := not_or.mp hout
    intro s b t _ _
    exact ⟨not_le.mp hx, not_le.mp hy⟩

/-- None of the characters that are drawn, up to the first one that is not, reaches the column behind the last one. -/
def StringAvoids (pfont : FontCfg) : List UInt8 → UInt8 → UInt8 → Prop
  | [], _, _ => True
  | _ :: pStr, x, y => CharAvoids pfont x y ∧ (IsDrawn pfont x y → StringAvoids pfont pStr (x + UInt8.ofInt pfont.width) y)

theorem putString_keeps {font5x7 : UInt8 → List UInt8} {pfont : FontCfg} (pStr : List UInt8)
    (h : pfont.font ≠ none → StringAvoids pfont pStr x y) :
    (glcdPutString fb bg font5x7 pfont pStr x y).Within Keeps := by
  induction pStr generalizing x with
  | nil => exact Prog.within_pure
  | cons ch pStr ih =>
    rw [glcdPutString]
    cases hfont : pfont.font with
    | none =>
      apply Prog.within_bind putChar5x7_keeps
      intro b
      apply Prog.within_ite (ih fun hne => absurd hfont hne)
      exact Prog.within_pure
    | some font =>
      obtain ⟨hch, hstr⟩ := h (by rw [hfont]; exact Option.some_ne_none font)
      apply Prog.within_bind_answers (putChar_keeps hch) putChar_isDrawn
      intro b hdrawn
      cases b with
      | false => exact Prog.within_pure
      | true => exact ih fun _ => hstr (hdrawn rfl)

end text

section run

theorem updateScreen_diverges : Diverges glcdUpdateScreen := by
  rintro s ⟨r, t, h⟩
  obtain ⟨_, u, -, h⟩ := Prog.returns_bind.mp h
  obtain ⟨bytes, v, h, -⟩ := Prog.returns_bind.mp h
  obtain ⟨b, w, h, -⟩ := Prog.returns_bind.mp h
  have hnone := Prog.returns_attempt.mp h
  rw [if_neg (by decide)] at hnone
  exact Option.some_ne_none _ hnone.symm

inductive Step
  | init
  | clearScreen (color : OledColor)
  | draw (c : Call) (color : OledColor)
  | putChar (fb bg : OledColor) (font : ℤ → UInt8) (x y ch : UInt8) (pfont : FontCfg)
  | putChar5x7 (fb bg : OledColor) (x y ch : UInt8)
  | putString (fb bg : OledColor) (pfont : FontCfg) (pStr : List UInt8) (x y : UInt8)
  | updateScreen

namespace Step

variable (font5x7 : UInt8 → List UInt8)

def run : Step → OledM Unit
  | init => glcdSsd1306Init
  | clearScreen color => glcdClearScreen color
  | draw c color => c.run color
  | putChar fb bg font x y ch pfont => do
    let _ ← glcdPutChar fb bg font x y ch pfont
    pure ()
  | putChar5x7 fb bg x y ch => do
    let _ ← glcdPutChar5x7 fb bg font5x7 x y ch
    pure ()
  | putString fb bg pfont pStr x y => glcdPutString fb bg font5x7 pfont pStr x y
  | updateScreen => glcdUpdateScreen

/-- The step is not the update, and does not draw into the column behind the last one. -/
def Avoids : Step → Prop
  | draw c _ => ∀ X Y : ℤ, c.shape X Y → c.guard X Y → ¬Strays (X, Y)
  | putChar _ _ _ x y _ pfont => CharAvoids pfont x y
  | putString _ _ pfont pStr x y => pfont.font ≠ none → StringAvoids pfont pStr x y
  | updateScreen => False
  | _ => True

variable {font5x7}

theorem run_keeps {step : Step} (h : step.Avoids) : (step.run font5x7).Within Keeps := by
  cases step with
  | init =>
    intro s r t hr _
    rw [← init_returns.mp hr]
    exact init_coherent
  | clearScreen color =>
    intro s r t hr _
    rw [← clearScreen_returns.mp hr]
    exact clearScreen_coherent
  | draw c color =>
    by_cases hends : c.LoopsEnd
    · obtain ⟨l, hl, hmem⟩ := Call.draws hends
      apply hl.keeps
      intro a ha
      obtain ⟨hshape, hguard⟩ := (hmem a).mp ha
      exact h _ _ hshape hguard
    · exact (Call.diverges hends).within
  | putChar fb bg font x y ch pfont => exact Prog.within_bind (putChar_keeps h) fun _ => Prog.within_pure
  | putChar5x7 fb bg x y ch => exact Prog.within_bind putChar5x7_keeps fun _ => Prog.within_pure
  | putString fb bg pfont pStr x y => exact putString_keeps pStr h
  | updateScreen => exact absurd h not_false

end Step

def runSteps (font5x7 : UInt8 → List UInt8) : List Step → OledM Unit
  | [] => pure ()
  | step :: steps => do
    step.run font5x7
    runSteps font5x7 steps

variable {font5x7 : UInt8 → List UInt8} {steps : List Step}

theorem runSteps_keeps (h : ∀ step ∈ steps, step.Avoids) : (runSteps font5x7 steps).Within Keeps := by
  induction steps with
  | nil => exact Prog.within_pure
  | cons step steps ih =>
    obtain ⟨hstep, hsteps⟩ := List.forall_mem_cons.mp h
    exact Prog.within_bind (Step.run_keeps hstep) fun _ => ih hsteps

/-- After the initialisation the display shows the frame buffer in every state that is reached by steps that
avoid the column behind the last one. -/
theorem run_shows_frame_buffer (h : ∀ step ∈ steps, step.Avoids)
    (hr : (do glcdSsd1306Init; runSteps font5x7 steps).Returns s () t) : t.Coherent := by
  obtain ⟨_, u, hinit, hsteps⟩ := Prog.returns_bind.mp hr
  apply runSteps_keeps h hsteps
  rw [← init_returns.mp hinit]
  exact init_coherent

def State.powerUp : State := ⟨fun _ => 0, 0, 0, fun _ _ => 0⟩

theorem run_shows_corner_pixel : (painted State.powerUp.initialised 127 63 .white).Coherent := by
  have hall : ∀ step ∈ [Step.draw (.putPixel 127 63) .white], step.Avoids := by
    intro step hstep
    rw [List.mem_singleton.mp hstep]
    rintro X Y ⟨rfl, rfl⟩ -
    exact fun h => absurd h.1 (by decide)
  have hinit : glcdSsd1306Init.Returns State.powerUp () State.powerUp.initialised := init_returns.mpr rfl
  have hpixel : (glcdPutPixel 127 63 .white).Returns State.powerUp.initialised ()
      (painted State.powerUp.initialised 127 63 .white) :=
    (putPixel_returns (by decide) (by decide)).mpr ⟨by decide, rfl⟩
  have hsteps : (runSteps (fun _ => []) [.draw (.putPixel 127 63) .white]).Returns State.powerUp.initialised ()
      (painted State.powerUp.initialised 127 63 .white) :=
    Prog.Returns.bind hpixel (Prog.returns_pure.mpr ⟨rfl, rfl⟩)
  exact run_shows_frame_buffer hall (hinit.bind hsteps)

theorem initialised_shadowFB {i : ℕ} (hi : i < shadowFbSize) : s.initialised.shadowFB i = 0 := if_pos hi

theorem painted_ram {p : ℕ} (hp : p ≠ min (y.toNat / 8) 7) :
    (painted s x y color).display.ram p = s.display.ram p := Function.update_of_ne hp _ _

theorem painted_shadowFB : (painted s x y color).shadowFB (pixelPos x y) =
    paint (pixelMask y) color (s.shadowFB (pixelPos x y)) := Function.update_self _ _ _

/-- A line in column 128 leaves a bit in the frame buffer that the display does not show. -/
theorem line_behind_last_column_strays : ∃ t, (do
    glcdSsd1306Init
    runSteps (fun _ => []) [.draw (.line 128 0 128 0) .white]).Returns State.powerUp () t ∧ ¬t.Coherent := by
  have hinit : glcdSsd1306Init.Returns State.powerUp () State.powerUp.initialised := init_returns.mpr rfl
  have hline : (glcdLine .white 128 0 128 0).Returns State.powerUp.initialised ()
      (painted State.powerUp.initialised 128 0 .white) := by
    have hdraws : Draws .white (glcdVLine .white 128 0 0) [(128, 0)] := vLine_draws (by decide)
    apply (hdraws _ _ _).mpr
    exact plotAll_returns.mpr ⟨fun a ha _ => by rw [List.mem_singleton.mp ha]; decide, rfl⟩
  have hsteps : (runSteps (fun _ => []) [.draw (.line 128 0 128 0) .white]).Returns State.powerUp.initialised ()
      (painted State.powerUp.initialised 128 0 .white) :=
    Prog.Returns.bind hline (Prog.returns_pure.mpr ⟨rfl, rfl⟩)
  refine ⟨_, hinit.bind hsteps, fun h => ?_⟩
  have hstray := h 1 (by decide) 0 (by decide)
  have hcoherent := init_coherent (s := State.powerUp) 1 (by decide) 0 (by decide)
  have hindex : 1 * oledDisplayWidth + 0 = pixelPos 128 0 := rfl
  have hzero : State.powerUp.initialised.shadowFB (pixelPos 128 0) = 0 := initialised_shadowFB (by decide)
  rw [painted_ram (by decide), hcoherent, hindex, painted_shadowFB, hzero] at hstray
  exact absurd hstray (by decide)

end run

end Lpc1788Libraries.Oled

import Lpc1788Libraries.Oled.Coherence
import Lpc1788Libraries.Oled.Painting

namespace Lpc1788Libraries.Oled

open Lpc1788Libraries.Support BoundedProgram

variable {s t : State} {fb bg b : OledColor} {x y : UInt8} {X Y : ℕ} {α β : Type}

/-- The pointer `font_param` is the memory behind it. The amount of characters, which no function here reads,
is left out, and the result is whether it is `SUCCESS`. -/
def glcdFontSetup (fontarray : Option (ℤ → UInt8)) (pfont : FontCfg) (fontParam : ℕ → UInt8) : Bool × FontCfg :=
  match fontarray with
  | none => (false, pfont)
  | some font =>
    let width := (fontParam 0).toNat
    let height := (fontParam 1).toNat
    let fontHrows := width / 8
    let fontHrows := if width % 8 ≠ 0 then fontHrows + 1 else fontHrows
    (true, ⟨some font, fontParam 2, height, width, fontHrows⟩)

section plots

/-- Points with their colors. -/
def drawn (l : List ((ℤ × ℤ) × OledColor)) (s : State) : State := l.foldl (fun s a => plotted a.2 s a.1) s

/-- The program has the answer `a` after plotting the points of the list, or no result where one of them is
outside of the frame buffer. -/
def Puts (p : OledM α) (a : α) (l : List ((ℤ × ℤ) × OledColor)) : Prop :=
  ∀ s b t, p.Returns s b t ↔ b = a ∧ (∀ q ∈ l, Passes q.1 → landing q.1 < shadowFbSize) ∧ drawn l s = t

theorem puts_pure (a : α) : Puts (pure a) a [] := by
  intro s b t
  rw [Prog.returns_pure]
  constructor
  · rintro ⟨rfl, rfl⟩
    exact ⟨rfl, fun q hq => absurd hq List.not_mem_nil, rfl⟩
  · rintro ⟨rfl, -, rfl⟩
    exact ⟨rfl, rfl⟩

theorem Puts.bind {p : OledM α} {a : α} {f : α → OledM β} {c : β} {l l' : List ((ℤ × ℤ) × OledColor)} (hp : Puts p a l)
    (hf : Puts (f a) c l') : Puts (p >>= f) c (l ++ l') := by
  intro s d t
  rw [Prog.returns_bind, List.forall_mem_append, drawn, List.foldl_append]
  constructor
  · rintro ⟨a', u, ha, hd⟩
    obtain ⟨rfl, hin, rfl⟩ := (hp _ _ _).mp ha
    obtain ⟨rfl, hin', rfl⟩ := (hf _ _ _).mp hd
    exact ⟨rfl, ⟨hin, hin'⟩, rfl⟩
  · rintro ⟨rfl, ⟨hin, hin'⟩, rfl⟩
    exact ⟨a, _, (hp _ _ _).mpr ⟨rfl, hin, rfl⟩, (hf _ _ _).mpr ⟨rfl, hin', rfl⟩⟩

theorem puts_putPixel : Puts (glcdPutPixel x y b) () [((↑x.toNat, ↑y.toNat), b)] := by
  intro s r t
  have hplot := @plot_returns s t b r (↑x.toNat, ↑y.toNat)
  rw [plot, ofInt_toNat, ofInt_toNat] at hplot
  rw [hplot, List.forall_mem_singleton]
  exact (and_iff_right (Subsingleton.elim r ())).symm

theorem drawn_pixel {l : List ((ℤ × ℤ) × OledColor)} (hX : X < 128)
    (hsame : ∀ a ∈ l, Passes a.1 → Lands a.1 X Y → a.2 = b) : (drawn l s).pixel X Y =
      if ∃ a ∈ l, Passes a.1 ∧ Lands a.1 X Y then decide (b = .white) else s.pixel X Y := by
  induction l generalizing s with
  | nil => simp only [drawn, List.foldl_nil, List.not_mem_nil, false_and, exists_false, if_false]
  | cons a l ih =>
    obtain ⟨ha, hl⟩ := List.forall_mem_cons.mp hsame
    have hrest := @ih (plotted a.2 s a.1) hl
    rw [drawn] at hrest
    rw [drawn, List.foldl_cons, hrest, plotted_pixel hX]
    simp only [List.mem_cons, exists_eq_or_imp]
    by_cases hlast : ∃ a ∈ l, Passes a.1 ∧ Lands a.1 X Y
    · rw [if_pos hlast, if_pos (Or.inr hlast)]
    · rw [if_neg hlast]
      by_cases hfirst : Passes a.1 ∧ Lands a.1 X Y
      · rw [if_pos hfirst, if_pos (Or.inl hfirst), ha hfirst.1 hfirst.2]
      · rw [if_neg hfirst, if_neg (not_or.mpr ⟨hfirst, hlast⟩)]

theorem drawn_elsewhere {l : List ((ℤ × ℤ) × OledColor)} (hX : X < 128)
    (hnone : ∀ a ∈ l, Passes a.1 → ¬Lands a.1 X Y) : (drawn l s).pixel X Y = s.pixel X Y := by
  have hpixel := @drawn_pixel s .black X Y l hX fun a ha hpasses hlands => absurd hlands (hnone a ha hpasses)
  rw [hpixel, if_neg]
  rintro ⟨a, ha, hpasses, hlands⟩
  exact hnone a ha hpasses hlands

theorem lands_toNat (hx : x.toNat ≤ 128) (hy : y.toNat < 64) : Lands (↑x.toNat, ↑y.toNat) X Y ↔
    x.toNat < 128 ∧ X = x.toNat ∧ Y = y.toNat ∨ x.toNat = 128 ∧ X = 0 ∧ Y = y.toNat + 8 := by
  rw [Lands, landing, ofInt_toNat, ofInt_toNat, pixelPos_eq (by omega)]
  omega

theorem passes_toNat : Passes (↑x.toNat, ↑y.toNat) ↔ x.toNat ≤ 128 ∧ y.toNat ≤ 64 := by
  rw [Passes, ofInt_toNat, ofInt_toNat]

theorem columnAfter_toNat {k : ℕ} (h : x.toNat + k < 256) : (columnAfter x k).toNat = x.toNat + k := by
  have hk := ofInt_mod k
  rw [columnAfter, UInt8.toNat_add]
  omega

end plots

section rows

variable {data : UInt8} {bytes row : List UInt8} {rows : List (List UInt8)} {width : ℤ}

theorem fontMask_bit {c : ℕ} (hc : c < 8) : data &&& fontMask.getD c 0 = 0 ↔ data.toNat.testBit (7 - c) = false := by
  have hmask : (fontMask.getD c 0).toNat = 2 ^ (7 - c) := by
    revert c
    decide
  rw [← UInt8.toNat_inj, UInt8.toNat_and, hmask, Nat.and_two_pow]
  cases data.toNat.testBit (7 - c) <;> simp

theorem putBits_puts (masks : List UInt8) : Puts (putBits fb bg y data masks x) (columnAfter x masks.length)
    ((List.range masks.length).map fun (c : ℕ) =>
      ((↑(columnAfter x c).toNat, ↑y.toNat), if data &&& masks.getD c 0 = 0 then bg else fb)) := by
  induction masks generalizing x with
  | nil =>
    rw [List.length_nil, Nat.cast_zero, columnAfter_zero]
    exact puts_pure x
  | cons mask masks ih =>
    have hstep (c : ℕ) : columnAfter (x + 1) c = columnAfter x (c + 1 : ℕ) := by
      rw [← columnAfter_one, columnAfter_add, Nat.cast_succ, add_comm]
    have hrest := @ih (x + 1)
    simp only [hstep] at hrest
    have hall := (@puts_putPixel (if data &&& mask = 0 then bg else fb) x y).bind (f := fun _ => putBits fb bg y data masks (x + 1)) hrest
    rw [List.length_cons, List.range_succ_eq_map, List.map_cons, List.map_map]
    rw [Nat.cast_zero, columnAfter_zero]
    exact hall

/-- The color of a place in a row of bytes, of which the first bit is the most significant one. -/
def rowColor (fb bg : OledColor) (row : List UInt8) (c : ℕ) : OledColor :=
  if (row.getD (c / 8) 0).toNat.testBit (7 - c % 8) then fb else bg

def rowPlots (fb bg : OledColor) (x y : UInt8) (row : List UInt8) : List ((ℤ × ℤ) × OledColor) :=
  (List.range (8 * row.length)).map fun (c : ℕ) => ((↑(columnAfter x c).toNat, ↑y.toNat), rowColor fb bg row c)

theorem putByte_puts : Puts (putBits fb bg y data fontMask x) (columnAfter x 8) (rowPlots fb bg x y [data]) := by
  have hbits := @putBits_puts fb bg x y data fontMask
  have hlist : (List.range fontMask.length).map (fun (c : ℕ) => (((↑(columnAfter x c).toNat, ↑y.toNat) : ℤ × ℤ),
      if data &&& fontMask.getD c 0 = 0 then bg else fb)) = rowPlots fb bg x y [data] := by
    apply List.map_congr_left
    intro c hc
    have hc' : c < 8 := List.mem_range.mp hc
    have hdiv : c / 8 = 0 := Nat.div_eq_of_lt hc'
    rw [rowColor, hdiv, Nat.mod_eq_of_lt hc', List.getD_cons_zero]
    simp only [fontMask_bit hc']
    cases data.toNat.testBit (7 - c) <;> rfl
  rwa [hlist] at hbits

theorem rowPlots_cons : rowPlots fb bg x y (data :: bytes) =
    rowPlots fb bg x y [data] ++ rowPlots fb bg (columnAfter x 8) y bytes := by
  have hlength : 8 * (data :: bytes).length = 8 * [data].length + 8 * bytes.length := by
    rw [List.length_cons, List.length_singleton]
    omega
  rw [rowPlots, hlength, List.range_add, List.map_append, List.map_map]
  apply congrArg₂
  · apply List.map_congr_left
    intro c hc
    have hc' : c < 8 := List.mem_range.mp hc
    rw [rowColor, rowColor, Nat.div_eq_of_lt hc', List.getD_cons_zero, List.getD_cons_zero]
  · apply List.map_congr_left
    intro c _
    have hdiv : (8 * [data].length + c) / 8 = c / 8 + 1 := by
      rw [List.length_singleton]
      omega
    have hmod : (8 * [data].length + c) % 8 = c % 8 := by
      rw [List.length_singleton]
      omega
    have hcolumn : columnAfter x ((8 * [data].length + c : ℕ) : ℤ) = columnAfter (columnAfter x 8) c := by
      rw [columnAfter_add, List.length_singleton]
      push_cast
      rfl
    simp only [Function.comp, hcolumn, rowColor, hdiv, hmod, List.getD_cons_succ]

theorem putBytes_puts : Puts (putBytes fb bg y bytes x) (columnAfter x (8 * bytes.length : ℕ)) (rowPlots fb bg x y bytes) := by
  induction bytes generalizing x with
  | nil =>
    rw [List.length_nil, Nat.mul_zero, Nat.cast_zero, columnAfter_zero]
    exact puts_pure x
  | cons data bytes ih =>
    have hend : columnAfter x (8 * (data :: bytes).length : ℕ) = columnAfter (columnAfter x 8) (8 * bytes.length : ℕ) := by
      rw [columnAfter_add, List.length_cons]
      congr 1
      push_cast
      ring
    rw [rowPlots_cons, hend]
    exact putByte_puts.bind ih

def charPlots (fb bg : OledColor) (width : ℤ) : List (List UInt8) → UInt8 → UInt8 → List ((ℤ × ℤ) × OledColor)
  | [], _, _ => []
  | row :: rows, x, y => rowPlots fb bg x y row ++
      charPlots fb bg width rows (columnAfter x (8 * row.length : ℕ) - UInt8.ofInt width) (y + 1)

theorem putRows_puts : Puts (putRows fb bg width rows x y) () (charPlots fb bg width rows x y) := by
  induction rows generalizing x y with
  | nil => exact puts_pure ()
  | cons row rows ih => exact putBytes_puts.bind ih

end rows

section glyph

variable {font : ℤ → UInt8} {ch : UInt8} {pfont : FontCfg} {rows : List (List UInt8)} {row : List UInt8} {n : ℕ}
  {a : (ℤ × ℤ) × OledColor}

theorem mem_rowPlots : a ∈ rowPlots fb bg x y row ↔
    ∃ c < 8 * row.length, a = ((↑(columnAfter x c).toNat, ↑y.toNat), rowColor fb bg row c) := by
  rw [rowPlots, List.mem_map]
  simp only [List.mem_range, eq_comm]

theorem columnAfter_succ (k : ℕ) : columnAfter (x + 1) k = columnAfter x (k + 1 : ℕ) := by
  rw [← columnAfter_one, columnAfter_add, Nat.cast_succ, add_comm]

theorem columnAfter_back (k : ℤ) : columnAfter x k - UInt8.ofInt k = x := by
  rw [columnAfter, UInt8.add_sub_cancel]

theorem mem_charPlots (hrows : ∀ row ∈ rows, row.length = n) : a ∈ charPlots fb bg (8 * n : ℕ) rows x y ↔
    ∃ r < rows.length, a ∈ rowPlots fb bg x (columnAfter y r) (rows.getD r []) := by
  induction rows generalizing y with
  | nil => exact ⟨fun h => absurd h List.not_mem_nil, fun ⟨r, hr, _⟩ => absurd hr (Nat.not_lt_zero r)⟩
  | cons row rows ih =>
    obtain ⟨hrow, hrest⟩ := List.forall_mem_cons.mp hrows
    rw [charPlots, List.mem_append, hrow, columnAfter_back, ih hrest]
    constructor
    · rintro (h | ⟨r, hr, h⟩)
      · refine ⟨0, Nat.succ_pos _, ?_⟩
        rw [Nat.cast_zero, columnAfter_zero]
        exact h
      · rw [columnAfter_succ] at h
        exact ⟨r + 1, Nat.succ_lt_succ hr, h⟩
    · rintro ⟨r, hr, h⟩
      cases r with
      | zero =>
        rw [Nat.cast_zero, columnAfter_zero] at h
        exact Or.inl h
      | succ r =>
        right
        refine ⟨r, Nat.lt_of_succ_lt_succ hr, ?_⟩
        rw [columnAfter_succ]
        exact h

theorem charPlots_below {width : ℤ} (h : a ∈ charPlots fb bg width rows x y) :
    ∃ x' : UInt8, ∃ i < rows.length, a.1 = (↑x'.toNat, ↑(columnAfter y i).toNat) := by
  induction rows generalizing x y with
  | nil => exact absurd h List.not_mem_nil
  | cons row rows ih =>
    rw [charPlots, List.mem_append] at h
    rcases h with h | h
    · obtain ⟨c, -, rfl⟩ := mem_rowPlots.mp h
      refine ⟨columnAfter x c, 0, Nat.succ_pos _, ?_⟩
      rw [Nat.cast_zero, columnAfter_zero]
    · obtain ⟨x', i, hi, heq⟩ := ih h
      rw [columnAfter_succ] at heq
      exact ⟨x', i + 1, Nat.succ_lt_succ hi, heq⟩

/-- The bits of a glyph, row by row and the most significant bit of each byte first. -/
def glyphBit (font : ℤ → UInt8) (pfont : FontCfg) (ch : UInt8) (r c : ℕ) : Bool :=
  (font (((ch.toNat : ℤ) - pfont.firstchar.toNat) * pfont.height * pfont.fontHrows + (r * pfont.fontHrows + (c / 8 : ℕ)))).toNat.testBit
    (7 - c % 8)

theorem charRows_length : (charRows font pfont ch).length = pfont.height.toNat := by
  rw [charRows, List.length_map, List.length_range]

theorem charRows_row (row : List UInt8) (h : row ∈ charRows font pfont ch) : row.length = pfont.fontHrows := by
  obtain ⟨i, -, rfl⟩ := List.mem_map.mp h
  rw [List.length_map, List.length_range]

theorem charRows_color {r c : ℕ} (hr : r < pfont.height.toNat) (hc : c < 8 * pfont.fontHrows) :
    rowColor fb bg ((charRows font pfont ch).getD r []) c = if glyphBit font pfont ch r c then fb else bg := by
  have hdiv : c / 8 < pfont.fontHrows := by omega
  have hrow : ((charRows font pfont ch).getD r []).getD (c / 8) 0 =
      font (((ch.toNat : ℤ) - pfont.firstchar.toNat) * pfont.height * pfont.fontHrows + (r * pfont.fontHrows + (c / 8 : ℕ))) := by
    simp only [charRows, List.getD_eq_getElem?_getD, List.getElem?_map, List.getElem?_range hr, Option.map_some,
      Option.getD_some, List.getElem?_range hdiv]
  rw [rowColor, hrow]
  rfl

/-- What a character should do: it is drawn as a whole or not at all. -/
def DrawsGlyph (fb bg : OledColor) (font : ℤ → UInt8) (x y ch : UInt8) (pfont : FontCfg) : Prop :=
  ∀ s, (glcdPutChar fb bg font x y ch pfont).Achieves s fun b t =>
    (b = true →
      (∀ r c : ℕ, r < pfont.height → c < pfont.width → t.pixel (x.toNat + c) (y.toNat + r) =
        decide ((if glyphBit font pfont ch r c then fb else bg) = .white)) ∧
      ∀ X Y : ℕ, X < oledDisplayWidth → Y < oledDisplayHeight →
        ¬(x.toNat ≤ X ∧ X < x.toNat + pfont.width ∧ y.toNat ≤ Y ∧ Y < y.toNat + pfont.height) → t.pixel X Y = s.pixel X Y) ∧
    (b = false → ∀ X Y : ℕ, t.pixel X Y = s.pixel X Y)

/-- The first test of `GLCD_putChar`. -/
def Rejected (pfont : FontCfg) (x y : UInt8) : Prop :=
  (x.toNat : ℤ) ≥ oledDisplayWidth - pfont.width ∨ (y.toNat : ℤ) ≥ oledDisplayHeight - pfont.height

theorem drawsGlyph_rejected (h : Rejected pfont x y) : DrawsGlyph fb bg font x y ch pfont := by
  intro s
  unfold Rejected at h
  rw [glcdPutChar, if_pos h]
  exact Prog.achieves_pure ⟨fun hb => absurd hb Bool.false_ne_true, fun _ _ _ => rfl⟩

theorem putChar_returns {r : Bool} (h : ¬Rejected pfont x y) (hrows : pfont.fontHrows ≤ 255) :
    (glcdPutChar fb bg font x y ch pfont).Returns s r t ↔ r = true ∧
      (∀ q ∈ charPlots fb bg pfont.width (charRows font pfont ch) x y, Passes q.1 → landing q.1 < shadowFbSize) ∧
      drawn (charPlots fb bg pfont.width (charRows font pfont ch) x y) s = t := by
  unfold Rejected at h
  rw [glcdPutChar, if_neg h, Prog.check_bind_returns, and_iff_right (Or.inl hrows)]
  have hputs := (@putRows_puts fb bg x y (charRows font pfont ch) pfont.width).bind (f := fun _ => pure true) (puts_pure true)
  rw [List.append_nil] at hputs
  exact hputs s r t

/-- A glyph of whole bytes that fits on the screen. -/
structure Aligned (pfont : FontCfg) (x y : UInt8) : Prop where
  width : pfont.width = (8 * pfont.fontHrows : ℕ)
  height : 0 ≤ pfont.height
  column : x.toNat + 8 * pfont.fontHrows < 128
  row : y.toNat + pfont.height.toNat < 64

theorem Aligned.mem (h : Aligned pfont x y) : a ∈ charPlots fb bg pfont.width (charRows font pfont ch) x y ↔
    ∃ r < pfont.height.toNat, ∃ c < 8 * pfont.fontHrows,
      a = ((((x.toNat + c : ℕ) : ℤ), ((y.toNat + r : ℕ) : ℤ)), if glyphBit font pfont ch r c then fb else bg) := by
  have hcolumn := h.column
  have hlast := h.row
  rw [h.width, mem_charPlots charRows_row, charRows_length]
  apply exists_congr
  intro r
  apply and_congr_right
  intro hr
  have hrow : ((charRows font pfont ch).getD r []).length = pfont.fontHrows := by
    apply charRows_row
    rw [List.getD_eq_getElem _ _ (by rwa [charRows_length])]
    exact List.getElem_mem _
  rw [mem_rowPlots, hrow]
  apply exists_congr
  intro c
  apply and_congr_right
  intro hc
  rw [columnAfter_toNat (by omega), columnAfter_toNat (by omega), charRows_color hr hc]

theorem Aligned.passes (h : Aligned pfont x y) {r c : ℕ} (hr : r < pfont.height.toNat) (hc : c < 8 * pfont.fontHrows) :
    Passes (((x.toNat + c : ℕ) : ℤ), ((y.toNat + r : ℕ) : ℤ)) := by
  have hcolumn := h.column
  have hrow := h.row
  exact passes_onScreen (by omega) (by omega)

theorem Aligned.lands (h : Aligned pfont x y) {r c : ℕ} (hr : r < pfont.height.toNat) (hc : c < 8 * pfont.fontHrows) :
    Lands (((x.toNat + c : ℕ) : ℤ), ((y.toNat + r : ℕ) : ℤ)) X Y ↔ X = x.toNat + c ∧ Y = y.toNat + r := by
  have hcolumn := h.column
  have hrow := h.row
  have hx := @columnAfter_toNat x c (by omega)
  have hy := @columnAfter_toNat y r (by omega)
  rw [← hx, ← hy, lands_toNat (by omega) (by omega)]
  omega

theorem drawsGlyph_aligned (hnot : ¬Rejected pfont x y) (h : Aligned pfont x y) : DrawsGlyph fb bg font x y ch pfont := by
  have hcolumn := h.column
  have hrow := h.row
  have hheight := h.height
  have hwidth := h.width
  intro s
  refine ⟨true, _, (putChar_returns hnot (by omega)).mpr ⟨rfl, fun q hq hpasses => ?_, rfl⟩, fun _ => ⟨?_, ?_⟩,
    fun hb => absurd hb.symm Bool.false_ne_true⟩
  · obtain ⟨r, hr, c, hc, rfl⟩ := h.mem.mp hq
    have hplace := (h.lands hr hc).mpr ⟨rfl, rfl⟩
    have hY := hplace.2
    rw [shadowFbSize]
    dsimp only at hY ⊢
    omega
  · intro r c hr hc
    have hr' : r < pfont.height.toNat := by omega
    have hc' : c < 8 * pfont.fontHrows := by omega
    rw [drawn_pixel (by omega), if_pos]
    · exact ⟨_, h.mem.mpr ⟨r, hr', c, hc', rfl⟩, h.passes hr' hc', (h.lands hr' hc').mpr ⟨rfl, rfl⟩⟩
    · intro q hq _ hlands
      obtain ⟨r', hr', c', hc', rfl⟩ := h.mem.mp hq
      have hplace := (h.lands hr' hc').mp hlands
      rw [show c' = c by omega, show r' = r by omega]
  · intro X Y hX _ hout
    apply drawn_elsewhere hX
    intro q hq _ hlands
    obtain ⟨r, hr, c, hc, rfl⟩ := h.mem.mp hq
    have hplace := (h.lands hr hc).mp hlands
    apply hout
    omega

theorem not_drawsGlyph_overhang {k : ℕ} (hnot : ¬Rejected pfont x y) (hk : 0 < k) (hwidth : pfont.width = k)
    (hover : k < 8 * pfont.fontHrows)
    (hend : 8 * pfont.fontHrows < k + 8) (hheight : 0 < pfont.height) :
    ¬DrawsGlyph fb bg font x y ch pfont := by
  intro h
  have hin := hnot
  unfold Rejected oledDisplayWidth oledDisplayHeight at hin
  have hlength := @charRows_length font ch pfont
  obtain ⟨row, rows, hrows⟩ := List.exists_cons_of_length_pos (show 0 < (charRows font pfont ch).length by omega)
  have hrow := @charRows_row font ch pfont row (by rw [hrows]; exact List.mem_cons_self)
  rw [hrows, List.length_cons] at hlength
  obtain ⟨r, t, hr, ht, -⟩ := h (inverse (rowColor fb bg row k))
  obtain ⟨htrue, -, rfl⟩ := (putChar_returns hnot (by omega)).mp hr
  have hkept := (ht htrue).2 (x.toNat + k) y.toNat (by unfold oledDisplayWidth; omega) (by unfold oledDisplayHeight; omega)
    (by omega)
  rw [hrows, charPlots, inverse_pixel, drawn_pixel (b := rowColor fb bg row k) (by omega), if_pos] at hkept
  · exact absurd hkept.symm (Bool.not_ne_self _)
  · refine ⟨_, List.mem_append_left _ (mem_rowPlots.mpr ⟨k, by omega, rfl⟩), ?_, ?_⟩
    · rw [passes_toNat, columnAfter_toNat (by omega)]
      omega
    · rw [lands_toNat, columnAfter_toNat (by omega)]
      · omega
      · rw [columnAfter_toNat (by omega)]
        omega
      · omega
  · intro a ha hpasses hlands
    rcases List.mem_append.mp ha with ha | ha
    · obtain ⟨c, hc, rfl⟩ := mem_rowPlots.mp ha
      rw [passes_toNat] at hpasses
      rw [lands_toNat hpasses.1 (by omega), columnAfter_toNat (by omega)] at hlands
      rw [show c = k by omega]
    · obtain ⟨x', i, hi, heq⟩ := charPlots_below ha
      rw [columnAfter_succ] at heq
      rw [heq] at hpasses hlands
      have hbelow := @columnAfter_toNat y (i + 1) (by omega)
      rw [passes_toNat] at hpasses
      rw [lands_toNat hpasses.1 (by omega)] at hlands
      omega

theorem drawsGlyph_flat (hnot : ¬Rejected pfont x y) (hrows : pfont.fontHrows ≤ 255) (hheight : pfont.height = 0) :
    DrawsGlyph fb bg font x y ch pfont := by
  have hempty : charRows font pfont ch = [] := by
    rw [charRows, hheight]
    rfl
  intro s
  refine ⟨true, s, (putChar_returns hnot hrows).mpr ?_, fun _ => ⟨fun r _ hr => ?_, fun _ _ _ _ _ => rfl⟩,
    fun hb => absurd hb.symm Bool.false_ne_true⟩
  · rw [hempty]
    exact ⟨rfl, fun q hq => absurd hq List.not_mem_nil, rfl⟩
  · omega

end glyph

section setup

variable {font : ℤ → UInt8} {ch : UInt8} {pfont : FontCfg} {fontParam : ℕ → UInt8}

/-- The font that `GLCD_FontSetup` leaves. -/
def configured (font : ℤ → UInt8) (pfont : FontCfg) (fontParam : ℕ → UInt8) : FontCfg :=
  (glcdFontSetup (some font) pfont fontParam).2

theorem configured_rows : (configured font pfont fontParam).fontHrows =
    (fontParam 0).toNat / 8 + if (fontParam 0).toNat % 8 ≠ 0 then 1 else 0 := by
  unfold configured glcdFontSetup
  dsimp only
  split_ifs <;> rfl

theorem rejected_configured : Rejected (configured font pfont fontParam) x y ↔
    oledDisplayWidth ≤ x.toNat + (fontParam 0).toNat ∨ oledDisplayHeight ≤ y.toNat + (fontParam 1).toNat := by
  have hwidth : (configured font pfont fontParam).width = (fontParam 0).toNat := rfl
  have hheight : (configured font pfont fontParam).height = (fontParam 1).toNat := rfl
  rw [Rejected, hwidth, hheight]
  omega

/-- A glyph is drawn as it should be exactly when its rows are whole bytes, it has no rows or it is rejected. -/
theorem putChar_draws_iff : DrawsGlyph fb bg font x y ch (configured font pfont fontParam) ↔
    (fontParam 0).toNat % 8 = 0 ∨ fontParam 1 = 0 ∨
      oledDisplayWidth ≤ x.toNat + (fontParam 0).toNat ∨ oledDisplayHeight ≤ y.toNat + (fontParam 1).toNat := by
  have hwidth : (configured font pfont fontParam).width = (fontParam 0).toNat := rfl
  have hheight : (configured font pfont fontParam).height = (fontParam 1).toNat := rfl
  have hrows := @configured_rows font pfont fontParam
  have hzero : fontParam 1 = 0 ↔ (fontParam 1).toNat = 0 := by
    rw [← UInt8.toNat_inj]
    rfl
  by_cases hreject : Rejected (configured font pfont fontParam) x y
  · exact iff_of_true (drawsGlyph_rejected hreject) (Or.inr (Or.inr (rejected_configured.mp hreject)))
  have hin := mt rejected_configured.mpr hreject
  have hparam := (fontParam 0).toNat_lt
  rw [hzero]
  by_cases hflat : (fontParam 1).toNat = 0
  · exact iff_of_true (drawsGlyph_flat hreject (by split_ifs at hrows <;> omega) (by omega)) (Or.inr (Or.inl hflat))
  by_cases hbytes : (fontParam 0).toNat % 8 = 0
  · refine iff_of_true (drawsGlyph_aligned hreject ?_) (Or.inl hbytes)
    unfold oledDisplayWidth oledDisplayHeight at hin
    rw [if_neg (not_not_intro hbytes)] at hrows
    constructor <;> omega
  · rw [if_pos hbytes] at hrows
    refine iff_of_false (not_drawsGlyph_overhang hreject (k := (fontParam 0).toNat) ?_ hwidth ?_ ?_ ?_) ?_
    all_goals omega

/-- A font with the parameters of a 5x7 one. -/
def fiveWide : ℕ → UInt8
  | 0 => 5
  | 1 => 7
  | 2 => 32
  | _ => 96

/-- Of a glyph with 5 columns the column behind it changes too. -/
theorem putChar_five_wide : ¬∀ (fb bg : OledColor) (font : ℤ → UInt8) (pfont : FontCfg) (fontParam : ℕ → UInt8)
    (x y ch : UInt8), DrawsGlyph fb bg font x y ch (configured font pfont fontParam) := by
  intro h
  refine not_drawsGlyph_overhang (k := 5) ?_ ?_ ?_ ?_ ?_ ?_
    (h .white .black (fun _ => 0) ⟨none, 0, 0, 0, 0⟩ fiveWide 0 0 32)
  · rw [rejected_configured]
    decide
  all_goals decide

end setup

end Lpc1788Libraries.Oled

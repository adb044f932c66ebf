import Lpc1788Libraries.Cli.CliSave
import Mathlib.Data.List.TakeWhile

namespace Lpc1788Libraries.Cli

open Lpc1788Libraries.Support BoundedProgram BoundedProgram.Prog

section splitting

/-- The word at the start of a text and the text that is left behind it. -/
def cutWord (quoteFlag : Bool) (text : List UInt8) : List UInt8 × List UInt8 :=
  if quoteFlag then (text.takeWhile (· ≠ 0x22), (text.dropWhile (· ≠ 0x22)).tail.dropWhile (· ≠ 0x20))
  else (text.takeWhile (· ≠ 0x20), text.dropWhile (· ≠ 0x20))

/-- The argument at the start of a text that does not begin with a space, the quote flag behind it and
the text that is left. -/
def nextArg (quoteFlag : Bool) (text : List UInt8) : List UInt8 × Bool × List UInt8 :=
  if text.head? = some 0x22 then ((cutWord true text.tail).1, true, (cutWord true text.tail).2)
  else ((cutWord quoteFlag text).1, quoteFlag, (cutWord quoteFlag text).2)

variable {q : Bool} {c : UInt8} {l text : List UInt8}

theorem cutWord_length : (cutWord q text).2.length ≤ text.length := by
  have hdrop : ∀ (p : UInt8 → Bool) (l : List UInt8), (l.dropWhile p).length ≤ l.length := List.length_dropWhile_le
  unfold cutWord
  split
  · have hend := hdrop (· ≠ 0x20) (text.dropWhile (· ≠ 0x22)).tail
    have hquote := hdrop (· ≠ 0x22) text
    rw [List.length_tail] at hend
    dsimp only
    omega
  · exact hdrop _ _

theorem cutWord_cons (hc : c ≠ 0x20) (hq : c ≠ 0x22) : (cutWord q (c :: l)).2 = (cutWord q l).2 := by
  cases q with
  | true => simp [cutWord, hq]
  | false => simp [cutWord, hc]

theorem nextArg_quote : nextArg q (0x22 :: text) = ((cutWord true text).1, true, (cutWord true text).2) := if_pos rfl

theorem nextArg_word (h : text.head? ≠ some 0x22) : nextArg q text = ((cutWord q text).1, q, (cutWord q text).2) := if_neg h

theorem nextArg_length (hc : c ≠ 0x20) : (nextArg q (c :: l)).2.2.length < (c :: l).length := by
  unfold nextArg
  split
  · exact Nat.lt_succ_of_le cutWord_length
  · next hhead =>
    have hq : c ≠ 0x22 := fun h => hhead (congrArg some h)
    change (cutWord q (c :: l)).2.length < l.length + 1
    rw [cutWord_cons hc hq]
    exact Nat.lt_succ_of_le cutWord_length

theorem cutWord_head : ∀ x ∈ (cutWord q text).2.head?, x = 0x20 := by
  have hdrop : ∀ l : List UInt8, ∀ x ∈ (l.dropWhile (· ≠ 0x20)).head?, x = 0x20 := by
    intro l x hx
    have hhead := List.head?_dropWhile_not (· ≠ (0x20 : UInt8)) l
    rw [Option.mem_def.mp hx] at hhead
    simpa using hhead
  unfold cutWord
  split
  · exact hdrop _
  · exact hdrop _

/-- The arguments that `cli_cmd_line_to_args` makes of a text. -/
def splitArgs (quoteFlag : Bool) (text : List UInt8) : List (List UInt8) :=
  match h : text.dropWhile (· = 0x20) with
  | [] => []
  | c :: l =>
    have hc : c ≠ 0x20 := by
      have hhead := List.head?_dropWhile_not (· = (0x20 : UInt8)) text
      rw [h] at hhead
      simpa using hhead
    have hlt : (nextArg quoteFlag (c :: l)).2.2.length < text.length := by
      have hle : (c :: l).length ≤ text.length := h ▸ List.length_dropWhile_le _ text
      exact Nat.lt_of_lt_of_le (nextArg_length hc) hle
    (nextArg quoteFlag (c :: l)).1 :: splitArgs (nextArg quoteFlag (c :: l)).2.1 (nextArg quoteFlag (c :: l)).2.2
termination_by text.length

theorem splitArgs_nil (h : text.dropWhile (· = 0x20) = []) : splitArgs q text = [] := by
  rw [splitArgs]
  split
  · rfl
  · next h' => rw [h] at h'; exact absurd h' (by simp)

theorem splitArgs_cons (h : text.dropWhile (· = 0x20) = c :: l) :
    splitArgs q text = (nextArg q (c :: l)).1 :: splitArgs (nextArg q (c :: l)).2.1 (nextArg q (c :: l)).2.2 := by
  rw [splitArgs]
  split
  · next h' => rw [h] at h'; exact absurd h' (by simp)
  · next h' =>
    rw [h] at h'
    obtain ⟨rfl, rfl⟩ := List.cons.inj h'
    rfl

end splitting

section scanning

variable {cfg : Config} {s t : CliState} {p : ℕ} {x c : UInt8} {text l a b : List UInt8}

/-- The zero terminated string at a place of the line buffer. -/
structure LineAt (cfg : Config) (s : CliState) (p : ℕ) (text : List UInt8) : Prop where
  chars : ∀ k (hk : k < text.length), s.lineBuf (p + k) = text[k]
  stop : s.lineBuf (p + text.length) = 0
  nonzero : 0 ∉ text
  lt : p + text.length < cfg.lineLengthMax

theorem LineAt.right (h : LineAt cfg s p (a ++ b)) : LineAt cfg s (p + a.length) b := by
  have hstop := h.stop
  have hlt := h.lt
  rw [List.length_append] at hstop hlt
  constructor
  · intro k hk
    have hchar := h.chars (a.length + k) (by rw [List.length_append]; omega)
    rw [List.getElem_append_right (Nat.le_add_right _ _)] at hchar
    rw [Nat.add_assoc, hchar]
    congr 1
    omega
  · rwa [Nat.add_assoc]
  · exact fun hz => h.nonzero (List.mem_append_right _ hz)
  · omega

theorem LineAt.tail (h : LineAt cfg s p (c :: l)) : LineAt cfg s (p + 1) l :=
  LineAt.right (a := [c]) h

theorem LineAt.head (h : LineAt cfg s p (c :: l)) : s.lineBuf p = c := h.chars 0 (Nat.succ_pos _)

theorem LineAt.nil (h : LineAt cfg s p []) : s.lineBuf p = 0 := h.stop

theorem LineAt.ne_zero (h : LineAt cfg s p (c :: l)) : c ≠ 0 := by
  rintro rfl
  exact h.nonzero List.mem_cons_self

theorem LineAt.congr (h : LineAt cfg s p text) (heq : ∀ k, p ≤ k → t.lineBuf k = s.lineBuf k) :
    LineAt cfg t p text := by
  refine ⟨fun k hk => ?_, ?_, h.nonzero, h.lt⟩
  · rw [heq _ (Nat.le_add_right _ _), h.chars k hk]
  · rw [heq _ (Nat.le_add_right _ _), h.stop]

theorem LineAt.string (h : LineAt cfg s p text) : stringAt cfg s p = text := by
  have hlt := h.lt
  obtain ⟨m, hm⟩ : ∃ m, cfg.lineLengthMax - p = text.length + (m + 1) := ⟨cfg.lineLengthMax - p - text.length - 1, by omega⟩
  have hchars : (List.range text.length).map (fun i => s.lineBuf (p + i)) = text := by
    apply List.ext_getElem
    · simp
    · intro k hk hk'
      rw [List.getElem_map, List.getElem_range, h.chars k hk']
  unfold stringAt
  rw [hm, List.range_add, List.map_append, hchars, List.takeWhile_append_of_pos]
  · rw [List.range_succ_eq_map, List.map_cons, List.map_cons, Nat.add_zero, h.stop, List.takeWhile_cons_of_neg (by simp),
      List.append_nil]
  · intro c hc
    simpa using fun hz : c = 0 => h.nonzero (hz ▸ hc)

theorem skip_returns (h : LineAt cfg s p text) :
    (skip (fun c => c ≠ x ∧ c ≠ 0) p).Returns s (p + (text.takeWhile (· ≠ x)).length) s := by
  induction text generalizing p with
  | nil =>
    apply loop_inr
    rw [get_bind_returns, h.nil]
    simp
  | cons c l ih =>
    by_cases hc : c = x
    · apply loop_inr
      rw [get_bind_returns, h.head]
      simp [hc]
    · have hround : ((fun str => do
          let s ← Prog.get
          if decide (s.lineBuf str ≠ x ∧ s.lineBuf str ≠ 0) then pure (.inl (str + 1)) else pure (.inr str) :
          ℕ → CliM (ℕ ⊕ ℕ)) p).Returns s (.inl (p + 1)) s := by
        dsimp only
        rw [get_bind_returns, h.head]
        simp [hc, h.ne_zero]
      have hrest := loop_inl hround (ih h.tail)
      rw [Nat.add_assoc, Nat.add_comm 1] at hrest
      rwa [List.takeWhile_cons_of_pos (by simpa using hc)]

end scanning

section rounds

variable {cfg : Config} {s t u : CliState} {p argc : ℕ} {q : Bool} {c : UInt8} {text l : List UInt8}

def spaceRound (cfg : Config) (str : ℕ) : CliM (ℕ ⊕ ℕ) := do
  let s ← Prog.get
  if s.lineBuf str = 0x20 then
    setLine cfg str 0
    pure (.inl (str + 1))
  else pure (.inr str)

/-- `cli_cmd_line_to_args` from the start of a word on. -/
def takeWord (cfg : Config) (argc str : ℕ) (quoteFlag : Bool) : CliM ((ℕ × ℕ × Bool) ⊕ ℕ) := do
  Prog.modify fun s => { s with argv := Function.update s.argv argc str }
  let str ← if quoteFlag then do
      let str ← skip (fun c => c ≠ 0x22 ∧ c ≠ 0) str
      let s ← Prog.get
      if s.lineBuf str = 0x22 then
        setLine cfg str 0
        pure (str + 1)
      else pure str
    else pure str
  let str ← skip (fun c => c ≠ 0x20 ∧ c ≠ 0) str
  pure (.inl (argc + 1, str, quoteFlag))

def wordRound (cfg : Config) (x : ℕ × ℕ × Bool) : CliM ((ℕ × ℕ × Bool) ⊕ ℕ) := do
  let str ← Prog.loop (spaceRound cfg) x.2.1
  let s ← Prog.get
  if s.lineBuf str = 0 then pure (.inr x.1)
  else if cfg.argvMax ≤ x.1 then pure (.inr x.1)
  else
    let quoted := s.lineBuf str = 0x22
    takeWord cfg x.1 (if quoted then str + 1 else str) (if quoted then true else x.2.2)

theorem lineToArgs_eq : cliCmdLineToArgs cfg = (do
    let s ← Prog.get
    setLine cfg s.lineBufIndex 0
    Prog.loop (wordRound cfg) (0, 0, false)) := rfl

def blank (s : CliState) (p n : ℕ) : CliState :=
  { s with lineBuf := fun i => if p ≤ i ∧ i < p + n then 0 else s.lineBuf i }

theorem blank_zero : blank s p 0 = s := by
  have hbuf : (fun i => if p ≤ i ∧ i < p + 0 then 0 else s.lineBuf i) = s.lineBuf := by
    funext i
    rw [if_neg (by omega)]
  unfold blank
  rw [hbuf]

theorem blank_succ {n : ℕ} : blank { s with lineBuf := Function.update s.lineBuf p 0 } (p + 1) n = blank s p (n + 1) := by
  unfold blank
  congr 1
  funext i
  by_cases hi : i = p
  · subst hi
    simp
  · change (if p + 1 ≤ i ∧ i < p + 1 + n then 0 else Function.update s.lineBuf p 0 i) = _
    rw [Function.update_of_ne hi]
    congr 1
    rw [eq_iff_iff]
    omega

theorem setLine_returns {i : ℕ} (hi : i < cfg.lineLengthMax) :
    (setLine cfg i c).Returns s () { s with lineBuf := Function.update s.lineBuf i c } := by
  unfold setLine
  rw [check_bind_returns]
  exact ⟨hi, returns_modify.mpr rfl⟩

theorem spaces_returns (h : LineAt cfg s p text) :
    (Prog.loop (spaceRound cfg) p).Returns s (p + (text.takeWhile (· = 0x20)).length)
      (blank s p (text.takeWhile (· = 0x20)).length) := by
  induction text generalizing s p with
  | nil =>
    apply loop_inr
    unfold spaceRound
    rw [get_bind_returns, h.nil]
    simp [blank_zero]
  | cons c l ih =>
    by_cases hc : c = 0x20
    · subst hc
      have hlt : p < cfg.lineLengthMax := Nat.lt_of_le_of_lt (Nat.le_add_right _ _) h.lt
      have hround : (spaceRound cfg p).Returns s (.inl (p + 1)) { s with lineBuf := Function.update s.lineBuf p 0 } := by
        unfold spaceRound
        rw [get_bind_returns, h.head, if_pos rfl, (setLine_returns hlt).bind_iff]
        exact returns_pure.mpr ⟨rfl, rfl⟩
      have hl : LineAt cfg { s with lineBuf := Function.update s.lineBuf p 0 } (p + 1) l :=
        h.tail.congr fun k hk => Function.update_of_ne (by omega) _ _
      have hrest := loop_inl hround (ih hl)
      rw [blank_succ, Nat.add_assoc, Nat.add_comm 1] at hrest
      rwa [List.takeWhile_cons_of_pos (by simp)]
    · apply loop_inr
      unfold spaceRound
      rw [get_bind_returns, h.head, if_neg hc]
      simp [hc, blank_zero]

/-- A word of the line has become an argument. It ends in a zero, or where the next round begins. -/
structure WordTaken (cfg : Config) (s t : CliState) (argc str p : ℕ) (word rest : List UInt8) : Prop where
  state : t = { s with lineBuf := t.lineBuf, argv := Function.update s.argv argc str }
  before : ∀ k < str, t.lineBuf k = s.lineBuf k
  chars : ∀ k (hk : k < word.length), t.lineBuf (str + k) = word[k]
  nonzero : 0 ∉ word
  stop : str + word.length < p ∧ t.lineBuf (str + word.length) = 0 ∨ str + word.length = p
  line : LineAt cfg t p rest
  head : ∀ c ∈ rest.head?, c = 0x20

theorem LineAt.left {a b : List UInt8} (h : LineAt cfg s p (a ++ b)) {k : ℕ} (hk : k < a.length) :
    s.lineBuf (p + k) = a[k] := by
  rw [h.chars k (by rw [List.length_append]; exact Nat.lt_add_right _ hk), List.getElem_append_left hk]

theorem not_mem_takeWhile {x : UInt8} {f : UInt8 → Bool} (h : x ∉ text) : x ∉ text.takeWhile f :=
  fun hx => h ((List.takeWhile_prefix f).subset hx)

theorem takeWord_bare (h : LineAt cfg s p text) : ∃ t p', (takeWord cfg argc p false).Returns s (.inl (argc + 1, p', false)) t ∧
    WordTaken cfg s t argc p p' (cutWord false text).1 (cutWord false text).2 := by
  obtain ⟨t, ht⟩ : ∃ t : CliState, t = { s with argv := Function.update s.argv argc p } := ⟨_, rfl⟩
  have hbuf : t.lineBuf = s.lineBuf := by rw [ht]
  have hline : LineAt cfg t p text := h.congr fun k _ => congrFun hbuf k
  refine ⟨t, p + (text.takeWhile (· ≠ 0x20)).length, ?_, ?_⟩
  · unfold takeWord
    rw [modify_bind_returns, ← ht]
    simp only [Bool.false_eq_true, if_false, pure_bind]
    exact (skip_returns hline).bind (returns_pure.mpr ⟨rfl, rfl⟩)
  · have hsplit : LineAt cfg t p (text.takeWhile (· ≠ 0x20) ++ text.dropWhile (· ≠ 0x20)) := by
      rwa [List.takeWhile_append_dropWhile]
    refine ⟨?_, fun k _ => congrFun hbuf k, fun k hk => hsplit.left hk, not_mem_takeWhile h.nonzero, .inr rfl,
      hsplit.right, cutWord_head⟩
    rw [ht]

theorem takeWord_open (h : LineAt cfg s p text) (hend : text.dropWhile (· ≠ 0x22) = []) :
    ∃ t p', (takeWord cfg argc p true).Returns s (.inl (argc + 1, p', true)) t ∧
      WordTaken cfg s t argc p p' (cutWord true text).1 (cutWord true text).2 := by
  obtain ⟨t, ht⟩ : ∃ t : CliState, t = { s with argv := Function.update s.argv argc p } := ⟨_, rfl⟩
  have hbuf : t.lineBuf = s.lineBuf := by rw [ht]
  have hword : text.takeWhile (· ≠ 0x22) = text := by
    have hsplit := @List.takeWhile_append_dropWhile _ (· ≠ (0x22 : UInt8)) text
    rwa [hend, List.append_nil] at hsplit
  have hline : LineAt cfg t p text := h.congr fun k _ => congrFun hbuf k
  have hrest : LineAt cfg t (p + text.length) [] := LineAt.right (by rwa [List.append_nil])
  have hcut : cutWord true text = (text, []) := by
    unfold cutWord
    rw [if_pos rfl, hword, hend]
    rfl
  refine ⟨t, p + text.length, ?_, ?_⟩
  · have hskip := @skip_returns cfg t p 0x22 text hline
    rw [hword] at hskip
    unfold takeWord
    rw [modify_bind_returns, ← ht]
    simp only [if_true]
    rw [hskip.bind_iff, get_bind_returns, hrest.nil, if_neg (by decide), pure_bind_returns]
    exact (skip_returns hrest).bind (returns_pure.mpr ⟨rfl, rfl⟩)
  · rw [hcut]
    refine ⟨?_, fun k _ => congrFun hbuf k, hline.chars, h.nonzero, .inr rfl, hrest, fun c hc => ?_⟩
    · rw [ht]
    · exact absurd hc (by simp)

theorem takeWord_closed (h : LineAt cfg s p text) (hend : text.dropWhile (· ≠ 0x22) = c :: l) :
    ∃ t p', (takeWord cfg argc p true).Returns s (.inl (argc + 1, p', true)) t ∧
      WordTaken cfg s t argc p p' (cutWord true text).1 (cutWord true text).2 := by
  obtain ⟨word, hword⟩ : ∃ word, word = text.takeWhile (· ≠ 0x22) := ⟨_, rfl⟩
  have htext : text = word ++ c :: l := by rw [hword, ← hend, List.takeWhile_append_dropWhile]
  have hc : c = 0x22 := by
    have hhead := List.head?_dropWhile_not (· ≠ (0x22 : UInt8)) text
    rw [hend] at hhead
    simpa using hhead
  subst hc
  obtain ⟨u, hu⟩ : ∃ u : CliState, u = { s with argv := Function.update s.argv argc p } := ⟨_, rfl⟩
  have hline : LineAt cfg u p (word ++ 0x22 :: l) := by
    rw [← htext, hu]
    exact h.congr fun _ _ => rfl
  have hquote : LineAt cfg u (p + word.length) (0x22 :: l) := hline.right
  have hlt : p + word.length < cfg.lineLengthMax := Nat.lt_of_le_of_lt (Nat.le_add_right _ _) hquote.lt
  obtain ⟨t, ht⟩ : ∃ t : CliState, t = { u with lineBuf := Function.update u.lineBuf (p + word.length) 0 } := ⟨_, rfl⟩
  have hbuf : ∀ k, k ≠ p + word.length → t.lineBuf k = u.lineBuf k := by
    intro k hk
    rw [ht]
    exact Function.update_of_ne hk _ _
  have hrest : LineAt cfg t (p + word.length + 1) (l.takeWhile (· ≠ 0x20) ++ l.dropWhile (· ≠ 0x20)) := by
    rw [List.takeWhile_append_dropWhile]
    exact hquote.tail.congr fun k hk => hbuf k (by omega)
  have hcut : cutWord true text = (word, l.dropWhile (· ≠ 0x20)) := by
    unfold cutWord
    rw [if_pos rfl, hend, hword, List.tail_cons]
  refine ⟨t, p + word.length + 1 + (l.takeWhile (· ≠ 0x20)).length, ?_, ?_⟩
  · have hskip := @skip_returns cfg u p 0x22 text (htext ▸ hline)
    rw [← hword] at hskip
    unfold takeWord
    rw [modify_bind_returns, ← hu]
    simp only [if_true]
    rw [hskip.bind_iff, get_bind_returns, hquote.head, if_pos rfl, (setLine_returns hlt).bind_iff, ← ht, pure_bind_returns]
    have hspace := @skip_returns cfg t (p + word.length + 1) 0x20 l (by rwa [List.takeWhile_append_dropWhile] at hrest)
    exact hspace.bind (returns_pure.mpr ⟨rfl, rfl⟩)
  · rw [hcut]
    constructor
    · rw [ht, hu]
    · intro k hk
      rw [hbuf k (by omega), hu]
    · intro k hk
      rw [hbuf _ (by dsimp only at hk; omega)]
      exact hline.left hk
    · intro hz
      exact h.nonzero (htext ▸ List.mem_append_left _ hz)
    · left
      refine ⟨by dsimp only; omega, ?_⟩
      rw [ht]
      exact Function.update_self _ _ _
    · exact hrest.right
    · have hhead := @cutWord_head true text
      rwa [hcut] at hhead

theorem takeWord_returns (h : LineAt cfg s p text) : ∃ t p', (takeWord cfg argc p q).Returns s (.inl (argc + 1, p', q)) t ∧
    WordTaken cfg s t argc p p' (cutWord q text).1 (cutWord q text).2 := by
  cases q with
  | false => exact takeWord_bare h
  | true =>
    cases hend : text.dropWhile (· ≠ 0x22) with
    | nil => exact takeWord_open h hend
    | cons c l => exact takeWord_closed h hend

theorem blank_line (h : LineAt cfg s p text) : LineAt cfg (blank s p (text.takeWhile (· = 0x20)).length)
    (p + (text.takeWhile (· = 0x20)).length) (text.dropWhile (· = 0x20)) := by
  have hsplit : LineAt cfg s p (text.takeWhile (· = 0x20) ++ text.dropWhile (· = 0x20)) := by
    rwa [List.takeWhile_append_dropWhile]
  refine hsplit.right.congr fun k hk => ?_
  change (if _ then _ else _) = _
  rw [if_neg (by omega)]

theorem blank_stop (h : LineAt cfg s p text) (hend : ∀ c ∈ text.head?, c = 0x20) :
    (blank s p (text.takeWhile (· = 0x20)).length).lineBuf p = 0 := by
  cases text with
  | nil =>
    rw [List.takeWhile_nil, List.length_nil, blank_zero]
    exact h.nil
  | cons c l =>
    rw [List.takeWhile_cons_of_pos (by simpa using hend c rfl)]
    change (if _ then _ else _) = _
    rw [if_pos (by simp)]

theorem wordRound_end (h : LineAt cfg s p text) (hend : text.dropWhile (· = 0x20) = [] ∨ cfg.argvMax ≤ argc) :
    (wordRound cfg (argc, p, q)).Returns s (.inr argc) (blank s p (text.takeWhile (· = 0x20)).length) := by
  have hline := blank_line h
  unfold wordRound
  rw [(spaces_returns h).bind_iff, get_bind_returns]
  rcases hend with hend | hend
  · rw [hend] at hline
    rw [hline.nil, if_pos rfl]
    exact returns_pure.mpr ⟨rfl, rfl⟩
  · rw [if_pos hend, ite_self]
    exact returns_pure.mpr ⟨rfl, rfl⟩

theorem wordRound_word (h : LineAt cfg s p text) (hword : text.dropWhile (· = 0x20) = c :: l) (hlt : argc < cfg.argvMax) :
    ∃ t str p', p + (text.takeWhile (· = 0x20)).length ≤ str ∧
      (wordRound cfg (argc, p, q)).Returns s (.inl (argc + 1, p', (nextArg q (c :: l)).2.1)) t ∧
      WordTaken cfg (blank s p (text.takeWhile (· = 0x20)).length) t argc str p'
        (nextArg q (c :: l)).1 (nextArg q (c :: l)).2.2 := by
  have hline := blank_line h
  have hspaces := spaces_returns h
  rw [hword] at hline
  generalize (text.takeWhile (· = 0x20)).length = n at hline hspaces ⊢
  have hround : wordRound cfg (argc, p, q) = Prog.loop (spaceRound cfg) p >>= fun str => Prog.get >>= fun s =>
      if s.lineBuf str = 0 then pure (.inr argc) else if cfg.argvMax ≤ argc then pure (.inr argc) else
        takeWord cfg argc (if s.lineBuf str = 0x22 then str + 1 else str) (if s.lineBuf str = 0x22 then true else q) := rfl
  rw [hround]
  by_cases hc : c = 0x22
  · obtain ⟨t, p', hret, htaken⟩ := @takeWord_returns cfg (blank s p n) (p + n + 1) argc true l hline.tail
    refine ⟨t, p + n + 1, p', by omega, ?_, ?_⟩
    · rw [hspaces.bind_iff, get_bind_returns, hline.head, if_neg hline.ne_zero, if_neg (Nat.not_le.mpr hlt),
        if_pos hc, if_pos hc]
      simpa [nextArg, hc] using hret
    · simpa [nextArg, hc] using htaken
  · obtain ⟨t, p', hret, htaken⟩ := @takeWord_returns cfg (blank s p n) (p + n) argc q (c :: l) hline
    refine ⟨t, p + n, p', by omega, ?_, ?_⟩
    · rw [hspaces.bind_iff, get_bind_returns, hline.head, if_neg hline.ne_zero, if_neg (Nat.not_le.mpr hlt),
        if_neg hc, if_neg hc]
      simpa [nextArg, hc] using hret
    · simpa [nextArg, hc] using htaken

end rounds

section run

variable {cfg : Config} {s t u : CliState} {p argc : ℕ} {q : Bool} {text : List UInt8} {words : List (List UInt8)}

/-- The words are the arguments from number `argc` on; nothing else is changed, and nothing before the place `p`. -/
structure Tokenized (cfg : Config) (s t : CliState) (p argc : ℕ) (words : List (List UInt8)) : Prop where
  state : t = { s with lineBuf := t.lineBuf, argv := t.argv }
  before : ∀ k < p, t.lineBuf k = s.lineBuf k
  argv : ∀ k < argc, t.argv k = s.argv k
  line : ∀ i (hi : i < words.length), LineAt cfg t (t.argv (argc + i)) words[i]

theorem tokenized_end {n : ℕ} : Tokenized cfg s (blank s p n) p argc [] := by
  refine ⟨rfl, fun k hk => ?_, fun _ _ => rfl, fun i hi => absurd hi (Nat.not_lt_zero i)⟩
  change (if _ then _ else _) = _
  rw [if_neg (by omega)]

theorem tokenized_word {n str p' : ℕ} {word rest : List UInt8} (hp : p ≤ str)
    (hword : WordTaken cfg (blank s p n) u argc str p' word rest) (hrest : Tokenized cfg u t p' (argc + 1) words)
    (hstop : (∀ c ∈ rest.head?, c = 0x20) → t.lineBuf p' = 0) : Tokenized cfg s t p argc (word :: words) := by
  have hlt := hword.line.lt
  have hle : str + word.length ≤ p' := by
    have hs := hword.stop
    omega
  have hargv : t.argv argc = str := by
    rw [hrest.argv argc (Nat.lt_succ_self _), hword.state]
    exact Function.update_self _ _ _
  constructor
  · rw [hrest.state, hword.state]
    rfl
  · intro k hk
    rw [hrest.before k (by omega), hword.before k (by omega)]
    change (if _ then _ else _) = _
    rw [if_neg (by omega)]
  · intro k hk
    rw [hrest.argv k (by omega), hword.state]
    exact Function.update_of_ne (by omega) _ _
  · intro i hi
    cases i with
    | zero =>
      refine ⟨?_, ?_, hword.nonzero, ?_⟩
      · intro k (hk : k < word.length)
        rw [Nat.add_zero, hargv, hrest.before _ (by omega), hword.chars k hk]
        rfl
      · rw [Nat.add_zero, hargv]
        change t.lineBuf (str + word.length) = 0
        rcases hword.stop with ⟨hend, hz⟩ | hend
        · rw [hrest.before _ hend, hz]
        · rw [hend]
          exact hstop hword.head
      · rw [Nat.add_zero, hargv]
        change str + word.length < cfg.lineLengthMax
        omega
    | succ i =>
      have hline := hrest.line i (Nat.lt_of_succ_lt_succ hi)
      rw [Nat.add_assoc, Nat.add_comm 1] at hline
      exact hline

theorem wordLoop_returns (h : LineAt cfg s p text) :
    ∃ t, (Prog.loop (wordRound cfg) (argc, p, q)).Returns s
        (argc + ((splitArgs q text).take (cfg.argvMax - argc)).length) t ∧
      Tokenized cfg s t p argc ((splitArgs q text).take (cfg.argvMax - argc)) ∧
      ((∀ c ∈ text.head?, c = 0x20) → t.lineBuf p = 0) := by
  -- a word takes a character of the text at least
  induction hlen : text.length using Nat.strongRecOn generalizing s p argc q text with
  | ind len ih =>
    subst hlen
    by_cases hend : text.dropWhile (· = 0x20) = [] ∨ cfg.argvMax ≤ argc
    · have hnone : (splitArgs q text).take (cfg.argvMax - argc) = [] := by
        rcases hend with hend | hend
        · rw [splitArgs_nil hend, List.take_nil]
        · rw [Nat.sub_eq_zero_of_le hend, List.take_zero]
      rw [hnone]
      exact ⟨_, loop_inr (wordRound_end h hend), tokenized_end, blank_stop h⟩
    · obtain ⟨hne, hlt⟩ := not_or.mp hend
      rw [Nat.not_le] at hlt
      obtain ⟨c, l, hword⟩ := List.exists_cons_of_ne_nil hne
      obtain ⟨u, str, p', hp, hround, htaken⟩ := @wordRound_word cfg s p argc q c text l h hword hlt
      have hle : (c :: l).length ≤ text.length := hword ▸ List.length_dropWhile_le _ text
      have hc : c ≠ 0x20 := by
        have hhead := List.head?_dropWhile_not (· = (0x20 : UInt8)) text
        rw [hword] at hhead
        simpa using hhead
      obtain ⟨t, hloop, hrest, hstop⟩ := ih _ (Nat.lt_of_lt_of_le (nextArg_length hc) hle) htaken.line rfl
      obtain ⟨m, hm⟩ : ∃ m, cfg.argvMax - argc = m + 1 := ⟨cfg.argvMax - argc - 1, by omega⟩
      have hm' : cfg.argvMax - (argc + 1) = m := by omega
      rw [splitArgs_cons hword, hm, List.take_succ_cons, List.length_cons]
      rw [hm'] at hloop hrest
      refine ⟨t, ?_, tokenized_word (Nat.le_of_add_right_le hp) htaken hrest hstop, ?_⟩
      · rw [Nat.add_comm _ 1, ← Nat.add_assoc]
        exact loop_inl hround hloop
      · intro hspace
        have hpos : 0 < (text.takeWhile (· = 0x20)).length := by
          cases text with
          | nil => exact absurd hword (by simp)
          | cons c' l' =>
            rw [List.takeWhile_cons_of_pos (by simpa using hspace c' rfl)]
            exact Nat.succ_pos _
        have hle' : str ≤ p' := by
          have hs := htaken.stop
          omega
        rw [hrest.before p (by omega), htaken.before p (by omega), blank_stop h hspace]

theorem lineToArgs_returns {line : List UInt8} (hline : s.line = line) (hlen : line.length < cfg.lineLengthMax) (hz : 0 ∉ line) :
    ∃ t, (cliCmdLineToArgs cfg).Returns s ((splitArgs false line).take cfg.argvMax).length t ∧
      t = { s with lineBuf := t.lineBuf, argv := t.argv } ∧
      ∀ i (hi : i < ((splitArgs false line).take cfg.argvMax).length),
        LineAt cfg t (t.argv i) ((splitArgs false line).take cfg.argvMax)[i] := by
  subst hline
  rw [length_line] at hlen
  have hend : (setLine cfg s.lineBufIndex 0).Returns s () { s with lineBuf := Function.update s.lineBuf s.lineBufIndex 0 } :=
    setLine_returns hlen
  have hstart : LineAt cfg { s with lineBuf := Function.update s.lineBuf s.lineBufIndex 0 } 0 s.line := by
    constructor
    · intro k hk
      rw [getElem_line, Nat.zero_add]
      rw [length_line] at hk
      exact Function.update_of_ne (Nat.ne_of_lt hk) _ _
    · rw [Nat.zero_add, length_line]
      exact Function.update_self _ _ _
    · exact hz
    · rwa [Nat.zero_add, length_line]
  obtain ⟨t, hloop, htok, -⟩ := @wordLoop_returns cfg _ 0 0 false _ hstart
  rw [Nat.zero_add, Nat.sub_zero] at hloop
  refine ⟨t, ?_, htok.state, fun i hi => ?_⟩
  · rw [lineToArgs_eq, get_bind_returns, hend.bind_iff]
    exact hloop
  · have h := htok.line i hi
    rwa [Nat.zero_add] at h

end run

end Lpc1788Libraries.Cli

import Lpc1788Libraries.Cli.CliTokens

namespace Lpc1788Libraries.Cli

open Lpc1788Libraries.Support BoundedProgram BoundedProgram.Prog

/-- An argument as it is typed: a word, or a text between quotes. -/
inductive Arg where
  | bare (word : List UInt8) (nonempty : word ≠ []) (space : 0x20 ∉ word) (quote : word.head? ≠ some 0x22) (nonzero : 0 ∉ word)
  | quoted (text : List UInt8) (quote : 0x22 ∉ text) (nonzero : 0 ∉ text)

def Arg.value : Arg → List UInt8
  | .bare word .. => word
  | .quoted text .. => text

def Arg.isQuoted : Arg → Bool
  | .bare .. => false
  | .quoted .. => true

def Arg.typed : Arg → List UInt8
  | .bare word .. => word
  | .quoted text .. => 0x22 :: (text ++ [0x22])

/-- The line of the arguments, each behind a number of spaces, with spaces at its end. -/
def layout (trail : ℕ) : List (ℕ × Arg) → List UInt8
  | [] => List.replicate trail 0x20
  | (gap, a) :: args => List.replicate gap 0x20 ++ (a.typed ++ layout trail args)

variable {cfg : Config} {s : CliState} {q : Bool} {a : Arg} {trail gap : ℕ} {args : List (ℕ × Arg)} {rest word : List UInt8}

section layout

theorem typed_ne_nil : a.typed ≠ [] := by
  cases a with
  | bare word nonempty => exact nonempty
  | quoted text => exact List.cons_ne_nil _ _

theorem typed_head : ∀ c ∈ (a.typed ++ rest).head?, c ≠ 0x20 := by
  cases a with
  | bare word nonempty space =>
    obtain ⟨c, l, rfl⟩ := List.exists_cons_of_ne_nil nonempty
    rintro _ ⟨⟩ rfl
    exact space List.mem_cons_self
  | quoted text =>
    rintro _ ⟨⟩
    decide

theorem typed_nonzero : 0 ∉ a.typed := by
  cases a with
  | bare word nonempty space quote nonzero => exact nonzero
  | quoted text quote nonzero => simpa [Arg.typed] using nonzero

theorem layout_head (h : ∀ x ∈ args, 1 ≤ x.1) : ∀ c ∈ (layout trail args).head?, c = 0x20 := by
  cases args with
  | nil =>
    intro c hc
    exact List.eq_of_mem_replicate (List.mem_of_mem_head? hc)
  | cons x args =>
    obtain ⟨n, hn⟩ := Nat.exists_eq_add_of_le' (h x List.mem_cons_self)
    rintro c hc
    unfold layout at hc
    rw [hn, List.replicate_succ] at hc
    exact (Option.some.inj hc).symm

theorem layout_nonzero : 0 ∉ layout trail args := by
  have hspace : ∀ n, (0 : UInt8) ∉ List.replicate n 0x20 := by
    intro n h
    exact absurd (List.eq_of_mem_replicate h) (by decide)
  induction args with
  | nil => exact hspace trail
  | cons x args ih => simpa [layout] using ⟨typed_nonzero, ih⟩

theorem layout_cons_drop : (layout trail ((gap, a) :: args)).dropWhile (· = 0x20) = a.typed ++ layout trail args := by
  rw [layout, List.dropWhile_append_of_pos (by simp)]
  have h := @typed_head a (layout trail args)
  cases htext : a.typed ++ layout trail args with
  | nil => rfl
  | cons c l =>
    rw [htext] at h
    rw [List.dropWhile_cons_of_neg (by simpa using h c rfl)]

end layout

section words

theorem dropWhile_stop {x : UInt8} (h : ∀ c ∈ rest.head?, c = x) : rest.dropWhile (· ≠ x) = rest := by
  cases rest with
  | nil => rfl
  | cons c l => rw [List.dropWhile_cons_of_neg (by simpa using h c rfl)]

theorem takeWhile_stop {x : UInt8} (hx : x ∉ word) (h : ∀ c ∈ rest.head?, c = x) :
    (word ++ rest).takeWhile (· ≠ x) = word := by
  have hpos : ∀ c ∈ word, decide (c ≠ x) = true := by
    intro c hc
    exact decide_eq_true fun h => hx (h ▸ hc)
  rw [List.takeWhile_append_of_pos hpos]
  cases rest with
  | nil => rw [List.takeWhile_nil, List.append_nil]
  | cons c l => rw [List.takeWhile_cons_of_neg (by simpa using h c rfl), List.append_nil]

theorem dropWhile_word {x : UInt8} (hx : x ∉ word) (h : ∀ c ∈ rest.head?, c = x) :
    (word ++ rest).dropWhile (· ≠ x) = rest := by
  have hpos : ∀ c ∈ word, decide (c ≠ x) = true := by
    intro c hc
    exact decide_eq_true fun h => hx (h ▸ hc)
  rw [List.dropWhile_append_of_pos hpos, dropWhile_stop h]

theorem nextArg_typed (hq : q = true → a.isQuoted = true) (h : ∀ c ∈ rest.head?, c = 0x20) :
    nextArg q (a.typed ++ rest) = (a.value, q || a.isQuoted, rest) := by
  cases a with
  | bare word nonempty space quote nonzero =>
    obtain rfl : q = false := by simpa [Arg.isQuoted] using hq
    obtain ⟨c, l, rfl⟩ := List.exists_cons_of_ne_nil nonempty
    have hcut : cutWord false (c :: l ++ rest) = (c :: l, rest) := by
      unfold cutWord
      rw [if_neg (by simp), takeWhile_stop space h, dropWhile_word space h]
    change nextArg false (c :: l ++ rest) = _
    rw [nextArg_word (by simpa using quote), hcut]
    rfl
  | quoted text quote nonzero =>
    have hcut : cutWord true (text ++ 0x22 :: rest) = (text, rest) := by
      unfold cutWord
      rw [if_pos rfl, takeWhile_stop quote (by simp), dropWhile_word quote (by simp), List.tail_cons, dropWhile_stop h]
    have htext : (Arg.quoted text quote nonzero).typed ++ rest = 0x22 :: (text ++ 0x22 :: rest) := by simp [Arg.typed]
    rw [htext, nextArg_quote, hcut]
    simp [Arg.value, Arg.isQuoted]

theorem nextArg_merged (ha : a.isQuoted = false) :
    nextArg true (a.typed ++ rest) = ((cutWord true (a.value ++ rest)).1, true, (cutWord true (a.value ++ rest)).2) := by
  cases a with
  | bare word nonempty space quote =>
    obtain ⟨c, l, rfl⟩ := List.exists_cons_of_ne_nil nonempty
    change nextArg true (c :: l ++ rest) = _
    rw [nextArg_word (by simpa using quote)]
    rfl
  | quoted => exact absurd ha (by simp [Arg.isQuoted])

theorem takeWhile_eq_word (h : ∀ c ∈ rest.head?, c = 0x20) :
    (word ++ rest).takeWhile (· ≠ 0x22) = word ↔ rest = [] ∧ 0x22 ∉ word := by
  constructor
  · intro heq
    have hword : 0x22 ∉ word := by
      intro hx
      have hmem := List.mem_takeWhile_imp (heq.symm ▸ hx)
      simp at hmem
    refine ⟨?_, hword⟩
    cases rest with
    | nil => rfl
    | cons c l =>
      obtain rfl := h c rfl
      have hpos : ∀ c ∈ word, decide (c ≠ (0x22 : UInt8)) = true := by
        intro c hc
        exact decide_eq_true fun h => hword (h ▸ hc)
      rw [List.takeWhile_append_of_pos hpos, List.takeWhile_cons_of_pos (by decide)] at heq
      exact absurd (List.append_right_eq_self.mp heq) (List.cons_ne_nil _ _)
  · rintro ⟨rfl, hword⟩
    exact takeWhile_stop hword (by simp)

end words

section recovery

/-- The quote flag merges no word with what follows it. -/
def Recoverable (trail : ℕ) : Bool → List (ℕ × Arg) → Prop
  | _, [] => True
  | q, x :: args => (q = true → x.2.isQuoted = false → layout trail args = [] ∧ 0x22 ∉ x.2.value) ∧
      Recoverable trail (q || x.2.isQuoted) args

theorem splitArgs_layout (h : ∀ x ∈ args.tail, 1 ≤ x.1) :
    ((splitArgs q (layout trail args)).take args.length = args.map (·.2.value) ↔ Recoverable trail q args) ∧
      (Recoverable trail q args → splitArgs q (layout trail args) = args.map (·.2.value)) := by
  induction args generalizing q with
  | nil =>
    have hnil : splitArgs q (layout trail []) = [] := by
      apply splitArgs_nil
      simp [layout]
    simp [hnil, Recoverable]
  | cons x args ih =>
    obtain ⟨gap, a⟩ := x
    have hjoined : ∀ x ∈ args, 1 ≤ x.1 := h
    have hhead := @layout_head trail args hjoined
    have ih := fun q => @ih q fun x hx => hjoined x (List.mem_of_mem_tail hx)
    obtain ⟨c, l, hcl⟩ := List.exists_cons_of_ne_nil (List.append_ne_nil_of_left_ne_nil (@typed_ne_nil a) (layout trail args))
    have hsplit := splitArgs_cons (q := q) ((@layout_cons_drop a trail gap args).trans hcl)
    rw [← hcl] at hsplit
    by_cases hq : q = true → a.isQuoted = true
    · rw [nextArg_typed hq hhead] at hsplit
      obtain ⟨hiff, himp⟩ := ih (q || a.isQuoted)
      have hkeep : Recoverable trail q ((gap, a) :: args) ↔ Recoverable trail (q || a.isQuoted) args := by
        rw [Recoverable]
        apply and_iff_right
        intro h1 h2
        exact absurd (h2.symm.trans (hq h1)) (by decide)
      rw [hsplit, hkeep]
      refine ⟨?_, fun hr => ?_⟩
      · rw [List.length_cons, List.take_succ_cons, List.map_cons, List.cons.injEq, eq_self_iff_true, true_and]
        exact hiff
      · rw [List.map_cons, himp hr]
    · obtain ⟨rfl, ha⟩ := Classical.not_imp.mp hq
      have ha : a.isQuoted = false := by simpa using ha
      rw [nextArg_merged ha] at hsplit
      have hone : layout trail args = [] → args = [] := by
        intro hnil
        cases args with
        | nil => rfl
        | cons y args => exact absurd (List.append_eq_nil_iff.mp (List.append_eq_nil_iff.mp hnil).2).1 typed_ne_nil
      have hlast : layout trail args = [] → 0x22 ∉ a.value →
          splitArgs true (layout trail ((gap, a) :: args)) = ((gap, a) :: args).map (·.2.value) := by
        intro hnil hquote
        have hcut : cutWord true (a.value ++ []) = (a.value, []) := by
          unfold cutWord
          rw [if_pos rfl, takeWhile_stop hquote (by simp), dropWhile_word hquote (by simp)]
          rfl
        rw [hsplit, hnil, hcut, splitArgs_nil rfl, hone hnil]
        rfl
      refine ⟨⟨fun heq => ?_, fun hr => ?_⟩, fun hr => hlast (hr.1 rfl ha).1 (hr.1 rfl ha).2⟩
      · rw [hsplit, List.length_cons, List.take_succ_cons, List.map_cons, List.cons.injEq] at heq
        obtain ⟨hnil, hquote⟩ := (takeWhile_eq_word hhead).mp heq.1
        refine ⟨fun _ _ => ⟨hnil, hquote⟩, ?_⟩
        rw [hone hnil]
        exact trivial
      · rw [hlast (hr.1 rfl ha).1 (hr.1 rfl ha).2]
        exact List.take_of_length_le (by simp)

theorem layout_eq_nil : layout trail args = [] ↔ args = [] ∧ trail = 0 := by
  cases args with
  | nil => simp [layout]
  | cons x args => simp [layout, typed_ne_nil]

theorem recoverable_iff : Recoverable trail q args ↔ ∀ front x back, args = front ++ x :: back →
    (q = true ∨ ∃ y ∈ front, y.2.isQuoted = true) → x.2.isQuoted = false → back = [] ∧ trail = 0 ∧ 0x22 ∉ x.2.value := by
  induction args generalizing q with
  | nil => simp [Recoverable]
  | cons z args ih =>
    rw [Recoverable, ih, layout_eq_nil, and_assoc]
    constructor
    · rintro ⟨hhead, htail⟩ front x back heq hq hx
      cases front with
      | nil =>
        obtain ⟨rfl, rfl⟩ := List.cons.inj heq
        exact hhead (by simpa using hq) hx
      | cons y front =>
        obtain ⟨rfl, rfl⟩ := List.cons.inj heq
        exact htail front x back rfl (by simpa [or_assoc] using hq) hx
    · intro h
      refine ⟨fun hq hz => h [] z args rfl (.inl hq) hz, ?_⟩
      intro front x back heq hq hx
      exact h (z :: front) x back (congrArg (z :: ·) heq) (by simpa [or_assoc] using hq) hx

theorem lineToArgs_recoverable (hmax : args.length ≤ cfg.argvMax) (hgap : ∀ x ∈ args.tail, 1 ≤ x.1)
    (hline : s.line = layout trail args) (hlen : (layout trail args).length ≤ cfg.lineLengthMax - 1) :
    ((cliCmdLineToArgs cfg).Achieves s fun argc t => argc = args.length ∧
      ∀ i (hi : i < args.length), stringAt cfg t (t.argv i) = args[i].2.value) ↔ Recoverable trail false args := by
  have hpos := cfg.line_pos
  have hlt : (layout trail args).length < cfg.lineLengthMax := by omega
  obtain ⟨t, hret, -, hwords⟩ := lineToArgs_returns hline hlt layout_nonzero
  obtain ⟨hiff, himp⟩ := @splitArgs_layout false trail args hgap
  obtain ⟨words, hw⟩ : ∃ words, words = (splitArgs false (layout trail args)).take cfg.argvMax := ⟨_, rfl⟩
  rw [← hw] at hret hwords
  constructor
  · rintro ⟨argc, u, hret', hlength, hstrings⟩
    obtain ⟨rfl, rfl⟩ := hret'.unique hret
    rw [← hiff]
    have heq : words = args.map (·.2.value) := by
      apply List.ext_getElem
      · rw [hlength, List.length_map]
      · intro i hi hi'
        rw [List.getElem_map, ← hstrings i (hlength ▸ hi), (hwords i hi).string]
    have htake : words.take args.length = (splitArgs false (layout trail args)).take args.length := by
      rw [hw, List.take_take, Nat.min_eq_left hmax]
    rw [← htake, heq]
    exact List.take_of_length_le (by rw [List.length_map])
  · intro hr
    have heq : words = args.map (·.2.value) := by
      rw [hw, himp hr, List.take_of_length_le (by rwa [List.length_map])]
    refine ⟨words.length, t, hret, by rw [heq, List.length_map], fun i hi => ?_⟩
    have hi' : i < words.length := by rwa [heq, List.length_map]
    have hget : words[i] = args[i].2.value := by
      simp only [heq, List.getElem_map]
    rw [(hwords i hi').string, hget]

/-- The arguments are recovered unless a word behind a quoted argument goes on. -/
theorem lineToArgs_recovers_iff (hmax : args.length ≤ cfg.argvMax) (hgap : ∀ x ∈ args.tail, 1 ≤ x.1)
    (hline : s.line = layout trail args) (hlen : (layout trail args).length ≤ cfg.lineLengthMax - 1) :
    ((cliCmdLineToArgs cfg).Achieves s fun argc t => argc = args.length ∧
      ∀ i (hi : i < args.length), stringAt cfg t (t.argv i) = args[i].2.value) ↔
      ∀ front x back, args = front ++ x :: back → (∃ y ∈ front, y.2.isQuoted = true) → x.2.isQuoted = false →
        back = [] ∧ trail = 0 ∧ 0x22 ∉ x.2.value := by
  rw [lineToArgs_recoverable hmax hgap hline hlen, recoverable_iff]
  simp only [Bool.false_eq_true, false_or]

end recovery

section board

/-- `cli_cfg.h` of the repository. -/
def boardConsole : Config where
  argvMax := 16
  lineLengthMax := 64
  treeDepthMax := 10
  historySize := 64
  line_pos := by decide
  line_le := by decide
  depth_pos := by decide
  depth_le := by decide
  history_ge := by decide
  history_le := by decide

/-- A console on which a line has been typed. -/
def typedLine (line : List UInt8) : CliState :=
  ⟨fun i => line.getD i 0, line.length, 0, 0, fun _ => 0, 0, 0, fun _ => 0, fun _ => ⟨0, 0⟩, 0, ⟨0, 0⟩, 0, []⟩

theorem line_typedLine {line : List UInt8} : (typedLine line).line = line := by
  apply List.ext_getElem
  · simp [typedLine]
  · intro i hi hi'
    rw [getElem_line]
    change line.getD i 0 = _
    rw [List.getD_eq_getElem?_getD, List.getElem?_eq_getElem hi']
    rfl

def quotedWord : Arg := .quoted [0x71] (by decide) (by decide)

def bareWord : Arg := .bare [0x62] (by decide) (by decide) (by decide) (by decide)

theorem lineToArgs_recovers_iff_quoted : ((cliCmdLineToArgs boardConsole).Achieves
    (typedLine (layout 0 [(0, bareWord), (2, quotedWord), (1, bareWord)])) fun argc t => argc = 3 ∧
      ∀ i (hi : i < 3), stringAt boardConsole t (t.argv i) = [(0, bareWord), (2, quotedWord), (1, bareWord)][i].2.value) := by
  have hkept : Recoverable 0 false [(0, bareWord), (2, quotedWord), (1, bareWord)] := by
    simp [Recoverable, bareWord, quotedWord, Arg.isQuoted, Arg.value, layout]
  refine (lineToArgs_recovers_iff (by decide) (by decide) line_typedLine (by decide)).mpr ?_
  simpa only [Bool.false_eq_true, false_or] using recoverable_iff.mp hkept

/-- The line `"q" b b`. -/
theorem lineToArgs_merges : ¬ ∀ (cfg : Config) (s : CliState) (args : List (ℕ × Arg)) (trail : ℕ),
    1 ≤ args.length → args.length ≤ cfg.argvMax → (∀ x ∈ args.tail, 1 ≤ x.1) → s.line = layout trail args →
    (layout trail args).length ≤ cfg.lineLengthMax - 1 → (cliCmdLineToArgs cfg).Achieves s fun argc t =>
      argc = args.length ∧ ∀ i (hi : i < args.length), stringAt cfg t (t.argv i) = args[i].2.value := by
  intro h
  have hr := h boardConsole (typedLine (layout 0 [(0, quotedWord), (1, bareWord), (1, bareWord)]))
    [(0, quotedWord), (1, bareWord), (1, bareWord)] 0 (by decide) (by decide) (by decide) line_typedLine (by decide)
  rw [lineToArgs_recoverable (by decide) (by decide) line_typedLine (by decide)] at hr
  have hlast := (hr.2.1 rfl rfl).1
  exact absurd hlast (by decide)

end board

end Lpc1788Libraries.Cli

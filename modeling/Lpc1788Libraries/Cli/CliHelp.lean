import Lpc1788Libraries.Cli.CliDispatch

namespace Lpc1788Libraries.Cli

open Lpc1788Libraries.Support BoundedProgram BoundedProgram.Prog

/-- The options of `cli_cfg.h` for the help command. -/
structure HelpConfig where
  dispHelpStr : Bool
  nameStrMaxSize : ℕ
  paramStrMaxSize : ℕ
  sizes : nameStrMaxSize = 0 ↔ paramStrMaxSize = 0

/-- The strings of a command that only the help command shows. -/
structure HelpTexts where
  param : CString
  help : CString

abbrev Texts := ItemPtr → HelpTexts

section model

variable {β : Type} (cfg : Config) (hcfg : HelpConfig) (lists : Lists) (texts : Texts)

def xputs (str : CString) : CliM Unit := Prog.modify fun s => { s with sent := s.sent ++ str.chars.map .char }

def cliCmdItemGetParent : CliM Bool := do
  let s ← Prog.get
  if s.treeIndex = 0 then pure false
  else
    Prog.modify fun s => { s with treeIndex := s.treeIndex - 1 }
    cliCmdGetItem lists (s.tree (s.treeIndex - 1))

/-- The strings of the current item, which is a command. -/
def itemTexts : CliM HelpTexts :=
  Prog.attempt fun s =>
    match s.cmdListItem.deref lists with
    | some (.cmd _ _) => some (texts s.cmdListItem, s)
    | _ => none

/-- One item of the path to a command; `x` is the counter and the number of characters, both of a byte. -/
def nameRound (put : CString → CliM Unit) (x : ℕ × ℕ) : CliM ((ℕ × ℕ) ⊕ ℕ) := do
  let s ← Prog.get
  if x.1 ≤ s.treeIndex then
    let _ ← cliCmdGetItem lists (s.tree x.1)
    let name ← itemName lists
    put name
    pure (.inl ((x.1 + 1) % 0x100, (x.2 + name.chars.length + 1) % 0x100))
  else pure (.inr x.2)

def pathNames (put : CString → CliM Unit) : CliM ℕ := Prog.loop (nameRound lists put) (0, 0)

def adjustRound (charCnt i : ℕ) : CliM (ℕ ⊕ Unit) :=
  if i < charCnt then do
    xputc 0x20
    pure (.inl ((i + 1) % 0x100))
  else pure (.inr ())

def adjustColumn (len charCnt : ℕ) : CliM Unit := Prog.loop (adjustRound charCnt) len

/-- "Longest command string?", "Longest param string?" -/
def measure (x : ℕ × ℕ) : CliM (ℕ × ℕ) := do
  let len ← pathNames lists fun _ => pure ()
  let text ← itemTexts lists texts
  let paramLen := text.param.chars.length % 0x100
  pure (if x.1 < len then len else x.1, if x.2 < paramLen then paramLen else x.2)

/-- `strncmp` answers with zero. -/
def strncmpEq (a b : CString) (n : ℕ) : Bool := (a.chars ++ [0]).take n = (b.chars ++ [0]).take n

def putName (name : CString) : CliM Unit := do
  xputs name
  xputc 0x20

/-- The line of a command. -/
def displayLine (charCnt : ℕ × ℕ) : CliM Unit := do
  let len ← pathNames lists putName
  adjustColumn len charCnt.1
  let text ← itemTexts lists texts
  xputs text.param
  if hcfg.dispHelpStr then
    adjustColumn (text.param.chars.length % 0x100) charCnt.2
    xputc 0x20
    xputc 0x3a
    xputc 0x20
    xputs text.help
    xputc 0x0a
  else xputc 0x0a

/-- There is no argument, or one. -/
def display (argv : Option CString) (charCnt : ℕ × ℕ) (lineBreak : Bool) : CliM Bool := do
  let s ← Prog.get
  let _ ← cliCmdGetItem lists (s.tree 0)
  let name ← itemName lists
  if argv.all fun a => strncmpEq a name a.chars.length then
    if argv.isNone ∧ lineBreak then
      xputc 0x0a
      displayLine hcfg lists texts charCnt
      pure false
    else
      displayLine hcfg lists texts charCnt
      pure lineBreak
  else pure lineBreak

/-- A round of the walk through the tree: a command is visited, the end of a list leads back to the group
above it, and a group to its list. -/
def treeRound (visit : β → CliM β) (turn : β → β) (x : β) : CliM (β ⊕ β) := do
  let s ← Prog.get
  match s.cmdListItem.deref lists with
  | none =>
    if s.treeIndex = 0 then pure (.inr x)
    else
      let _ ← cliCmdItemGetParent lists
      let _ ← cliCmdItemGetNext lists
      pure (.inl (turn x))
  | some (.cmd _ _) =>
    let x ← visit x
    let _ ← cliCmdItemGetNext lists
    pure (.inl x)
  | some (.group _ _) =>
    let _ ← cliCmdItemGetChild cfg lists
    pure (.inl (turn x))

def treeWalk (visit : β → CliM β) (turn : β → β) (x : β) : CliM β := do
  let _ ← cliCmdItemGetRoot lists
  Prog.loop (treeRound cfg lists visit turn) x

/-- The lengths of the longest command and parameter strings. -/
def charCounts : CliM (ℕ × ℕ) :=
  if hcfg.nameStrMaxSize = 0 ∨ hcfg.paramStrMaxSize = 0 then
    treeWalk cfg lists (measure lists texts) id (hcfg.nameStrMaxSize % 0x100, hcfg.paramStrMaxSize % 0x100)
  else pure (hcfg.nameStrMaxSize % 0x100, hcfg.paramStrMaxSize % 0x100)

def cliCmdHelpFn (argv : Option CString) : CliM Unit := do
  let charCnt ← charCounts cfg hcfg lists texts
  let _ ← treeWalk cfg lists (display hcfg lists texts argv charCnt) (fun _ => true) false
  pure ()

end model

end Lpc1788Libraries.Cli

import Lpc1788Libraries.Cli.CliTypes

namespace Lpc1788Libraries.Cli

open Lpc1788Libraries.Support BoundedProgram

abbrev CliM := Prog CliState

variable (cfg : Config) (lists : Lists)

section output

def send (o : Output) : CliM Unit := Prog.modify fun s => { s with sent := s.sent ++ [o] }

def xputc (c : UInt8) : CliM Unit := send (.char c)

def vt100DelChars (nrOfChars : ℕ) : CliM Unit := Prog.modify fun s =>
  { s with sent := s.sent ++ (List.replicate nrOfChars [.char 0x08, .char 0x20, .char 0x08]).flatten }

def vt100Init : CliM Unit := Prog.modify fun s => { s with
  vt100State := 0
  sent := s.sent ++ [.char 0x1b, .char 0x63, .char 0x1b, .char 0x5b, .char 0x37, .char 0x68] }

end output

section iterator

def cliCmdGetItem (item : ItemPtr) : CliM Bool := do
  Prog.modify fun s => { s with cmdListItem := item }
  pure (item.deref lists).isSome

def cliCmdItemGetRoot : CliM Bool := do
  Prog.modify fun s => { s with treeIndex := 0, tree := Function.update s.tree 0 ⟨0, 0⟩ }
  cliCmdGetItem lists ⟨0, 0⟩

/-- The list of the group that the current item is. -/
def groupList (s : CliState) : Option ℕ :=
  match s.cmdListItem.deref lists with
  | some (.group _ l) => some l
  | _ => none

def cliCmdItemGetChild : CliM Bool := do
  let s ← Prog.get
  match groupList lists s with
  | none => pure false
  | some l =>
    if cfg.treeDepthMax - 1 ≤ s.treeIndex then pure false
    else
      Prog.modify fun s =>
        { s with treeIndex := s.treeIndex + 1, tree := Function.update s.tree (s.treeIndex + 1) ⟨l, 0⟩ }
      cliCmdGetItem lists ⟨l, 0⟩

def cliCmdItemGetFirst : CliM Bool := do
  let s ← Prog.get
  if s.treeIndex = 0 then
    Prog.modify fun s => { s with tree := Function.update s.tree 0 ⟨0, 0⟩ }
  else
    let _ ← cliCmdGetItem lists (s.tree (s.treeIndex - 1))
    Prog.attempt fun s => (groupList lists s).map fun l =>
      ((), { s with tree := Function.update s.tree s.treeIndex ⟨l, 0⟩ })
  let s ← Prog.get
  cliCmdGetItem lists (s.tree s.treeIndex)

def cliCmdItemGetNext : CliM Bool := do
  let s ← Prog.get
  if (s.cmdListItem.deref lists).isNone then pure false
  else
    let item : ItemPtr := { s.tree s.treeIndex with index := (s.tree s.treeIndex).index + 1 }
    Prog.modify fun s => { s with tree := Function.update s.tree s.treeIndex item }
    cliCmdGetItem lists item

end iterator

section tokenizer

def setLine (i : ℕ) (c : UInt8) : CliM Unit := do
  Prog.check (i < cfg.lineLengthMax)
  Prog.modify fun s => { s with lineBuf := Function.update s.lineBuf i c }

/-- Moves on while the character fulfils the test. -/
def skip (test : UInt8 → Bool) (str : ℕ) : CliM ℕ :=
  Prog.loop (fun str => do
    let s ← Prog.get
    if test (s.lineBuf str) then pure (.inl (str + 1)) else pure (.inr str)) str

def cliCmdLineToArgs : CliM ℕ := do
  let s ← Prog.get
  setLine cfg s.lineBufIndex 0
  Prog.loop (fun (x : ℕ × ℕ × Bool) => do
    let (argc, str, quoteFlag) := x
    let str ← Prog.loop (fun str => do
      let s ← Prog.get
      if s.lineBuf str = 0x20 then
        setLine cfg str 0
        pure (.inl (str + 1))
      else pure (.inr str)) str
    let s ← Prog.get
    if s.lineBuf str = 0 then pure (.inr argc)
    else if cfg.argvMax ≤ argc then pure (.inr argc)
    else
      let quoted := s.lineBuf str = 0x22
      let str := if quoted then str + 1 else str
      let quoteFlag := if quoted then true else quoteFlag
      Prog.modify fun s => { s with argv := Function.update s.argv argc str }
      let str ← if quoteFlag then do
          let str ← skip (fun c => c ≠ 0x22 ∧ c ≠ 0) str
          let s ← Prog.get
          if s.lineBuf str = 0x22 then
            setLine cfg str 0
            pure (str + 1)
          else pure str
        else pure str
      let str ← skip (fun c => c ≠ 0x20 ∧ c ≠ 0) str
      pure (.inl (argc + 1, str, quoteFlag))) (0, 0, false)

/-- The string that begins at a place of the line buffer. -/
def stringAt (s : CliState) (str : ℕ) : List UInt8 :=
  ((List.range (cfg.lineLengthMax - str)).map fun i => s.lineBuf (str + i)).takeWhile (· ≠ 0)

end tokenizer

section history

def cliHistCircBufIndexNext (index : ℕ) : ℕ := if cfg.historySize - 1 ≤ index then 0 else index + 1

def cliHistCircBufIndexPrev (index : ℕ) : ℕ := if index = 0 then cfg.historySize - 1 else index - 1

def copyRound (x : ℕ × ℕ) : CliM ((ℕ × ℕ) ⊕ ℕ) := do
  let s ← Prog.get
  let data := s.histCircBuf x.2
  if data = 0 then pure (.inr x.1)
  else
    xputc data
    setLine cfg x.1 data
    pure (.inl (x.1 + 1, cliHistCircBufIndexNext cfg x.2))

def cliHistCopy : CliM Unit := do
  let s ← Prog.get
  vt100DelChars s.lineBufIndex
  let i ← Prog.loop (copyRound cfg) (0, s.histIndexNow)
  Prog.modify fun s => { s with lineBufIndex := i }

def duplicateRound (x : ℕ × ℕ) : CliM ((ℕ × ℕ) ⊕ Bool) := do
  let s ← Prog.get
  let i := x.1 - 1
  let j := cliHistCircBufIndexPrev cfg x.2
  if s.lineBuf i ≠ s.histCircBuf j then pure (.inr false)
  else if i = 0 then pure (.inr true)
  else pure (.inl (i, j))

/-- Is the line the end of what was saved last? -/
def duplicateCommand : CliM Bool := do
  let s ← Prog.get
  Prog.loop (duplicateRound cfg) (s.lineBufIndex, s.histIndexLast)

def setHist (j : ℕ) (c : UInt8) : CliM Unit :=
  Prog.modify fun s => { s with histCircBuf := Function.update s.histCircBuf j c }

def appendRound (x : ℕ × ℕ) : CliM ((ℕ × ℕ) ⊕ ℕ) := do
  let s ← Prog.get
  let j := cliHistCircBufIndexNext cfg x.2
  setHist j (s.lineBuf x.1)
  let i := x.1 + 1
  if i < s.lineBufIndex then pure (.inl (i, j)) else pure (.inr j)

/-- Appends the line and answers with the place of its last character. -/
def appendCommand : CliM ℕ := do
  let s ← Prog.get
  Prog.loop (appendRound cfg) (0, s.histIndexLast)

/-- Eats the rest of a command line that has been overwritten in part. -/
def eatRemainder (j : ℕ) : CliM Unit :=
  Prog.loop (fun j => do
    let s ← Prog.get
    if s.histCircBuf j = 0 then pure (.inr ())
    else
      setHist j 0
      pure (.inl (cliHistCircBufIndexNext cfg j))) j

def cliHistSaveCmd : CliM Unit := do
  let s ← Prog.get
  if s.lineBufIndex = 0 then Prog.modify fun s => { s with histIndexNow := s.histIndexLast }
  else
    let duplicate ← duplicateCommand cfg
    if duplicate then Prog.modify fun s => { s with histIndexNow := s.histIndexLast }
    else
      let j ← appendCommand cfg
      let j := cliHistCircBufIndexNext cfg j
      Prog.modify fun s => { s with histIndexLast := j, histIndexNow := j }
      eatRemainder cfg j

/-- Goes on with `step` until a zero. -/
def findZero (step : ℕ → ℕ) (i : ℕ) : CliM ℕ :=
  Prog.loop (fun i => do
    let s ← Prog.get
    if s.histCircBuf i ≠ 0 then pure (.inl (step i)) else pure (.inr i)) i

def cliHistLoadOlderCmd : CliM Unit := do
  let s ← Prog.get
  let i := cliHistCircBufIndexPrev cfg s.histIndexNow
  if i = s.histIndexLast then pure ()
  else
    let i := cliHistCircBufIndexPrev cfg i
    if s.histCircBuf i = 0 then pure ()
    else
      let i ← findZero (cliHistCircBufIndexPrev cfg) i
      Prog.modify fun s => { s with histIndexNow := cliHistCircBufIndexNext cfg i }
      cliHistCopy cfg

def cliHistLoadNewerCmd : CliM Unit := do
  let s ← Prog.get
  let i ← findZero (cliHistCircBufIndexNext cfg) s.histIndexNow
  let i := if i ≠ s.histIndexLast then cliHistCircBufIndexNext cfg i else i
  Prog.modify fun s => { s with histIndexNow := i }
  cliHistCopy cfg

end history

section autocomplete

def cliAutocompleteReset : CliM Unit := do
  Prog.modify fun s => { s with autocompleteStartIndex := 0, autocompleteEndIndex := s.lineBufIndex }
  let _ ← cliCmdItemGetRoot lists
  pure ()

/-- `cli_cmd_list_item->cmd->name`; there is none behind the end of a list. -/
def itemName : CliM CString :=
  Prog.attempt fun s => (s.cmdListItem.deref lists).map fun item => (item.name, s)

/-- The character of a name; nothing may be read behind its terminating zero. -/
def nameChar (name : CString) (k : ℕ) : CliM UInt8 := do
  Prog.check (k ≤ name.chars.length)
  pure (name.chars[k]?.getD 0)

/-- Goes on to the next item of the list, from the last one to the first. -/
def nextCyclic : CliM Unit := do
  let more ← cliCmdItemGetNext lists
  if more then pure ()
  else
    let _ ← cliCmdItemGetFirst lists
    pure ()

/-- "Does name match line?", for the character `x.1` of the line and `x.2` of the name. There is
no answer where `cli_autocomplete` gives up. -/
def matchRound (name : CString) (x : ℕ × ℕ) : CliM ((ℕ × ℕ) ⊕ Option (ℕ × CString × ℕ)) := do
  let s ← Prog.get
  if x.1 < s.autocompleteEndIndex then
    let lineChar := s.lineBuf x.1
    let i := x.1 + 1
    let c ← nameChar name x.2
    if c = 0 ∧ lineChar = 0x20 then
      if (groupList lists s).isSome then
        let _ ← cliCmdItemGetChild cfg lists
        let name ← itemName lists
        Prog.modify fun s => { s with autocompleteStartIndex := i }
        pure (.inr (some (i, name, 0)))
      else pure (.inr none)
    else if lineChar ≠ c then
      nextCyclic lists
      let s ← Prog.get
      pure (.inr (some (s.autocompleteStartIndex, name, x.2 + 1)))
    else pure (.inl (i, x.2 + 1))
  else pure (.inr (some (x.1, name, x.2)))

def matchName (i : ℕ) (name : CString) : CliM (Option (ℕ × CString × ℕ)) :=
  Prog.loop (matchRound cfg lists name) (i, 0)

def findRound (cmdStart : ItemPtr) (i : ℕ) : CliM (ℕ ⊕ Option (ℕ × CString × ℕ)) := do
  let name ← itemName lists
  let r ← matchName cfg lists i name
  match r with
  | none => pure (.inr none)
  | some (i, name, k) =>
    let s ← Prog.get
    if s.autocompleteEndIndex ≤ i then pure (.inr (some (i, name, k)))
    else if s.tree s.treeIndex = cmdStart then pure (.inr none)
    else pure (.inl i)

/-- The search of `cli_autocomplete`. -/
def findMatch (cmdStart : ItemPtr) (i : ℕ) : CliM (Option (ℕ × CString × ℕ)) :=
  Prog.loop (findRound cfg lists cmdStart) i

def completeRound (name : CString) (x : ℕ × ℕ) : CliM ((ℕ × ℕ) ⊕ ℕ) := do
  let c ← nameChar name x.2
  if c = 0 then pure (.inr x.1)
  else if cfg.lineLengthMax - 1 ≤ x.1 then pure (.inr x.1)
  else
    setLine cfg x.1 c
    xputc c
    pure (.inl (x.1 + 1, x.2 + 1))

/-- Puts the rest of the name behind the line. -/
def completeName (i : ℕ) (name : CString) (k : ℕ) : CliM ℕ := Prog.loop (completeRound cfg name) (i, k)

def cliAutocomplete : CliM Bool := do
  let s ← Prog.get
  let r ← findMatch cfg lists (s.tree s.treeIndex) s.autocompleteStartIndex
  match r with
  | none => pure false
  | some (i, name, k) =>
    let s ← Prog.get
    vt100DelChars ((s.lineBufIndex + 0x100 - s.autocompleteEndIndex) % 0x100)
    let i ← completeName cfg i name k
    Prog.modify fun s => { s with lineBufIndex := i }
    nextCyclic lists
    pure true

end autocomplete

section execution

/-- The lookup of `cli_cmd_exe`; it answers with the handler found. -/
def findCommand (argc : ℕ) : CliM (Option (Handler × Cmd)) := do
  let _ ← cliCmdItemGetRoot lists
  Prog.loop (fun (_ : Unit) => do
    let s ← Prog.get
    match s.cmdListItem.deref lists with
    | none =>
      send (.text "Error! Command not found\n")
      pure (.inr none)
    | some item =>
      if argc ≤ s.treeIndex then
        send (.text "Error! Command not found\n")
        pure (.inr none)
      else if stringAt cfg s (s.argv s.treeIndex) = item.name.chars then
        match item with
        | .cmd handler cmd =>
          send (.text " OK\n")
          pure (.inr (some (handler, cmd)))
        | .group _ _ =>
          let _ ← cliCmdItemGetChild cfg lists
          pure (.inl ())
      else
        let _ ← cliCmdItemGetNext lists
        pure (.inl ())) ()

/-- The call of the handler with the words behind the command's own. -/
def callHandler (handler : Handler) (cmd : Cmd) (argc : ℕ) : CliM Unit := do
  let s ← Prog.get
  let argc := argc - (s.treeIndex + 1)
  if argc < cmd.argcMin ∨ cmd.argcMax < argc then send (.text "Error! Number of parameters incorrect\n")
  else
    let places := (List.range argc).map fun k => s.argv (s.treeIndex + 1 + k)
    let words := places.map (stringAt cfg s)
    Prog.modify fun s => { s with
      lineBuf := handler.run places s.lineBuf
      sent := s.sent ++ [.call cmd.name.chars words] }
    match handler.report words with
    | none => pure ()
    | some str =>
      send (.report str.chars)
      xputc 0x0a

def cliCmdExe : CliM Unit := do
  let argc ← cliCmdLineToArgs cfg
  let s ← Prog.get
  if argc = 0 then pure ()
  else if s.lineBuf (s.argv 0) = 0x23 then pure ()
  else
    let found ← findCommand cfg lists argc
    match found with
    | none => pure ()
    | some (handler, cmd) => callHandler cfg handler cmd argc

end execution

section reception

/-- `vt100_on_rx_char`: what the character means, and the next state. -/
def vt100OnRxChar (state : ℕ) (data : UInt8) : Vt100 × ℕ :=
  if state = 0 then
    if data = 0x1b then (.escSeqBusy, 1)
    else if 0x80 ≤ data then (.charInvalid, 0)
    else (.charNormal, 0)
  else if state = 1 then
    if data = 0x5b then (.escSeqBusy, 2) else (.escSeqBusy, 0)
  else if state = 2 then
    if data = 0x41 then (.arrowUp, 0)
    else if data = 0x42 then (.arrowDn, 0)
    else if data = 0x43 then (.arrowLeft, 0)
    else if data = 0x44 then (.arrowRight, 0)
    else (.charInvalid, 0)
  else (.charInvalid, 0)

def onEnter : CliM Unit := do
  xputc 0x0a
  if cfg.historySize ≠ 0 then cliHistSaveCmd cfg else pure ()
  cliCmdExe cfg lists
  Prog.modify fun s => { s with lineBufIndex := 0 }
  cliAutocompleteReset lists
  send .prompt
  xputc 0x3e

def onBackspace : CliM Unit := do
  let s ← Prog.get
  if 0 < s.lineBufIndex then
    Prog.modify fun s => { s with lineBufIndex := s.lineBufIndex - 1 }
    vt100DelChars 1
    cliAutocompleteReset lists
  else xputc 0x07

def onTab : CliM Unit := do
  let done ← cliAutocomplete cfg lists
  if done then pure () else xputc 0x07

def onOther (data : UInt8) : CliM Unit := do
  let s ← Prog.get
  if data < 0x20 then pure ()
  else if s.lineBufIndex < cfg.lineLengthMax - 1 then
    setLine cfg s.lineBufIndex data
    Prog.modify fun s => { s with lineBufIndex := s.lineBufIndex + 1 }
    cliAutocompleteReset lists
    xputc data
  else xputc 0x07

def cliOnRxChar (data : UInt8) : CliM Unit := do
  let s ← Prog.get
  Prog.modify fun s => { s with vt100State := (vt100OnRxChar s.vt100State data).2 }
  match (vt100OnRxChar s.vt100State data).1 with
  | .charNormal =>
    if data = 0x0d then onEnter cfg lists
    else if data = 0x08 then onBackspace lists
    else if data = 0x09 then onTab cfg lists
    else onOther cfg lists data
  | .arrowUp => if cfg.historySize ≠ 0 then cliHistLoadOlderCmd cfg else pure ()
  | .arrowDn => if cfg.historySize ≠ 0 then cliHistLoadNewerCmd cfg else pure ()
  | _ => pure ()

def cliInit (startup : Option CString) : CliM Unit := do
  if cfg.historySize ≠ 0 then
    Prog.modify fun s => { s with
      histCircBuf := fun i => if i < cfg.historySize then 0 else s.histCircBuf i
      histIndexLast := 0
      histIndexNow := 0 }
  else pure ()
  Prog.modify fun s => { s with lineBufIndex := 0 }
  cliAutocompleteReset lists
  vt100Init
  match startup with
  | none => pure ()
  | some str =>
    send (.report str.chars)
    send (.text "lpcXpresso LPC1769 running @ %dMhz\n")
  send (.text "Type 'help' to get list of cmds with help descriptions\n\n")
  send (.text "TAB   to cycle autocomplete cmd(s)\n")
  if cfg.historySize ≠ 0 then send (.text "UP/DN to traverse history of cmds entered\n") else pure ()
  send (.text "ENTER to execute cmd\n\n")
  send .prompt
  xputc 0x3e

end reception

end Lpc1788Libraries.Cli

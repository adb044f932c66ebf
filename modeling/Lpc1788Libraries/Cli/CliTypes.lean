import Mathlib.Data.List.Basic
import Mathlib.Logic.Function.Basic
import Mathlib.Tactic.Common
import Lpc1788Libraries.Support.BoundedProgram

namespace Lpc1788Libraries.Cli

/-- `cli_cfg.h`, with what `cli.h` checks of it. -/
structure Config where
  argvMax : ℕ
  lineLengthMax : ℕ
  treeDepthMax : ℕ
  historySize : ℕ
  line_pos : 0 < lineLengthMax
  line_le : lineLengthMax ≤ 255
  depth_pos : 1 ≤ treeDepthMax
  depth_le : treeDepthMax ≤ argvMax
  history_ge : historySize ≠ 0 → lineLengthMax ≤ historySize
  history_le : historySize ≤ 65536

/-- A zero terminated string. -/
structure CString where
  chars : List UInt8
  nonzero : 0 ∉ chars

/-- A command handler: what it makes of the line buffer, given where its arguments begin, and the
string it reports. -/
structure Handler where
  run : List ℕ → (ℕ → UInt8) → ℕ → UInt8
  report : List (List UInt8) → Option CString

structure Cmd where
  name : CString
  argcMin : ℕ
  argcMax : ℕ

inductive ListItem where
  | cmd (handler : Handler) (cmd : Cmd)
  | group (name : CString) (list : ℕ)

/-- The first field of `cli_cmd_t` and of `cli_group_t`, which the code reads through `cmd`. -/
def ListItem.name : ListItem → CString
  | .cmd _ c => c.name
  | .group name _ => name

/-- The command lists, by number; `cli_cmd_list` is number 0. -/
abbrev Lists := ℕ → List ListItem

/-- A pointer into a list; the place behind the last item is the end marker. -/
structure ItemPtr where
  list : ℕ
  index : ℕ
  deriving DecidableEq

def ItemPtr.deref (lists : Lists) (p : ItemPtr) : Option ListItem := (lists p.list)[p.index]?

inductive Output where
  | char (c : UInt8)
  | text (s : String)
  | prompt
  | call (name : List UInt8) (argv : List (List UInt8))
  | report (s : List UInt8)

structure CliState where
  lineBuf : ℕ → UInt8
  lineBufIndex : ℕ
  autocompleteStartIndex : ℕ
  autocompleteEndIndex : ℕ
  histCircBuf : ℕ → UInt8
  histIndexLast : ℕ
  histIndexNow : ℕ
  argv : ℕ → ℕ
  tree : ℕ → ItemPtr
  treeIndex : ℕ
  cmdListItem : ItemPtr
  vt100State : ℕ
  sent : List Output

inductive Vt100 where
  | charNormal
  | charInvalid
  | escSeqBusy
  | arrowUp
  | arrowDn
  | arrowLeft
  | arrowRight

end Lpc1788Libraries.Cli

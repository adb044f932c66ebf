import Lpc1788Libraries.DataManager.LogFsFrame

namespace Lpc1788Libraries.DataManager

open Lpc1788Libraries.Support NorFlash BoundedProgram

/-- The calls on files and their records. -/
inductive LogFsCall
  | init
  | create (timeStamp : LogFsTimeStamp)
  | fileFindFirst
  | fileFindLast
  | fileFindNext
  | fileFindPrevious
  | open (file : LogFsFile)
  | fileDelete (file : LogFsFile)
  | recordRdFirst (nrOfBytes : ℕ)
  | recordRdLast (nrOfBytes : ℕ)
  | recordRdNext (nrOfBytes : ℕ)
  | recordRdPrevious (nrOfBytes : ℕ)
  | recordWr (data : List UInt8)
  deriving DecidableEq

/-- What a call hands back: its error code, and the file or the record bytes it has filled in. -/
structure LogFsAnswer where
  err : LogFsErr
  file : Option LogFsFile
  data : List UInt8
  deriving DecidableEq

namespace LogFsAnswer

def ofErr (err : LogFsErr) : LogFsAnswer := ⟨err, none, []⟩

def ofFile (r : LogFsErr × Option LogFsFile) : LogFsAnswer := ⟨r.1, r.2, []⟩

def ofRecord (r : RecordRd) : LogFsAnswer := ⟨r.1, none, r.2⟩

end LogFsAnswer

variable (c : LogFsCfg)

def logFsCall : LogFsCall → SysM LogFsAnswer
  | .init => .ofErr <$> logFsInit c
  | .create timeStamp => .ofErr <$> logFsCreate c timeStamp
  | .fileFindFirst => .ofFile <$> logFsFileFindFirst
  | .fileFindLast => .ofFile <$> logFsFileFindLast
  | .fileFindNext => .ofFile <$> logFsFileFindNext c
  | .fileFindPrevious => .ofFile <$> logFsFileFindPrevious c
  | .open file => .ofErr <$> logFsOpen c file
  | .fileDelete file => .ofErr <$> logFsFileDelete c file
  | .recordRdFirst nrOfBytes => .ofRecord <$> logFsRecordRdFirst c nrOfBytes
  | .recordRdLast nrOfBytes => .ofRecord <$> logFsRecordRdLast c nrOfBytes
  | .recordRdNext nrOfBytes => .ofRecord <$> logFsRecordRdNext c nrOfBytes
  | .recordRdPrevious nrOfBytes => .ofRecord <$> logFsRecordRdPrevious c nrOfBytes
  | .recordWr data => .ofErr <$> logFsRecordWr c data

/-- Power-on with an erased device. The RAM is cleared by the start-up code. -/
def powerOn : Sys := ⟨LogFs.zero c, erased, []⟩

/-- The states that sequences of calls lead to from power-on, `log_fs_init` coming first, with
the calls and their answers, newest first. -/
inductive Reached : List (LogFsCall × LogFsAnswer) → Sys → Prop
  | init {a : LogFsAnswer} {t : Sys} (h : (logFsCall c .init).Returns (powerOn c) a t) :
      Reached [(.init, a)] t
  | call {hist : List (LogFsCall × LogFsAnswer)} {s t : Sys} (call : LogFsCall) {a : LogFsAnswer}
      (hs : Reached hist s) (h : (logFsCall c call).Returns s a t) :
      Reached ((call, a) :: hist) t

/-- Runs a list of calls. -/
def logFsCalls : List LogFsCall → SysM (List LogFsAnswer)
  | [] => return []
  | call :: calls => do return (← logFsCall c call) :: (← logFsCalls calls)

variable {c}

theorem Reached.calls {calls : List LogFsCall} {hist : List (LogFsCall × LogFsAnswer)} {s t : Sys}
    {as : List LogFsAnswer} (hs : Reached c hist s) (h : (logFsCalls c calls).Returns s as t) :
    ∃ hist', Reached c hist' t := by
  induction calls generalizing hist s as with
  | nil =>
    obtain ⟨-, rfl⟩ := Prog.returns_pure.mp h
    exact ⟨hist, hs⟩
  | cons call calls ih =>
    obtain ⟨a, r, ha, h⟩ := Prog.returns_bind.mp h
    obtain ⟨as, u, has, h⟩ := Prog.returns_bind.mp h
    obtain ⟨-, rfl⟩ := Prog.returns_pure.mp h
    exact ih (hs.call call ha) has

theorem reached_calls {calls : List LogFsCall} {t : Sys} {as : List LogFsAnswer}
    (h : (logFsCalls c (.init :: calls)).Returns (powerOn c) as t) : ∃ hist, Reached c hist t := by
  obtain ⟨a, r, ha, h⟩ := Prog.returns_bind.mp h
  obtain ⟨as, u, has, h⟩ := Prog.returns_bind.mp h
  obtain ⟨-, rfl⟩ := Prog.returns_pure.mp h
  exact (Reached.init ha).calls has

end Lpc1788Libraries.DataManager

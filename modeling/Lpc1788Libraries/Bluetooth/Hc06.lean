import Lpc1788Libraries.Support.BoundedProgram

namespace Lpc1788Libraries.Bluetooth

open Lpc1788Libraries.Support BoundedProgram

/-- The characters of a text. -/
def text (s : String) : List UInt8 := s.toList.map fun c => UInt8.ofNat c.toNat

def timeoutValue : ℕ := 2000

def btRingbufferSize : ℕ := 32

def btDataBuff : ℕ := 24

inductive BtState
  | notConn
  | conn
  | atMode
  | alreadyConn
  deriving DecidableEq

inductive CmdType
  | b1200
  | b2400
  | b4800
  | b9600
  | b19200
  | b38400
  | b57600
  | b115200
  | b230400
  | b460800
  | b921600
  | b1382400
  | atTest
  | atpin
  | atname
  | atpn
  | atpo
  | atpe
  | atver
  deriving DecidableEq

/-- `BT_CMD_t`, as far as the commands use it. -/
structure BtCmd where
  cmdResult : Bool
  btState : BtState
  cmd : List UInt8
  response : List UInt8
  dataBuffer : List UInt8
  cmdLen : ℕ
  responseLen : ℕ

/-- The driver with its receive ring buffer and the timer; `sent` is what went out on the UART, and
`rounds` counts the rounds of the waiting loops of a command. -/
structure State where
  bt : BtCmd
  btRb : List UInt8
  btCmdBuffer : List UInt8
  timer0 : ℕ
  timer0Enabled : Bool
  sent : List UInt8
  rounds : ℕ

abbrev BtM := Prog State

/-- What happens beside the program: a byte comes in, or a millisecond goes by. -/
inductive Event
  | rx (b : UInt8)
  | ms

section interrupt

def ringBufferInsert (b : UInt8) (s : State) : State :=
  if s.btRb.length < btRingbufferSize then { s with btRb := s.btRb ++ [b] } else s

def btHc06IntEventHandler (b : UInt8) (s : State) : State :=
  let s := if b = 75 then { s with bt := { s.bt with cmdResult := true, btState := .atMode } } else s
  let s := if b = 42 then { s with bt := { s.bt with btState := .conn } } else s
  let s := if b = 35 then { s with bt := { s.bt with btState := .atMode } } else s
  ringBufferInsert b s

def occur (s : State) : Event → State
  | .rx b => btHc06IntEventHandler b s
  | .ms => if s.timer0Enabled then { s with timer0 := s.timer0 + 1 } else s

end interrupt

section commands

/-- The command, the response and its length as the code has it for a command type. -/
def dataOf : CmdType → List UInt8 × List UInt8 × ℕ
  | .b1200 => (text "AT+BAUD1", text "OK1200", 6)
  | .b2400 => (text "AT+BAUD2", text "OK2400", 6)
  | .b4800 => (text "AT+BAUD3", text "OK4800", 6)
  | .b9600 => (text "AT+BAUD4", text "OK9600", 6)
  | .b19200 => (text "AT+BAUD5", text "OK19200", 7)
  | .b38400 => (text "AT+BAUD6", text "OK38400", 7)
  | .b57600 => (text "AT+BAUD7", text "OK57600", 7)
  | .b115200 => (text "AT+BAUD8", text "OK115200", 8)
  | .b230400 => (text "AT+BAUD9", text "OK230400", 8)
  -- the only one with the response of another
  | .b460800 => (text "AT+BAUDA", text "OK1200", 6)
  | .b921600 => (text "AT+BAUDB", text "OK921600", 8)
  | .b1382400 => (text "AT+BAUDC", text "OK1382400", 9)
  | .atTest => (text "AT", text "OK", 2)
  | .atpin => (text "AT+PIN", text "OKsetpin", 8)
  | .atname => (text "AT+NAME", text "OKsetname", 9)
  | .atpn => (text "ATPN", text "OK NONE", 7)
  | .atpo => (text "ATPO", text "OK ODD", 6)
  | .atpe => (text "ATPE", text "OK EVEN", 7)
  | .atver => (text "AT+VERSION", text "OKLinvorV1.8", 12)

/-- Without a command type there is no command. -/
def btGetDataStruct (br : Option CmdType) : BtM Unit := Prog.modify fun s =>
  match br with
  | some br =>
    let data := dataOf br
    { s with bt := { s.bt with cmd := data.1, cmdLen := data.1.length, response := data.2.1, responseLen := data.2.2 } }
  | none => { s with bt := { s.bt with cmd := [], cmdLen := 0, response := [], responseLen := 0 } }

def baudTable : List (ℤ × CmdType) :=
  [(1200, .b1200), (2400, .b2400), (4800, .b4800), (9600, .b9600), (19200, .b19200), (38400, .b38400),
    (57600, .b57600), (115200, .b115200), (230400, .b230400), (460800, .b460800), (921600, .b921600),
    (1382400, .b1382400)]

def getBaudrateType (baudrate : ℤ) : Option CmdType := baudTable.lookup baudrate

/-- A text of the program, the data buffer, or the null pointer. -/
inductive Result
  | message (s : String)
  | dataBuffer (bytes : List UInt8)
  | null

variable (during : ℕ → List Event)

/-- One round of a waiting loop; what happens during it is taken to happen at its start. -/
def pollOnce : BtM Unit := Prog.modify fun s => { (during s.rounds).foldl occur s with rounds := s.rounds + 1 }

def uartSendFrame (frame : List UInt8) (bytes : ℕ) : BtM Unit :=
  Prog.modify fun s => { s with sent := s.sent ++ frame.take bytes }

def startTimer0 : BtM Unit := Prog.modify fun s => { s with timer0 := 0, timer0Enabled := true }

def stopTimer0 : BtM Unit := Prog.modify fun s => { s with timer0Enabled := false }

/-- The loop in front of the response; it answers whether there was one. -/
def resultRound : Unit → BtM (Unit ⊕ Bool) := fun _ => do
  pollOnce during
  let s ← Prog.get
  if s.bt.cmdResult then pure (.inr true)
  else if s.timer0 ≥ timeoutValue then do
    stopTimer0
    pure (.inr false)
  else pure (.inl ())

def countRound : Unit → BtM (Unit ⊕ Unit) := fun _ => do
  let s ← Prog.get
  if s.btRb.length < s.bt.responseLen then do
    pollOnce during
    pure (.inl ())
  else pure (.inr ())

def ringBufferPopMult (num : ℕ) : BtM Unit := Prog.modify fun s =>
  { s with
    btRb := s.btRb.drop num
    bt := { s.bt with dataBuffer := s.btRb.take num ++ s.bt.dataBuffer.drop (s.btRb.take num).length } }

def memsetDataBuffer : BtM Unit :=
  Prog.modify fun s => { s with bt := { s.bt with dataBuffer := List.replicate btDataBuff 0 } }

/-- The end of `parse_hc06_command`, with the response in the ring buffer. -/
def takeResponse : BtM Result := do
  memsetDataBuffer
  let s ← Prog.get
  ringBufferPopMult s.bt.responseLen
  let s ← Prog.get
  if s.bt.dataBuffer.take 2 = text "OK" then
    Prog.modify fun s => { s with bt := { s.bt with cmdResult := false } }
    pure (.dataBuffer s.bt.dataBuffer)
  else pure .null

def parseHc06Command : BtM Result := do
  let s ← Prog.get
  uartSendFrame s.bt.cmd s.bt.cmdLen
  startTimer0
  if ← Prog.loop (resultRound during) () then
    Prog.loop (countRound during) ()
    takeResponse
  else pure (.message "Timeout...")

/-- `bt_cmd_buffer` gets the command with its argument; there is no result if that does not fit. -/
def appendArgument (arg : List UInt8) : BtM Unit := Prog.attempt fun s =>
  let buffer := s.bt.cmd ++ arg
  if buffer.length < btDataBuff then
    some ((), { s with btCmdBuffer := buffer, bt := { s.bt with cmd := buffer, cmdLen := buffer.length } })
  else none

def btGetVersion : BtM Result := do
  let s ← Prog.get
  if s.bt.btState ≠ .atMode then pure (.message "CMD Get Version - Not AT Mode...")
  else
    btGetDataStruct (some .atver)
    memsetDataBuffer
    parseHc06Command during

def btChangeDisplayName (name : List UInt8) : BtM Result := do
  if name.length > 20 then pure (.message "Name Too long...")
  else
    let s ← Prog.get
    if s.bt.btState ≠ .atMode then pure (.message "CMD Change Display Name - Not AT Mode...")
    else
      btGetDataStruct (some .atname)
      appendArgument name
      parseHc06Command during

def btChangePin (pin : List UInt8) : BtM Result := do
  let s ← Prog.get
  if s.bt.btState ≠ .atMode then pure (.message "CMD Change PIN - Not AT Mode...")
  else if pin.length > 4 then pure (.message "PIN Too long...")
  else
    btGetDataStruct (some .atpin)
    appendArgument pin
    parseHc06Command during

def btChangeBaudrate (baud : ℤ) : BtM Result := do
  let s ← Prog.get
  if s.bt.btState ≠ .atMode then pure (.message "CMD Change Baud Rate - Not AT Mode...")
  else if baud > 1382400 then pure (.message "BaudRate Too high, not supported...")
  else
    btGetDataStruct (getBaudrateType baud)
    memsetDataBuffer
    parseHc06Command during

end commands

inductive Call
  | getVersion
  | changeDisplayName (name : List UInt8)
  | changePin (pin : List UInt8)
  | changeBaudrate (baud : ℤ)

namespace Call

def exec (during : ℕ → List Event) : Call → BtM Result
  | getVersion => btGetVersion during
  | changeDisplayName name => btChangeDisplayName during name
  | changePin pin => btChangePin during pin
  | changeBaudrate baud => btChangeBaudrate during baud

def cmdType : Call → Option CmdType
  | getVersion => some .atver
  | changeDisplayName _ => some .atname
  | changePin _ => some .atpin
  | changeBaudrate baud => getBaudrateType baud

/-- The documented response to the command of a call, if it sends one. -/
def documented : Call → Option (List UInt8)
  | getVersion => some (text "OKLinvorV1.8")
  | changeDisplayName _ => some (text "OKsetname")
  | changePin _ => some (text "OKsetpin")
  | changeBaudrate baud => (getBaudrateType baud).map fun br =>
    if br = .b460800 then text "OK460800" else (dataOf br).2.1

end Call

/-- A call, with what happens in front of it and during the rounds of its loops. -/
structure Exchange where
  before : List Event
  call : Call
  during : ℕ → List Event

def Exchange.run (ex : Exchange) : BtM Result := do
  Prog.modify fun s => { ex.before.foldl occur s with rounds := 0 }
  ex.call.exec ex.during

def runExchanges : List Exchange → BtM (List Result)
  | [] => pure []
  | ex :: run => do
    let r ← ex.run
    let rs ← runExchanges run
    pure (r :: rs)

end Lpc1788Libraries.Bluetooth

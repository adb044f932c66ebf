import Lpc1788Libraries.Support.BoundedProgram
import Lpc1788Libraries.WiFi.Buffer
import Mathlib.Algebra.Ring.Nat
import Mathlib.Data.List.Infix

namespace Lpc1788Libraries.WiFi

open Lpc1788Libraries.Support BoundedProgram

def ascii (s : String) : List UInt8 := s.toList.map fun ch => UInt8.ofNat ch.toNat

inductive Command
  | idle | cwqap | cwlap | cwjap | ciupdate | cwmode | cipserver | cipdinfo | send | close | cipstart
  | cipmux | cwsap | ate | atTest | rst | restore | uart | ping | cwjapGet | sleep | gslp | cipsta | cipap
  | cipstamac | cipapmac | cipsto | cwlif | cipstatus | senddata | wps | autoconn | sslbuffersize
  | rfpower
  deriving DecidableEq, Repr

inductive EspResult
  | ok | error | deviceNotConnected | timeout | linkNotValid | noHeap | wifiNotConnected | busy
  | invalidParameters
  deriving DecidableEq, Repr

inductive ConnectionType
  | tcp
  | ssl
  deriving DecidableEq, Repr

structure Connection where
  active : Bool
  number : UInt8
  client : Bool
  remotePort : ℕ
  remoteIP : List UInt8
  type : ConnectionType
  bytesReceived : ℕ
  totalBytesReceived : ℕ
  waitingSentRespond : Bool
  dataSize : ℕ
  lastPart : Bool
  callDataReceived : Bool
  contentLength : ℕ
  headersDone : Bool
  firstPacket : Bool
  deriving DecidableEq, Repr

structure Ipd where
  inIPD : Bool
  inPtr : ℕ
  ptrTotal : ℕ
  connNumber : UInt8
  usartBuffer : Bool
  deriving DecidableEq, Repr

/-- The user callbacks that have been called, and the lines that `ParseReceived` has been given. -/
inductive Event
  | parseReceived (received : List UInt8) (fromUsartBuffer : Bool)
  | deviceReady
  | watchdogReset
  | wifiConnected
  | wifiDisconnected
  | wifiGotIP
  | dhcpTimeout
  | wifiConnectFailed
  | wifiDetected
  | wifiIPSet
  | pingFinished (success : Bool)
  | firmwareUpdateStatus (num : UInt8)
  | firmwareUpdateSuccess
  | firmwareUpdateError
  | connectedStationsDetected
  | clientConnectionConnected (n : Fin 5)
  | clientConnectionClosed (n : Fin 5)
  | clientConnectionError (n : Fin 5)
  | clientConnectionTimeout (n : Fin 5)
  | clientConnectionDataReceived (n : Fin 5) (data : List UInt8)
  | clientConnectionDataSent (n : Fin 5)
  | clientConnectionSendData (n : Fin 5)
  | serverConnectionActive (n : Fin 5)
  | serverConnectionClosed (n : Fin 5)
  | serverConnectionDataReceived (n : Fin 5) (data : List UInt8)
  | serverConnectionDataSent (n : Fin 5)
  | serverConnectionSendData (n : Fin 5)
  deriving DecidableEq, Repr

/-- `ESP8266_t` with the static buffers of the file. `sent` is what has gone to the module and
`log` what has been called, newest first. -/
structure Esp8266 where
  activeCommand : Command
  activeCommandResponse : Option (List UInt8)
  startTime : UInt32
  time : UInt32
  lastReceivedTime : UInt32
  timeout : UInt32
  connection : Fin 5 → Connection
  sentMode : UInt8
  mode : UInt8
  ipd : Ipd
  pingTime : ℤ
  pingSuccess : Bool
  wifiConnectError : UInt8
  startConnectionSent : Fin 5
  totalBytesReceived : ℕ
  totalBytesSent : ℕ
  sendDataConnection : Option (Fin 5)
  waitForWrapper : Bool
  lastOperationStatus : Bool
  wifiIsConnected : Bool
  wifiHasIP : Bool
  result : EspResult
  connectionData : ℕ → UInt8
  usartBuffer : Buffer
  tmpBuffer : Buffer
  sent : List UInt8
  log : List Event

/-- What the library finds around it: the string that a NULL pointer reads, whether string
literals can be overwritten, and the data that the user hands over to be sent. -/
structure Platform where
  stringAtNull : List UInt8
  literalsWritable : Bool
  sendData : Fin 5 → List UInt8

abbrev EspM := Prog Esp8266

def connectionBufferSize : ℕ := 5842

namespace Esp8266

def call (e : Esp8266) (ev : Event) : Esp8266 := { e with log := ev :: e.log }

def setConnection (e : Esp8266) (n : Fin 5) (f : Connection → Connection) : Esp8266 :=
  { e with connection := Function.update e.connection n (f (e.connection n)) }

def resetConnection (e : Esp8266) (n : Fin 5) : Esp8266 :=
  e.setConnection n fun conn =>
    { conn with active := false, client := false, firstPacket := false, headersDone := false }

/-- The data that a connection callback is handed. -/
def packet (e : Esp8266) (n : Fin 5) : List UInt8 := copyFrom e.connectionData 0 (e.connection n).dataSize

end Esp8266

/-- The C string at the start of the bytes. -/
def cString (bytes : List UInt8) : List UInt8 := bytes.takeWhile (· ≠ 0)

/-- `strcmp(str, pattern) == 0` -/
def strEq (str : List UInt8) (pattern : String) : Bool := cString str = ascii pattern

/-- `strncmp(str, pattern, strlen(pattern)) == 0` -/
def strStarts (str : List UInt8) (pattern : String) : Bool := (ascii pattern).isPrefixOf (cString str)

/-- `strstr(str, pattern) != NULL` -/
def strContains (str : List UInt8) (pattern : String) : Bool := decide (ascii pattern <:+: cString str)

def charIsNum (x : UInt8) : Bool := 0x30 ≤ x && x ≤ 0x39

def char2Num (x : UInt8) : UInt8 := x - 0x30

/-- `Connection[CHAR2NUM(x)]`, which is undefined outside the array. -/
def connectionOf (x : UInt8) : Option (Fin 5) :=
  if h : (char2Num x).toNat < 5 then some ⟨(char2Num x).toNat, h⟩ else none

def parseDigits (sum : ℤ) : List UInt8 → ℤ × ℕ
  | [] => (sum, 0)
  | x :: l =>
    if charIsNum x then
      let r := parseDigits (10 * sum + (char2Num x).toNat) l
      (r.1, r.2 + 1)
    else
      (sum, 0)

/-- The number, and how many characters it takes. -/
def parseNumber : List UInt8 → ℤ × ℕ
  | [] => (0, 0)
  | x :: l =>
    if x = 0x2d then
      let r := parseDigits 0 l
      (-r.1, (r.2 + 1) % 256)
    else
      let r := parseDigits 0 (x :: l)
      (r.1, r.2 % 256)

/-- `strtok` with the delimiter `"."`. -/
def strtokDot (str : List UInt8) : Option (List UInt8 × List UInt8) :=
  let str := str.dropWhile (· = 0x2e)
  if str = [] then none
  else some (str.takeWhile (· ≠ 0x2e), (str.dropWhile (· ≠ 0x2e)).drop 1)

def parseIpLoop : ℕ → List UInt8 → List UInt8 × ℕ
  | 0, _ => ([], 0)
  | n + 1, str =>
    match strtokDot str with
    | none => ([], 0)
    | some (token, rest) =>
      let r := parseNumber token
      let s := parseIpLoop n rest
      (UInt8.ofNat (r.1 % 256).toNat :: s.1, r.2 + (if n = 0 then 0 else 1) + s.2)

/-- The address, and how many characters it takes. -/
def parseIP (str : List UInt8) : List UInt8 × ℕ := parseIpLoop 4 (cString (str.take 15))

def callConnectionCallback (e : Esp8266) (n : Fin 5) : Esp8266 :=
  if (e.connection n).active && (e.connection n).callDataReceived then
    if !(e.connection n).client && decide (e.activeCommand ≠ .idle) then e
    else
      let e := e.setConnection n fun conn => { conn with callDataReceived := false }
      if (e.connection n).client then e.call (.clientConnectionDataReceived n (e.packet n))
      else e.call (.serverConnectionDataReceived n (e.packet n))
  else e

def callConnectionCallbacks (e : Esp8266) : Esp8266 := (List.finRange 5).foldl callConnectionCallback e

variable (p : Platform)

/-- The test at the start of `ParseReceived` that a line belongs to the active command. -/
def lineBelongs (e : Esp8266) (received : List UInt8) : Bool :=
  strEq received "OK\r\n" || strEq received "SEND OK\r\n" || strEq received "ERROR\r\n" ||
    strEq received "ready\r\n" || strEq received "busy p...\r\n" || strStarts received "+IPD," ||
    (e.activeCommandResponse.getD p.stringAtNull).isPrefixOf (cString received)

def parseReady (e : Esp8266) (received : List UInt8) : Esp8266 :=
  let e := if strEq received "ready\r\n" then e.call .deviceReady else e
  if strEq received "wdt reset\r\n" then e.call .watchdogReset else e

def Connection.zero : Connection :=
  ⟨false, 0, false, 0, [0, 0, 0, 0], .tcp, 0, 0, false, 0, false, false, 0, false, false⟩

def parseWifi (e : Esp8266) (received : List UInt8) : Esp8266 :=
  if strEq received "WIFI CONNECTED\r\n" then { e with wifiIsConnected := true }.call .wifiConnected
  else if strEq received "WIFI DISCONNECT\r\n" then
    { e with
      wifiIsConnected := false, wifiHasIP := false
      connection := fun _ => Connection.zero }.call .wifiDisconnected
  else if strEq received "WIFI GOT IP\r\n" then { e with wifiHasIP := true }.call .wifiGotIP
  else if strEq received "DHCP TIMEOUT" then e.call .dhcpTimeout
  else e

def dataSentCallback (e : Esp8266) (n : Fin 5) : Esp8266 :=
  if (e.connection n).waitingSentRespond then
    let e := e.setConnection n fun conn => { conn with waitingSentRespond := false }
    if (e.connection n).client then e.call (.clientConnectionDataSent n)
    else e.call (.serverConnectionDataSent n)
  else e

def parseSendOk (e : Esp8266) (received : List UInt8) : Esp8266 :=
  if strContains received "SEND OK\r\n" then
    (List.finRange 5).foldl dataSentCallback { e with activeCommand := .idle }
  else e

/-- The last `n` bytes of the line are the pattern, and a byte stands before them. -/
def endsWith (received : List UInt8) (pattern : String) : Bool :=
  decide ((ascii pattern).length < received.length) && (ascii pattern).isSuffixOf received

/-- The byte before the last `n` bytes of the line. -/
def byteBefore (received : List UInt8) (n : ℕ) : UInt8 := received.getD (received.length - n - 1) 0

def connectionMade (e : Esp8266) (x : UInt8) (n : Fin 5) : Esp8266 :=
  let e := e.setConnection n fun conn => { conn with active := true, number := char2Num x }
  if (e.connection n).client then
    let e := if e.activeCommand = .cipstart then { e with activeCommand := .idle } else e
    e.call (.clientConnectionConnected n)
  else e.call (.serverConnectionActive n)

def connectionClosed (e : Esp8266) (n : Fin 5) : Esp8266 :=
  let client := (e.connection n).client
  let active := (e.connection n).active
  let e := e.resetConnection n
  if active then
    if client then e.call (.clientConnectionClosed n) else e.call (.serverConnectionClosed n)
  else e

def connectionFailed (e : Esp8266) (x : UInt8) (n : Fin 5) : Esp8266 :=
  let e := e.resetConnection n
  let e := e.setConnection n fun conn => { conn with number := char2Num x }
  -- the client flag has just been reset, so the branch is never taken
  if (e.connection n).client then
    let e := if e.activeCommand = .cipstart then { e with activeCommand := .idle } else e
    e.call (.clientConnectionError n)
  else e

def parseConnection (e : Esp8266) (received : List UInt8) : Option Esp8266 :=
  if endsWith received ",CONNECT\r\n" then
    (connectionOf (byteBefore received 10)).map (connectionMade e (byteBefore received 10))
  else if strContains received "ALREADY CONNECTED\r\n" then some e
  else if endsWith received ",CLOSED\r\n" then
    if received.length = 10 then (connectionOf (byteBefore received 9)).map (connectionClosed e)
    else some { e with tmpBuffer := (bufferWrite e.tmpBuffer (received.drop (received.length - 10))).1 }
  else if decide (16 < received.length) &&
      strContains (received.drop (received.length - 15)) ",CONNECT FAIL\r\n" then
    (connectionOf (byteBefore received 15)).map (connectionFailed e (byteBefore received 15))
  else some e

/-- The part of `ParseReceived` for a line that starts with `+IPD,`. It is undefined when the
connection number is out of range or the line has no `:`. -/
def parseIpd (e : Esp8266) (received : List UInt8) (fromUsartBuffer : Bool) : Option Esp8266 :=
  if strStarts received "+IPD," then
    let connNumber := char2Num (received.getD 5 0)
    match connectionOf (received.getD 5 0), received.findIdx? (· = 0x3a) with
    | some n, some colon =>
      let bytesReceived := parseNumber (received.drop 7)
      let ip := parseIP (received.drop (7 + bytesReceived.2 + 1))
      let remotePort := parseNumber (received.drop (7 + bytesReceived.2 + 1 + ip.2 + 1))
      let size := (bytesReceived.1 % 0x100000000).toNat
      let first := decide ((e.connection n).totalBytesReceived = 0)
      let ipdPtr := colon + 1
      let blength := received.length
      let blength := if size < blength - ipdPtr then (size + ipdPtr) % 0x10000 else blength
      let inPtr := blength - ipdPtr
      let e := { e with
        connectionData := copyInto e.connectionData 0 ((received.drop ipdPtr).take inPtr)
        totalBytesReceived := (e.totalBytesReceived + size) % 0x100000000
        ipd := ⟨decide (ipdPtr < size), inPtr % 0x10000, inPtr % 0x10000, connNumber, fromUsartBuffer⟩ }
      some (e.setConnection n fun conn => { conn with
        number := connNumber
        bytesReceived := size
        headersDone := if first then false else conn.headersDone
        firstPacket := first
        totalBytesReceived := (conn.totalBytesReceived + size) % 0x100000000
        remoteIP := ip.1
        remotePort := (remotePort.1 % 0x10000).toNat
        dataSize := if size ≤ ipdPtr then ipdPtr else conn.dataSize
        lastPart := if size ≤ ipdPtr then true else conn.lastPart
        callDataReceived := if size ≤ ipdPtr then true else conn.callDataReceived })
    | _, _ => none
  else some e

/-- `strcpy(ActiveCommandResponse, response)` -/
def strcpyResponse (e : Esp8266) (response : String) : Option Esp8266 :=
  if e.activeCommandResponse.isSome && p.literalsWritable then
    some { e with activeCommandResponse := some (ascii response) }
  else none

/-- The `switch` over the active command. The parsers of the `+CWJAP_CUR`, `+CWLAP`, `+CWSAP`,
`+CIPSTA`, `+CIPAP`, `+CWLIF`, `+CIPSTAMAC` and `+CIPAPMAC` lines fill fields that nothing here
reads. -/
def parseCommand (e : Esp8266) (received : List UInt8) : Option Esp8266 :=
  let ok := strEq received "OK\r\n"
  let failed := strEq received "ERROR\r\n"
  let idle := { e with activeCommand := .idle }
  match e.activeCommand with
  | .cwjap =>
    let e := if strStarts received "+CWJAP:" then
        (strcpyResponse p e "FAIL\r\n").map fun e =>
          { e with wifiConnectError := char2Num (received.getD 7 0) }
      else some e
    e.map fun e =>
      let e := if ok then { e with activeCommand := .idle } else e
      if strEq received "FAIL\r\n" then { e with activeCommand := .idle }.call .wifiConnectFailed else e
  | .cwlap => some (if ok then idle.call .wifiDetected else e)
  | .cipsta => some (if ok then idle.call .wifiIPSet else e)
  | .cwmode => some (if ok then { idle with mode := e.sentMode } else e)
  | .send =>
    if ok then strcpyResponse p { e with activeCommand := .senddata, waitForWrapper := true } "SEND OK"
    else some e
  | .cipstart =>
    let e := if ok then idle else e
    some (if failed then
        ({ e with activeCommand := .idle }.resetConnection e.startConnectionSent).call
          (.clientConnectionError e.startConnectionSent)
      else e)
  | .rst => some (if strEq received "ready\r\n" then { idle with lastOperationStatus := true } else e)
  | .ping =>
    let e := if received.getD 0 0 = 0x2b then { e with pingTime := (parseNumber (received.drop 1)).1 } else e
    some (if ok then { e with activeCommand := .idle, pingSuccess := true }.call (.pingFinished true)
      else if failed then
        { e with activeCommand := .idle, pingSuccess := false }.call (.pingFinished false)
      else e)
  | .ciupdate =>
    let num := char2Num (received.getD 11 0)
    let e := if strStarts received "+CIPUPDATE:" then
        (if num = 4 then { e with timeout := 300000 } else e).call (.firmwareUpdateStatus num)
      else e
    let e := if ok || strEq received "ready\r\n" then
        { e with activeCommand := .idle, timeout := 30000 }.call .firmwareUpdateSuccess
      else e
    some (if failed then { e with activeCommand := .idle, timeout := 30000 }.call .firmwareUpdateError
      else e)
  | .cwlif => some (if ok then idle.call .connectedStationsDetected else e)
  | .cwjapGet | .cwsap | .cipap | .cipserver | .cipmux | .cipdinfo | .atTest | .uart | .close | .sleep | .gslp
  | .cipsto | .restore | .autoconn | .cwqap | .sslbuffersize | .rfpower | .wps | .cipstamac | .cipapmac =>
    some (if ok then idle else e)
  | .idle | .senddata | .ate | .cipstatus => some e

def parseStatus (e : Esp8266) (received : List UInt8) : Esp8266 :=
  let e := if strEq received "OK\r\n" then
      { e with
        lastOperationStatus := true
        activeCommand := if e.activeCommand = .send ∨ e.activeCommand = .senddata then e.activeCommand
          else .idle }
    else e
  let e := if strEq received "ERROR\r\n" || strEq received "busy p...\r\n" then
      { e with lastOperationStatus := false, activeCommand := .idle }
    else e
  if strEq received "SEND OK\r\n" then { e with activeCommand := .idle, waitForWrapper := false } else e

def noteReceived (e : Esp8266) (received : List UInt8) (fromUsartBuffer : Bool) : Esp8266 :=
  { e with lastReceivedTime := e.time }.call (.parseReceived received fromUsartBuffer)

/-- The line does not belong to the active command and has to wait in the temporary buffer. -/
def hasToWait (e : Esp8266) (received : List UInt8) (fromUsartBuffer : Bool) : Bool :=
  decide (e.activeCommand ≠ .idle) && fromUsartBuffer && !lineBelongs p e received

def keepForLater (e : Esp8266) (received : List UInt8) : Esp8266 :=
  { e with tmpBuffer := (bufferWriteString e.tmpBuffer received).1 }

def parseLine (e : Esp8266) (received : List UInt8) (fromUsartBuffer : Bool) : Option Esp8266 :=
  let e := parseSendOk (parseWifi (callConnectionCallbacks (parseReady e received)) received) received
  (parseConnection e received).bind fun e =>
    (parseIpd e received fromUsartBuffer).bind fun e =>
      (parseCommand p e received).map fun e => parseStatus e received

def parseReceived (e : Esp8266) (received : List UInt8) (fromUsartBuffer : Bool) : Option Esp8266 :=
  let e := noteReceived e received fromUsartBuffer
  if received = ascii "\r\n" then some e
  else if hasToWait p e received fromUsartBuffer then some (keepForLater e received)
  else parseLine p e received fromUsartBuffer

def getEsp : EspM Esp8266 := Prog.get

def setEsp (f : Esp8266 → Esp8266) : EspM Unit := Prog.modify f

/-- The inner loop of `BUFFER_Find`. -/
def findRest (b : Buffer) : List UInt8 → ℕ → ℕ → ℕ → ℕ → ℕ × ℕ × ℕ × ℕ
  | [], i, out, num, retval => (i, out, num, retval)
  | x :: l, i, out, num, retval =>
    let out := if b.size ≤ out then 0 else out
    if b.mem out ≠ x then (i, out, num, retval + (i - 1))
    else findRest b l (i + 1) (out + 1) ((num + 0xffffffff) % 0x100000000) retval

def bufferFindRound (b : Buffer) (data : List UInt8) (size : ℕ) :
    ℕ × ℕ × ℕ × Bool → EspM ((ℕ × ℕ × ℕ × Bool) ⊕ Option ℕ) := fun (num, out, retval, found) =>
  if num = 0 then return .inr none
  else
    let out := if b.size ≤ out then 0 else out
    let found := found || decide (b.mem out = data.getD 0 0)
    if found then
      let r := findRest b ((data.take size).drop 1) 1 (out + 1) (num - 1) (retval + 1)
      if r.1 = size then return .inr (some (r.2.2.2 - 1))
      else return .inl (r.2.2.1, r.2.1, r.2.2.2, found)
    else return .inl (num - 1, out + 1, retval + 1, found)

def bufferFind (b : Buffer) (data : List UInt8) (size : ℕ) : EspM (Option ℕ) :=
  if bufferGetFull b < size then return none
  else Prog.loop (bufferFindRound b data size) (bufferGetFull b, b.out, 0, false)

def processSendData (e : Esp8266) : Option Esp8266 :=
  e.sendDataConnection.map fun n =>
    let data := (p.sendData n).take 2046
    let e := e.call (if (e.connection n).client then .clientConnectionSendData n else .serverConnectionSendData n)
    { e with
      waitForWrapper := false
      activeCommand := .senddata
      connectionData := copyInto e.connectionData 0 data
      sent := e.sent ++ data ++ ascii "\\0"
      totalBytesSent := (e.totalBytesSent + data.length) % 0x100000000 }.setConnection n
        fun conn => { conn with waitingSentRespond := true }

def checkTimeout (e : Esp8266) : Esp8266 :=
  let e := if e.timeout = 0 then { e with timeout := 30000 } else e
  if e.timeout < e.time - e.startTime then
    let lastcmd := e.activeCommand
    let e := { e with activeCommand := .idle }
    if lastcmd = .cipstart then
      (e.resetConnection e.startConnectionSent).call (.clientConnectionTimeout e.startConnectionSent)
    else e
  else e

/-- The search for the `> ` wrapper, which `ESP8266_Update` makes in both buffers. -/
def checkWrapper : EspM Unit := do
  let e ← getEsp
  if e.waitForWrapper then
    let found ← bufferFind e.usartBuffer (ascii "> ") 2
    match found with
    | some k =>
      if k = 0 then
        setEsp fun e => { e with usartBuffer := (bufferRead e.usartBuffer 2).1 }
        Prog.attempt fun e => (processSendData p e).map ((), ·)
      else Prog.attempt fun e => (processSendData p e).map ((), ·)
    | none =>
      let found ← bufferFind e.tmpBuffer (ascii "> ") 0
      match found with
      | some k =>
        if k = 0 then
          setEsp fun e => { e with tmpBuffer := (bufferRead e.tmpBuffer 2).1 }
          Prog.attempt fun e => (processSendData p e).map ((), ·)
        else Prog.attempt fun e => (processSendData p e).map ((), ·)
      | none => return ()
  else return ()

def checkUart : EspM Unit := do
  let e ← getEsp
  if decide (e.activeCommand = .uart) && !e.ipd.inIPD then
    let found ← bufferFind e.usartBuffer (ascii "OK\r\n") 4
    if found.isSome then
      setEsp fun e => { e with
        usartBuffer := bufferReset e.usartBuffer, activeCommand := .idle, lastOperationStatus := true }
    else return ()
  else return ()

def receivedSize : ℕ := 128

def usartRound (_ : Unit) : EspM (Unit ⊕ Unit) :=
  Prog.attempt fun e =>
    if e.ipd.inIPD then some (.inr (), e)
    else
      let r := bufferReadString e.usartBuffer receivedSize
      let e := { e with usartBuffer := r.1 }
      if r.2 = [] then some (.inr (), e)
      else (parseReceived p e r.2 true).map (.inl (), ·)

def tmpRound (_ : Unit) : EspM (Unit ⊕ Unit) :=
  Prog.attempt fun e =>
    if e.ipd.inIPD || decide (e.activeCommand ≠ .idle) then some (.inr (), e)
    else
      let r := bufferReadString e.tmpBuffer receivedSize
      let e := { e with tmpBuffer := r.1 }
      if r.2 = [] then some (.inr (), e)
      else (parseReceived p e r.2 false).map (.inl (), ·)

namespace Esp8266

/-- The buffer that the data of the `+IPD` packet come from. -/
def ipdBuffer (e : Esp8266) : Buffer := if e.ipd.usartBuffer then e.usartBuffer else e.tmpBuffer

def setIpdBuffer (e : Esp8266) (b : Buffer) : Esp8266 :=
  if e.ipd.usartBuffer then { e with usartBuffer := b } else { e with tmpBuffer := b }

end Esp8266

def ipdRound (n : Fin 5) (_ : Unit) : EspM (Unit ⊕ Unit) :=
  Prog.attempt fun e =>
    if e.ipd.inPtr < (e.connection n).bytesReceived ∧ 0 < bufferGetFull e.ipdBuffer then
      if e.ipd.inPtr < connectionBufferSize then
        let r := bufferRead e.ipdBuffer 1
        let e := e.setIpdBuffer r.1
        some (.inl (), { e with
          connectionData := copyInto e.connectionData e.ipd.inPtr r.2
          ipd := { e.ipd with
            inPtr := (e.ipd.inPtr + 1) % 0x10000, ptrTotal := (e.ipd.ptrTotal + 1) % 0x10000 } })
      else none
    else some (.inr (), e)

/-- The number after the first `Content-Length: ` in the data. The bytes behind the array are
taken as zero. -/
def contentLength (data : List UInt8) : Option ℕ :=
  ((cString data).tails.find? fun l => (ascii "Content-Length: ").isPrefixOf l).map fun l =>
    ((parseNumber (l.drop 16)).1 % 0x100000000).toNat

def ipdDone (e : Esp8266) (n : Fin 5) : Esp8266 :=
  if (e.connection n).bytesReceived ≤ e.ipd.ptrTotal then
    { e with ipd := { e.ipd with inIPD := false } }.setConnection n fun conn => { conn with
      dataSize := e.ipd.inPtr
      lastPart := true
      contentLength := if conn.firstPacket then
          (contentLength (copyFrom e.connectionData 0 connectionBufferSize)).getD conn.contentLength
        else conn.contentLength
      callDataReceived := true }
  else e

def updateIpd : EspM Unit := do
  let e ← getEsp
  if e.ipd.inIPD then
    if h : e.ipd.connNumber.toNat < 5 then
      Prog.loop (ipdRound ⟨e.ipd.connNumber.toNat, h⟩) ()
      setEsp fun e' => ipdDone e' ⟨e.ipd.connNumber.toNat, h⟩
    else Prog.attempt fun _ => none
  else return ()

def esp8266Update : EspM EspResult := do
  setEsp checkTimeout
  checkWrapper p
  checkUart
  Prog.loop (usartRound p) ()
  Prog.loop (tmpRound p) ()
  updateIpd
  setEsp fun e => { callConnectionCallbacks e with result := .ok }
  return .ok

def esp8266DataReceived (e : Esp8266) (data : List UInt8) : Esp8266 :=
  { e with usartBuffer := (bufferWrite e.usartBuffer data).1 }

def esp8266TimeUpdate (e : Esp8266) (timeIncrease : UInt32) : Esp8266 :=
  { e with time := e.time + timeIncrease }

namespace Esp8266

def withResult (e : Esp8266) (status : EspResult) : Esp8266 := { e with result := status }

def sendText (e : Esp8266) (text : List UInt8) : Esp8266 := { e with sent := e.sent ++ text }

def commandStarted (e : Esp8266) (command : Command) (startRespond : Option (List UInt8)) : Esp8266 :=
  { e with
    usartBuffer := if command = .uart then bufferReset e.usartBuffer else e.usartBuffer
    activeCommand := command
    activeCommandResponse := startRespond
    startTime := e.time }

def clientStarted (e : Esp8266) (n : Fin 5) (type : ConnectionType) : Esp8266 :=
  { e.setConnection n fun conn => { conn with
      active := true, client := true, type := type, totalBytesReceived := 0, number := UInt8.ofNat n } with
    startConnectionSent := n }

end Esp8266

def returnWithStatus (status : EspResult) : EspM EspResult := do
  setEsp fun e => e.withResult status
  return status

/-- `SendCommand` of a command whose text has been sent before. -/
def sendCommand (command : Command) (startRespond : Option (List UInt8)) : EspM EspResult := do
  let e ← getEsp
  if e.activeCommand ≠ .idle then
    let _ ← esp8266Update p
    returnWithStatus .busy
  else
    setEsp fun e => e.commandStarted command startRespond
    returnWithStatus .ok

/-- The search for a connection: the free slot, or that an SSL connection exists already. -/
def freeConnection (type : ConnectionType) (e : Esp8266) : List (Fin 5) → EspResult ⊕ Option (Fin 5)
  | [] => .inr none
  | n :: l =>
    if (e.connection n).active = false then .inr (some n)
    else if type = .ssl ∧ (e.connection n).client = true ∧ (e.connection n).type = .ssl then .inl .error
    else freeConnection type e l

/-- The body of `ESP8266_StartClientConnectionTCP` and of `ESP8266_StartClientConnectionSSL`. -/
def startClientConnection (type : ConnectionType) (protocol : String) (location : List UInt8)
    (port : ℕ) : EspM EspResult := do
  let e ← getEsp
  if e.activeCommand ≠ .idle then
    let _ ← esp8266Update p
    returnWithStatus .busy
  else if e.wifiIsConnected = false then returnWithStatus .wifiNotConnected
  else
    match freeConnection type e (List.finRange 5) with
    | .inl err => returnWithStatus err
    | .inr none => returnWithStatus .error
    | .inr (some n) =>
      setEsp fun e => e.sendText (ascii "AT+CIPSTART=" ++ [0x30 + UInt8.ofNat n] ++ ascii protocol ++
        location ++ ascii "\"," ++ ascii (toString port) ++ ascii "\r\n")
      let status ← sendCommand p .cipstart none
      if status ≠ .ok then return status
      else
        setEsp fun e => e.clientStarted n type
        returnWithStatus .ok

def esp8266StartClientConnectionTCP (location : List UInt8) (port : ℕ) : EspM EspResult :=
  startClientConnection p .tcp ",\"TCP\",\"" location port

def esp8266StartClientConnectionSSL (location : List UInt8) (port : ℕ) : EspM EspResult :=
  startClientConnection p .ssl ",\"SSL\",\"" location port

end Lpc1788Libraries.WiFi

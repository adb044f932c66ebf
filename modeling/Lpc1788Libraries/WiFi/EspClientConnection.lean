import Lpc1788Libraries.WiFi.EspSession
import Mathlib.Data.List.TakeWhile

namespace Lpc1788Libraries.WiFi

open Lpc1788Libraries.Support BoundedProgram

/-- The callbacks that tell the outcome of an attempt on connection `n`. -/
def IsOutcome (n : Fin 5) (ev : Event) : Prop :=
  ev = .clientConnectionConnected n ∨ ev = .clientConnectionError n ∨ ev = .clientConnectionTimeout n

instance (n : Fin 5) (ev : Event) : Decidable (IsOutcome n ev) :=
  inferInstanceAs (Decidable (_ ∨ _ ∨ _))

def outcomes (n : Fin 5) (e : Esp8266) : List Event := e.log.filter (IsOutcome n ·)

/-- What a search for a free slot sees of the other connections. -/
def otherSlots (n : Fin 5) (connection : Fin 5 → Connection) (m : Fin 5) : Option (Bool × Bool × ConnectionType) :=
  if m = n then none else some ((connection m).active, (connection m).client, (connection m).type)

/-- The part of the state that the attempt on connection `n` depends on. -/
structure Attempt where
  command : Command
  response : Option (List UInt8)
  active : Bool
  client : Bool
  connectionSent : Fin 5
  inIPD : Bool
  wrapper : Bool
  startTime : UInt32
  time : UInt32
  timeout : UInt32
  elsewhere : Bool × (Fin 5 → Option (Bool × Bool × ConnectionType))
  usart : Buffer
  tmp : Buffer
  outcomes : List Event

def attempt (n : Fin 5) (e : Esp8266) : Attempt where
  command := e.activeCommand
  response := e.activeCommandResponse
  active := (e.connection n).active
  client := (e.connection n).client
  connectionSent := e.startConnectionSent
  inIPD := e.ipd.inIPD
  wrapper := e.waitForWrapper
  startTime := e.startTime
  time := e.time
  timeout := e.timeout
  elsewhere := (e.wifiIsConnected, otherSlots n e.connection)
  usart := e.usartBuffer
  tmp := e.tmpBuffer
  outcomes := outcomes n e

variable {p : Platform} {n : Fin 5} {e : Esp8266} {a : Attempt} {b : Bool}

theorem otherSlots_update {connection : Fin 5 → Connection} {conn : Connection} {m : Fin 5}
    (h : m = n ∨ (conn.active = (connection m).active ∧ conn.client = (connection m).client ∧ conn.type = (connection m).type)) :
    otherSlots n (Function.update connection m conn) = otherSlots n connection := by
  funext k
  unfold otherSlots
  by_cases hk : k = n
  · rw [if_pos hk, if_pos hk]
  · rw [if_neg hk, if_neg hk]
    by_cases hm : k = m
    · subst hm
      obtain ⟨h1, h2, h3⟩ := h.resolve_left hk
      rw [Function.update_self, h1, h2, h3]
    · rw [Function.update_of_ne hm]

@[simp] theorem otherSlots_update_self {connection : Fin 5 → Connection} {conn : Connection} :
    otherSlots n (Function.update connection n conn) = otherSlots n connection := otherSlots_update (.inl rfl)

theorem attempt_callbacks : attempt n (callConnectionCallbacks e) = attempt n e := by
  refine callConnectionCallbacks_induction (P := fun e' => attempt n e' = attempt n e) e rfl ?_
  intro e' m ev he hev
  rw [← he]
  have hout : ¬ IsOutcome n ev := by
    rcases hev with rfl | rfl <;> simp [IsOutcome]
  by_cases hm : n = m
  · subst hm
    simp [attempt, outcomes, Esp8266.call, Esp8266.setConnection, hout]
  · have hslots : otherSlots n (Function.update e'.connection m { e'.connection m with callDataReceived := false }) =
        otherSlots n e'.connection := otherSlots_update (.inr ⟨rfl, rfl, rfl⟩)
    simp only [attempt, outcomes, Esp8266.call, Esp8266.setConnection, hout, hm, not_false_eq_true, Function.update_of_ne,
      List.filter_cons, decide_false, Bool.false_eq_true, if_false, ne_eq, hslots]

def okLine : List UInt8 := ascii "OK\r\n"
def errorLine : List UInt8 := ascii "ERROR\r\n"
def connectLine (n : Fin 5) : List UInt8 := digit n :: ascii ",CONNECT\r\n"
def connectFailLine (n : Fin 5) : List UInt8 := digit n :: ascii ",CONNECT FAIL\r\n"

/-- The line is not put aside for the time after the active command. -/
def Accepted (p : Platform) (a : Attempt) (received : List UInt8) (b : Bool) : Prop :=
  a.command = .idle ∨ b = false ∨
    (strEq received "OK\r\n" || strEq received "ERROR\r\n") = true ∨
    (a.response.getD p.stringAtNull).isPrefixOf (cString received) = true

/-- Lines that `ParseReceived` does not take for a Wi-Fi, a data or an `+IPD` line. -/
def Plain (received : List UInt8) : Prop :=
  received ≠ blankLine ∧ strEq received "ready\r\n" = false ∧ strEq received "wdt reset\r\n" = false ∧
    strEq received "WIFI CONNECTED\r\n" = false ∧ strEq received "WIFI DISCONNECT\r\n" = false ∧
    strEq received "WIFI GOT IP\r\n" = false ∧ strEq received "DHCP TIMEOUT" = false ∧
    strContains received "SEND OK\r\n" = false ∧ strEq received "SEND OK\r\n" = false ∧
    strEq received "busy p...\r\n" = false ∧ strStarts received "+IPD," = false

instance (received : List UInt8) : Decidable (Plain received) :=
  inferInstanceAs (Decidable (_ ∧ _))

theorem plain_ok : Plain okLine := by decide
theorem plain_error : Plain errorLine := by decide
theorem plain_connect (n : Fin 5) : Plain (connectLine n) := by revert n; decide
theorem plain_connectFail (n : Fin 5) : Plain (connectFailLine n) := by revert n; decide

theorem attempt_noteReceived {received : List UInt8} :
    attempt n (noteReceived e received b) = attempt n e := by
  simp [attempt, outcomes, noteReceived, Esp8266.call, IsOutcome]

theorem parseReceived_blank :
    parseReceived p e blankLine b = some (noteReceived e blankLine b) := by
  unfold parseReceived
  exact if_pos rfl

theorem hasToWait_eq_false {received : List UInt8} (ha : Accepted p (attempt n e) received b) :
    hasToWait p e received b = false := by
  rcases ha with ha | ha | ha | ha
  · have : e.activeCommand = .idle := ha
    simp [hasToWait, this]
  · simp [hasToWait, ha]
  · rcases (Bool.or_eq_true _ _).mp ha with ha | ha <;> simp [hasToWait, lineBelongs, ha]
  · have : (e.activeCommandResponse.getD p.stringAtNull).isPrefixOf (cString received) = true := ha
    simp [hasToWait, lineBelongs, this]

theorem parseReceived_plain {received : List UInt8} (hp : Plain received)
    (ha : Accepted p (attempt n e) received b) :
    ∃ e₁, attempt n e₁ = attempt n e ∧ parseReceived p e received b =
      (parseConnection e₁ received).bind fun e =>
        (parseCommand p e received).map fun e => parseStatus e received := by
  obtain ⟨h1, h2, h3, h4, h5, h6, h7, h8, h9, h10, h11⟩ := hp
  refine ⟨callConnectionCallbacks (noteReceived e received b), ?_, ?_⟩
  · rw [attempt_callbacks, attempt_noteReceived]
  · have hput : hasToWait p (noteReceived e received b) received b = false := by
      refine hasToWait_eq_false (n := n) ?_
      rwa [attempt_noteReceived]
    have hblank : ¬ received = ascii "\r\n" := h1
    simp only [parseReceived, hblank, if_false, hput, Bool.false_eq_true, parseLine, parseReady,
      parseWifi, parseSendOk, parseIpd, h2, h3, h4, h5, h6, h7, h8, h11, Option.bind_some]

theorem parseReceived_wait {received : List UInt8} (hb : received ≠ blankLine)
    (ha : ¬ Accepted p (attempt n e) received b) (hp : Plain received) :
    parseReceived p e received b = some (keepForLater (noteReceived e received b) received) := by
  have hput : hasToWait p (noteReceived e received b) received b = true := by
    obtain ⟨h1, h2, h3, h4, h5, h6, h7, h8, h9, h10, h11⟩ := hp
    simp only [Accepted, not_or] at ha
    obtain ⟨ha1, ha2, ha3, ha4⟩ := ha
    have hc : (noteReceived e received b).activeCommand ≠ .idle := ha1
    have hr : ¬ ((noteReceived e received b).activeCommandResponse.getD p.stringAtNull).isPrefixOf
        (cString received) = true := ha4
    obtain rfl : b = true := Bool.not_eq_false _ ▸ ha2
    simp only [Bool.or_eq_true, not_or, Bool.not_eq_true] at ha3 hr
    simp [hasToWait, lineBelongs, hc, ha3.1, ha3.2, h2, h9, h10, h11, hr]
  have hblank : ¬ received = ascii "\r\n" := hb
  simp only [parseReceived, hblank, if_false, hput, if_true]

/-- A line that tells nothing about connections. -/
def Quiet (received : List UInt8) : Prop :=
  endsWith received ",CONNECT\r\n" = false ∧ strContains received "ALREADY CONNECTED\r\n" = false ∧
    endsWith received ",CLOSED\r\n" = false ∧ received.length ≤ 16

instance (received : List UInt8) : Decidable (Quiet received) := inferInstanceAs (Decidable (_ ∧ _))

theorem Quiet.parseConnection {received : List UInt8} (h : Quiet received) :
    parseConnection e received = some e := by
  obtain ⟨h1, h2, h3, h4⟩ := h
  simp [WiFi.parseConnection, h1, h2, h3, Nat.not_lt.mpr h4]

theorem quiet_ok : Quiet okLine := by decide
theorem quiet_error : Quiet errorLine := by decide

theorem quiet_connectFail (n : Fin 5) : Quiet (connectFailLine n) := by revert n; decide

theorem parseReceived_ok (hc : e.activeCommand = .cipstart ∨ e.activeCommand = .idle) :
    ∃ e', parseReceived p e okLine b = some e' ∧
      attempt n e' = { attempt n e with command := .idle } := by
  obtain ⟨e₁, h₁, hrec⟩ := parseReceived_plain (p := p) (n := n) (e := e)  plain_ok
    (.inr (.inr (.inl (by decide))))
  have hok : strEq okLine "OK\r\n" = true := by decide
  have herr : strEq okLine "ERROR\r\n" = false := by decide
  have hbusy : strEq okLine "busy p...\r\n" = false := by decide
  have hsend : strEq okLine "SEND OK\r\n" = false := by decide
  have hcmd : e₁.activeCommand = e.activeCommand := congrArg Attempt.command h₁
  rw [quiet_ok.parseConnection, Option.bind_some] at hrec
  refine ⟨parseStatus { e₁ with activeCommand := .idle } okLine, ?_, ?_⟩
  · rw [hrec]
    rcases hc with hc | hc
    · simp [parseCommand, hcmd, hc, hok, herr]
    · have hsame : e₁ = { e₁ with activeCommand := .idle } := by rw [← hc, ← hcmd]
      rw [← hsame]
      simp [parseCommand, hcmd, hc]
  · rw [← h₁]
    simp [parseStatus, hok, herr, hbusy, hsend, attempt, outcomes]

theorem parseReceived_error_idle (hc : e.activeCommand = .idle) :
    ∃ e', parseReceived p e errorLine b = some e' ∧ attempt n e' = attempt n e := by
  obtain ⟨e₁, h₁, hrec⟩ := parseReceived_plain (p := p) (n := n) (e := e) 
    plain_error (.inr (.inr (.inl (by decide))))
  have hok : strEq errorLine "OK\r\n" = false := by decide
  have hsend : strEq errorLine "SEND OK\r\n" = false := by decide
  have herr : strEq errorLine "ERROR\r\n" = true := by decide
  have hcmd : e₁.activeCommand = e.activeCommand := congrArg Attempt.command h₁
  rw [quiet_error.parseConnection, Option.bind_some] at hrec
  refine ⟨parseStatus e₁ errorLine, ?_, ?_⟩
  · rw [hrec]
    simp [parseCommand, hcmd, hc]
  · rw [← h₁]
    simp [parseStatus, hok, herr, hsend, attempt, outcomes, hcmd, hc]

theorem parseReceived_error (hc : e.activeCommand = .cipstart) (hn : e.startConnectionSent = n) :
    ∃ e', parseReceived p e errorLine b = some e' ∧
      attempt n e' = { attempt n e with
        command := .idle, active := false, client := false
        outcomes := .clientConnectionError n :: (attempt n e).outcomes } := by
  obtain ⟨e₁, h₁, hrec⟩ := parseReceived_plain (p := p) (n := n) (e := e) 
    plain_error (.inr (.inr (.inl (by decide))))
  have hok : strEq errorLine "OK\r\n" = false := by decide
  have hsend : strEq errorLine "SEND OK\r\n" = false := by decide
  have herr : strEq errorLine "ERROR\r\n" = true := by decide
  have hcmd : e₁.activeCommand = e.activeCommand := congrArg Attempt.command h₁
  have hsent : e₁.startConnectionSent = n := (congrArg Attempt.connectionSent h₁).trans hn
  rw [quiet_error.parseConnection, Option.bind_some] at hrec
  let e₂ := ({ e₁ with activeCommand := .idle }.resetConnection n).call (.clientConnectionError n)
  refine ⟨parseStatus e₂ errorLine, ?_, ?_⟩
  · rw [hrec]
    simp [parseCommand, hcmd, hc, hok, herr, e₂, hsent]
  · rw [← h₁]
    simp [parseStatus, hok, herr, hsend, attempt, outcomes, e₂, Esp8266.call, Esp8266.resetConnection,
      Esp8266.setConnection, IsOutcome]

theorem parseReceived_connect (hc : e.activeCommand = .cipstart ∨ e.activeCommand = .idle)
    (hcl : (e.connection n).client = true) (ha : Accepted p (attempt n e) (connectLine n) b) :
    ∃ e', parseReceived p e (connectLine n) b = some e' ∧
      attempt n e' = { attempt n e with
        command := .idle, active := true
        outcomes := .clientConnectionConnected n :: (attempt n e).outcomes } := by
  obtain ⟨e₁, h₁, hrec⟩ := parseReceived_plain (plain_connect n) ha
  have hend : ∀ n, endsWith (connectLine n) ",CONNECT\r\n" = true := by decide
  have hbyte : ∀ n, byteBefore (connectLine n) 10 = digit n := by decide
  have hconn : ∀ n, connectionOf (digit n) = some n := by decide
  have hok : ∀ n, strEq (connectLine n) "OK\r\n" = false := by decide
  have herr : ∀ n, strEq (connectLine n) "ERROR\r\n" = false := by decide
  have hbusy : ∀ n, strEq (connectLine n) "busy p...\r\n" = false := by decide
  have hsend : ∀ n, strEq (connectLine n) "SEND OK\r\n" = false := by decide
  have hcmd : e₁.activeCommand = .cipstart ∨ e₁.activeCommand = .idle :=
    hc.imp (congrArg Attempt.command h₁).trans (congrArg Attempt.command h₁).trans
  have hcl₁ : (e₁.connection n).client = true := (congrArg Attempt.client h₁).trans hcl
  have hmade : parseConnection e₁ (connectLine n) = some (connectionMade e₁ (digit n) n) := by
    simp [parseConnection, hend, hbyte, hconn]
  rw [hmade, Option.bind_some] at hrec
  let e₂ := { e₁.setConnection n fun conn => { conn with active := true, number := char2Num (digit n) } with
    activeCommand := .idle }
  have he₂ : connectionMade e₁ (digit n) n = e₂.call (.clientConnectionConnected n) := by
    rcases hcmd with hcmd | hcmd
    · simp [connectionMade, e₂, Esp8266.setConnection, hcl₁, hcmd]
    · simp [connectionMade, e₂, Esp8266.setConnection, hcl₁, hcmd]
  refine ⟨e₂.call (.clientConnectionConnected n), ?_, ?_⟩
  · rw [hrec, he₂]
    simp [parseCommand, e₂, Esp8266.call, parseStatus, hok, herr, hbusy, hsend]
  · rw [← h₁]
    simp [attempt, outcomes, e₂, Esp8266.call, Esp8266.setConnection, IsOutcome]

theorem parseReceived_connect_late (hc : e.activeCommand = .idle) (hcl : (e.connection n).client = false) :
    ∃ e', parseReceived p e (connectLine n) b = some e' ∧
      attempt n e' = { attempt n e with active := true } := by
  obtain ⟨e₁, h₁, hrec⟩ := parseReceived_plain (p := p) (n := n) (e := e) (b := b) (plain_connect n) (.inl hc)
  have hend : ∀ n, endsWith (connectLine n) ",CONNECT\r\n" = true := by decide
  have hbyte : ∀ n, byteBefore (connectLine n) 10 = digit n := by decide
  have hconn : ∀ n, connectionOf (digit n) = some n := by decide
  have hok : ∀ n, strEq (connectLine n) "OK\r\n" = false := by decide
  have herr : ∀ n, strEq (connectLine n) "ERROR\r\n" = false := by decide
  have hbusy : ∀ n, strEq (connectLine n) "busy p...\r\n" = false := by decide
  have hsend : ∀ n, strEq (connectLine n) "SEND OK\r\n" = false := by decide
  have hcmd : e₁.activeCommand = .idle := (congrArg Attempt.command h₁).trans hc
  have hcl₁ : (e₁.connection n).client = false := (congrArg Attempt.client h₁).trans hcl
  let e₂ := e₁.setConnection n fun conn => { conn with active := true, number := char2Num (digit n) }
  have hmade : parseConnection e₁ (connectLine n) = some (e₂.call (.serverConnectionActive n)) := by
    simp [parseConnection, hend, hbyte, hconn, connectionMade, e₂, Esp8266.setConnection, hcl₁]
  rw [hmade, Option.bind_some] at hrec
  have hcmd₂ : (e₂.call (.serverConnectionActive n)).activeCommand = .idle := hcmd
  refine ⟨e₂.call (.serverConnectionActive n), ?_, ?_⟩
  · rw [hrec]
    simp [parseCommand, hcmd₂, parseStatus, hok, herr, hbusy, hsend]
  · rw [← h₁]
    simp [attempt, outcomes, e₂, Esp8266.call, Esp8266.setConnection, IsOutcome]

theorem parseReceived_connectFail (hc : e.activeCommand = .cipstart ∨ e.activeCommand = .idle)
    (ha : Accepted p (attempt n e) (connectFailLine n) b) :
    ∃ e', parseReceived p e (connectFailLine n) b = some e' ∧ attempt n e' = attempt n e := by
  obtain ⟨e₁, h₁, hrec⟩ := parseReceived_plain (plain_connectFail n) ha
  have hok : ∀ n, strEq (connectFailLine n) "OK\r\n" = false := by decide
  have herr : ∀ n, strEq (connectFailLine n) "ERROR\r\n" = false := by decide
  have hbusy : ∀ n, strEq (connectFailLine n) "busy p...\r\n" = false := by decide
  have hsend : ∀ n, strEq (connectFailLine n) "SEND OK\r\n" = false := by decide
  have hcmd : e₁.activeCommand = .cipstart ∨ e₁.activeCommand = .idle :=
    hc.imp (congrArg Attempt.command h₁).trans (congrArg Attempt.command h₁).trans
  rw [(quiet_connectFail n).parseConnection, Option.bind_some] at hrec
  refine ⟨e₁, ?_, h₁⟩
  rw [hrec]
  rcases hcmd with hcmd | hcmd <;> simp [parseCommand, hcmd, parseStatus, hok, herr, hbusy, hsend]

section session

inductive Answer
  | connectOk
  | okConnect
  | connectFail
  | connectFailError
  | error
  | silence
  deriving DecidableEq

namespace Answer

def lines (n : Fin 5) : Answer → List (List UInt8)
  | connectOk => [connectLine n, okLine]
  | okConnect => [okLine, connectLine n]
  | connectFail => [connectFailLine n]
  | connectFailError => [connectFailLine n, errorLine]
  | error => [errorLine]
  | silence => []

def connects : Answer → Bool
  | connectOk => true
  | okConnect => true
  | _ => false

/-- The answer ends with a line that ends the attempt. -/
def refuses : Answer → Bool
  | connectFailError => true
  | error => true
  | _ => false

end Answer

/-- The line of a connect answer that ends the command: its first line, unless that is an `n,CONNECT` that does not match the
response of the command and has to wait for the `OK`. -/
def decidingLine (p : Platform) (n : Fin 5) : Answer → List UInt8
  | .connectOk => if p.stringAtNull.isPrefixOf (connectLine n) then connectLine n else okLine
  | _ => okLine

/-- How far the attempt has come, with the lines that wait in the temporary buffer and the lines
that are still to be parsed. It is in time as long as it has not been given up; `d` is the deciding line. -/
inductive Phase (inTime : Prop) (d : List UInt8) (n : Fin 5) (base : List Event) :
    Answer → Command → Bool → Bool → List Event → List UInt8 → List (List UInt8) → Prop
  | waiting (ans : Answer) (hin : ans.connects = true → inTime) : Phase inTime d n base ans .cipstart true true base [] (ans.lines n)
  | putAside (hin : inTime) (hd : d = okLine) : Phase inTime d n base .connectOk .cipstart true true base (connectLine n) [okLine]
  | resumed (hin : inTime) : Phase inTime d n base .connectOk .idle true true base (connectLine n) []
  | accepted (hin : inTime) : Phase inTime d n base .okConnect .idle true true base [] [connectLine n]
  | connected (ans : Answer) (rest : List (List UInt8)) (hin : inTime) (hans : ans.connects = true)
      (hrest : rest = [] ∨ rest = [okLine] ∧ d ≠ okLine) :
      Phase inTime d n base ans .idle true true (.clientConnectionConnected n :: base) [] rest
  | refused (ans : Answer) (rest : List (List UInt8)) (tmp : List UInt8)
      (hrest : ans = .connectFail ∧ rest = [] ∨ ans = .connectFailError ∧ rest = [errorLine])
      (htmp : tmp = [] ∨ tmp = connectFailLine n) : Phase inTime d n base ans .cipstart true true base tmp rest
  | complete (ans : Answer) (outcome : Event) (rest : List (List UInt8)) (tmp : List UInt8)
      (hans : ans.connects = false)
      (hout : outcome = .clientConnectionError n ∨ outcome = .clientConnectionTimeout n)
      (hrest : ∀ l ∈ rest, l = connectFailLine n ∨ l = errorLine)
      (htmp : tmp = [] ∨ tmp = connectFailLine n) :
      Phase inTime d n base ans .idle false false (outcome :: base) tmp rest
  | late (ans : Answer) (act : Bool) (rest : List (List UInt8)) (tmp : List UInt8) (hlate : ¬ inTime)
      (hans : ans.connects = true) (hact : act = true ∨ connectLine n ∈ rest ∨ tmp = connectLine n)
      (hrest : ∀ l ∈ rest, l = connectLine n ∨ l = okLine) (htmp : tmp = [] ∨ tmp = connectLine n) :
      Phase inTime d n base ans .idle act false (.clientConnectionTimeout n :: base) tmp rest

def PhaseOf (inTime : Prop) (d : List UInt8) (n : Fin 5) (base : List Event) (ans : Answer) (a : Attempt)
    (rest : List (List UInt8)) : Prop :=
  Phase inTime d n base ans a.command a.active a.client a.outcomes a.tmp.contents rest

variable {inTime inTime' : Prop} {d : List UInt8} {base : List Event} {ans : Answer} {l : List UInt8}
  {rest : List (List UInt8)}

theorem PhaseOf.command_eq (h : PhaseOf inTime d n base ans a rest) : a.command = .cipstart ∨ a.command = .idle := by
  unfold PhaseOf at h
  generalize a.command = cmd at h ⊢
  generalize a.active = act at h
  generalize a.client = cli at h
  generalize a.outcomes = out at h
  generalize a.tmp.contents = tmp at h
  cases h <;> simp

theorem PhaseOf.change (hiff : ans.connects = true → (inTime ↔ inTime')) (h : PhaseOf inTime d n base ans a rest) :
    PhaseOf inTime' d n base ans a rest := by
  unfold PhaseOf at h ⊢
  generalize a.command = cmd at h ⊢
  generalize a.active = act at h ⊢
  generalize a.client = cli at h ⊢
  generalize a.outcomes = out at h ⊢
  generalize a.tmp.contents = tmp at h ⊢
  cases h with
  | waiting _ hin => exact .waiting _ fun hans => (hiff hans).mp (hin hans)
  | putAside hin hd => exact .putAside ((hiff rfl).mp hin) hd
  | resumed hin => exact .resumed ((hiff rfl).mp hin)
  | accepted hin => exact .accepted ((hiff rfl).mp hin)
  | connected _ _ hin hans hrest => exact .connected _ _ ((hiff hans).mp hin) hans hrest
  | refused _ _ _ hrest htmp => exact .refused _ _ _ hrest htmp
  | complete _ _ _ _ hans hout hrest htmp => exact .complete _ _ _ _ hans hout hrest htmp
  | late _ _ _ _ hlate hans hact hrest htmp => exact .late _ _ _ _ (fun hin => hlate ((hiff hans).mpr hin)) hans hact hrest htmp

theorem decidingLine_cases (p : Platform) (n : Fin 5) (ans : Answer) :
    decidingLine p n ans = connectLine n ∧ ans = .connectOk ∨ decidingLine p n ans = okLine := by
  cases ans with
  | connectOk =>
    by_cases hnull : p.stringAtNull.isPrefixOf (connectLine n) = true
    · exact .inl ⟨if_pos hnull, rfl⟩
    · exact .inr (if_neg hnull)
  | _ => exact .inr rfl

theorem connectLine_ne_ok (n : Fin 5) : connectLine n ≠ okLine := by revert n; decide

theorem PhaseOf.deciding (hd : d = decidingLine p n ans) (hans : ans.connects = true) (hin : inTime)
    (h : PhaseOf inTime d n base ans a rest) : a.command = .cipstart ↔ d ∈ rest := by
  unfold PhaseOf at h
  generalize a.command = cmd at h ⊢
  generalize a.active = act at h
  generalize a.client = cli at h
  generalize a.outcomes = out at h
  generalize a.tmp.contents = tmp at h
  have hne := connectLine_ne_ok n
  cases h with
  | waiting =>
    have hmem : d ∈ ans.lines n := by
      rcases decidingLine_cases p n ans with ⟨hline, rfl⟩ | hline
      · rw [hd, hline]
        exact List.mem_cons_self
      · rw [hd, hline]
        cases ans <;> simp_all [Answer.lines, Answer.connects]
    simp [hmem]
  | putAside _ hok => simp [hok]
  | resumed => simp
  | accepted =>
    have hok : d = okLine := hd
    simp [hok, hne.symm]
  | connected _ _ _ _ hrest =>
    rcases hrest with rfl | ⟨rfl, hok⟩
    · simp
    · simp [hok]
  | refused _ _ _ hrest => rcases hrest with ⟨rfl, -⟩ | ⟨rfl, -⟩ <;> cases hans
  | complete _ _ _ _ hrefused =>
    rw [hans] at hrefused
    cases hrefused
  | late _ _ _ _ hlate => exact absurd hin hlate

structure Linked (n : Fin 5) (a : Attempt) : Prop where
  usart_valid : a.usart.Valid
  usart_size : a.usart.size = 1024
  usart_delimiter : a.usart.stringDelimiter = 0x0a
  tmp_valid : a.tmp.Valid
  tmp_size : a.tmp.size = 512
  tmp_delimiter : a.tmp.stringDelimiter = 0x0a
  sent : a.connectionSent = n
  inIPD : a.inIPD = false
  wrapper : a.wrapper = false
  response : a.response = none

/-- What a parsed line leaves alone. -/
structure Unmoved (a b : Attempt) : Prop where
  usart : b.usart = a.usart
  startTime : b.startTime = a.startTime
  time : b.time = a.time
  timeout : b.timeout = a.timeout
  elsewhere : b.elsewhere = a.elsewhere
  idle : a.command = .idle → b.command = .idle

theorem Unmoved.trans {a b c : Attempt} (h : Unmoved a b) (h' : Unmoved b c) : Unmoved a c :=
  ⟨h'.usart.trans h.usart, h'.startTime.trans h.startTime, h'.time.trans h.time,
    h'.timeout.trans h.timeout, h'.elsewhere.trans h.elsewhere, fun hi => h'.idle (h.idle hi)⟩

theorem keepForLater_attempt {received : List UInt8} (hl : Linked n (attempt n e))
    (ht : e.tmpBuffer.contents = []) (hz : 0 ∉ received) (hlen : received.length ≤ 511) :
    (attempt n (keepForLater (noteReceived e received b) received)).tmp.contents = received ∧
      Linked n (attempt n (keepForLater (noteReceived e received b) received)) ∧
      attempt n (keepForLater (noteReceived e received b) received) =
        { attempt n e with tmp := (bufferWriteString e.tmpBuffer received).1 } := by
  have hv : e.tmpBuffer.Valid := hl.tmp_valid
  have hs : e.tmpBuffer.size = 512 := hl.tmp_size
  have hattempt : attempt n (keepForLater (noteReceived e received b) received) =
      { attempt n e with tmp := (bufferWriteString e.tmpBuffer received).1 } := by
    have hnote : attempt n (noteReceived e received b) = attempt n e := attempt_noteReceived
    rw [← hnote]
    rfl
  have hcut : received.takeWhile (· ≠ 0) = received := by
    rw [List.takeWhile_eq_self_iff]
    intro x hx
    simpa using fun h : x = 0 => hz (h ▸ hx)
  have hfull : bufferGetFull e.tmpBuffer = 0 := by rw [← length_contents, ht]; rfl
  have hfree := free_add_full hv
  refine ⟨?_, ?_, hattempt⟩
  · rw [hattempt]
    change (bufferWrite e.tmpBuffer (received.takeWhile (· ≠ 0))).1.contents = received
    rw [hcut, bufferWrite_contents hv, ht, List.take_of_length_le (by omega)]
    rfl
  · rw [hattempt]
    exact { hl with
      tmp_valid := bufferWrite_valid hv
      tmp_size := (bufferWrite_size hv).trans hs
      tmp_delimiter := (bufferWrite_delimiter hv).trans hl.tmp_delimiter }

theorem connectLine_facts (n : Fin 5) : 0 ∉ connectLine n ∧ (connectLine n).length ≤ 511 ∧
    connectLine n ≠ blankLine := by revert n; decide

theorem connectFailLine_facts (n : Fin 5) : 0 ∉ connectFailLine n ∧ (connectFailLine n).length ≤ 511 ∧
    connectFailLine n ≠ blankLine := by revert n; decide

theorem Linked.step {e' : Esp8266} {cmd : Command} {act cli : Bool} {out : List Event}
    (hl : Linked n (attempt n e))
    (h : attempt n e' = { attempt n e with command := cmd, active := act, client := cli, outcomes := out })
    (hc : e.activeCommand = .idle → cmd = .idle) :
    Linked n (attempt n e') ∧ Unmoved (attempt n e) (attempt n e') := by
  rw [h]
  exact ⟨{ hl with }, ⟨rfl, rfl, rfl, rfl, rfl, hc⟩⟩

theorem Linked.keep {received : List UInt8} (hl : Linked n (attempt n e))
    (ht : e.tmpBuffer.contents = []) (hz : 0 ∉ received) (hlen : received.length ≤ 511) :
    ∃ t, attempt n (keepForLater (noteReceived e received b) received) =
        { attempt n e with tmp := t } ∧ t.contents = received ∧
      Linked n (attempt n (keepForLater (noteReceived e received b) received)) ∧
      Unmoved (attempt n e) (attempt n (keepForLater (noteReceived e received b) received)) := by
  obtain ⟨h1, h2, h3⟩ := keepForLater_attempt (b := b) hl ht hz hlen
  refine ⟨_, h3, ?_, h2, ?_⟩
  · rwa [h3] at h1
  · rw [h3]
    exact ⟨rfl, rfl, rfl, rfl, rfl, id⟩

theorem connectFail_line (hl : Linked n (attempt n e))
    (hcmd : e.activeCommand = .cipstart ∨ e.activeCommand = .idle)
    (ht : e.tmpBuffer.contents = [] ∨ e.activeCommand = .idle) :
    ∃ e', parseReceived p e (connectFailLine n) true = some e' ∧
      Linked n (attempt n e') ∧ Unmoved (attempt n e) (attempt n e') ∧
      ∃ t, attempt n e' = { attempt n e with tmp := t } ∧
        (t = (attempt n e).tmp ∨ t.contents = connectFailLine n) := by
  by_cases ha : Accepted p (attempt n e) (connectFailLine n) true
  · obtain ⟨e', he', h'⟩ := parseReceived_connectFail hcmd ha
    obtain ⟨h1, h2⟩ := hl.step h' id
    exact ⟨e', he', h1, h2, _, h', .inl rfl⟩
  · obtain ⟨hz, hlen, hb⟩ := connectFailLine_facts n
    have ht : e.tmpBuffer.contents = [] := ht.resolve_right fun h => ha (.inl h)
    obtain ⟨t, h', hc, h1, h2⟩ := hl.keep (b := true) ht hz hlen
    exact ⟨_, parseReceived_wait hb ha (plain_connectFail n), h1, h2, t, h', .inr hc⟩

theorem decidingLine_accepted (hl : Linked n (attempt n e)) (hc : e.activeCommand = .cipstart) :
    (Accepted p (attempt n e) (connectLine n) true → decidingLine p n .connectOk = connectLine n) ∧
      (¬ Accepted p (attempt n e) (connectLine n) true → decidingLine p n .connectOk = okLine) := by
  have hnone : (attempt n e).response = none := hl.response
  have hcmd : (attempt n e).command = .cipstart := hc
  have hlines : ∀ n, (strEq (connectLine n) "OK\r\n" || strEq (connectLine n) "ERROR\r\n") = false ∧
      cString (connectLine n) = connectLine n := by decide
  obtain ⟨hline, hstring⟩ := hlines n
  have hiff : Accepted p (attempt n e) (connectLine n) true ↔ p.stringAtNull.isPrefixOf (connectLine n) = true := by
    simp [Accepted, hnone, hcmd, hline, hstring]
  rw [hiff]
  exact ⟨fun h => if_pos h, fun h => if_neg h⟩

theorem phase_line (hd : d = decidingLine p n ans) (hl : Linked n (attempt n e))
    (h : PhaseOf inTime d n base ans (attempt n e) (l :: rest)) :
    ∃ e', parseReceived p e l true = some e' ∧ PhaseOf inTime d n base ans (attempt n e') rest ∧
      Linked n (attempt n e') ∧ Unmoved (attempt n e) (attempt n e') := by
  unfold PhaseOf at h
  generalize hR : l :: rest = R at h
  generalize hcmd : (attempt n e).command = cmd at h
  generalize hact : (attempt n e).active = act at h
  generalize hcli : (attempt n e).client = cli at h
  generalize hout : (attempt n e).outcomes = out at h
  generalize htmp : (attempt n e).tmp.contents = tmp at h
  have hsent : e.startConnectionSent = n := hl.sent
  cases h with
  | waiting _ hin =>
    have hcmd' : e.activeCommand = .cipstart := hcmd
    cases ans with
    | connectOk =>
      obtain ⟨rfl, rfl⟩ : l = connectLine n ∧ rest = [okLine] := by simpa [Answer.lines] using hR
      have hin := hin rfl
      obtain ⟨hconnect, hok⟩ := decidingLine_accepted (p := p) hl hcmd'
      by_cases ha : Accepted p (attempt n e) (connectLine n) true
      · rw [hconnect ha] at hd
        obtain ⟨e', he', h'⟩ := parseReceived_connect (.inl hcmd') hcli ha
        refine ⟨e', he', ?_, hl.step h' fun _ => rfl⟩
        simp only [PhaseOf, h', hcli, hout, htmp]
        exact .connected _ _ hin rfl (.inr ⟨rfl, hd ▸ connectLine_ne_ok n⟩)
      · rw [hok ha] at hd
        obtain ⟨hz, hlen, hb⟩ := connectLine_facts n
        obtain ⟨t, h', hc, h1⟩ := hl.keep (b := true) htmp hz hlen
        refine ⟨_, parseReceived_wait hb ha (plain_connect n), ?_, h1⟩
        simp only [PhaseOf, h', hcmd, hact, hcli, hout, hc]
        exact .putAside hin hd
    | okConnect =>
      obtain ⟨rfl, rfl⟩ : l = okLine ∧ rest = [connectLine n] := by simpa [Answer.lines] using hR
      obtain ⟨e', he', h'⟩ := parseReceived_ok (p := p) (n := n) (.inl hcmd')
      refine ⟨e', he', ?_, hl.step h' fun _ => rfl⟩
      simp only [PhaseOf, h', hact, hcli, hout, htmp]
      exact .accepted (hin rfl)
    | connectFail =>
      obtain ⟨rfl, rfl⟩ : l = connectFailLine n ∧ rest = [] := by simpa [Answer.lines] using hR
      obtain ⟨e', he', h1, h2, t, h', ht⟩ := connectFail_line (p := p) hl (.inl hcmd') (.inl htmp)
      refine ⟨e', he', ?_, h1, h2⟩
      simp only [PhaseOf, h', hcmd, hact, hcli, hout]
      exact .refused _ _ _ (.inl ⟨rfl, rfl⟩) (ht.imp (fun h => by rw [h, htmp]) id)
    | connectFailError =>
      obtain ⟨rfl, rfl⟩ : l = connectFailLine n ∧ rest = [errorLine] := by simpa [Answer.lines] using hR
      obtain ⟨e', he', h1, h2, t, h', ht⟩ := connectFail_line (p := p) hl (.inl hcmd') (.inl htmp)
      refine ⟨e', he', ?_, h1, h2⟩
      simp only [PhaseOf, h', hcmd, hact, hcli, hout]
      exact .refused _ _ _ (.inr ⟨rfl, rfl⟩) (ht.imp (fun h => by rw [h, htmp]) id)
    | error =>
      obtain ⟨rfl, rfl⟩ : l = errorLine ∧ rest = [] := by simpa [Answer.lines] using hR
      obtain ⟨e', he', h'⟩ := parseReceived_error (p := p) hcmd' hsent
      refine ⟨e', he', ?_, hl.step h' fun _ => rfl⟩
      simp only [PhaseOf, h', hout, htmp]
      exact .complete _ _ _ _ rfl (.inl rfl) (by simp) (.inl rfl)
    | silence => simp [Answer.lines] at hR
  | putAside hin =>
    obtain ⟨rfl, rfl⟩ : l = okLine ∧ rest = [] := by simpa using hR
    obtain ⟨e', he', h'⟩ := parseReceived_ok (p := p) (n := n) (.inl hcmd)
    refine ⟨e', he', ?_, hl.step h' fun _ => rfl⟩
    simp only [PhaseOf, h', hact, hcli, hout, htmp]
    exact .resumed hin
  | resumed => simp at hR
  | accepted hin =>
    obtain ⟨rfl, rfl⟩ : l = connectLine n ∧ rest = [] := by simpa using hR
    obtain ⟨e', he', h'⟩ := parseReceived_connect (p := p) (.inr hcmd) hcli (.inl hcmd)
    refine ⟨e', he', ?_, hl.step h' fun _ => rfl⟩
    simp only [PhaseOf, h', hcli, hout, htmp]
    exact .connected _ _ hin rfl (.inl rfl)
  | connected _ _ hin hans hrest =>
    obtain ⟨rfl, rfl⟩ : l = okLine ∧ rest = [] := by
      rcases hrest with rfl | ⟨rfl, -⟩
      · simp at hR
      · simpa using hR
    obtain ⟨e', he', h'⟩ := parseReceived_ok (p := p) (n := n) (.inr hcmd)
    refine ⟨e', he', ?_, hl.step h' fun _ => rfl⟩
    simp only [PhaseOf, h', hact, hcli, hout, htmp]
    exact .connected _ _ hin hans (.inl rfl)
  | refused _ _ _ hrest htmp' =>
    obtain ⟨rfl, rfl, rfl⟩ : ans = .connectFailError ∧ l = errorLine ∧ rest = [] := by
      subst hR
      simpa using hrest
    obtain ⟨e', he', h'⟩ := parseReceived_error (p := p) hcmd hsent
    refine ⟨e', he', ?_, hl.step h' fun _ => rfl⟩
    simp only [PhaseOf, h', hout, htmp]
    exact .complete _ _ _ _ rfl (.inl rfl) (by simp) htmp'
  | complete _ outcome _ _ hans hout' hrest htmp' =>
    subst hR
    have hrest' : ∀ x ∈ rest, x = connectFailLine n ∨ x = errorLine :=
      fun x hx => hrest x (List.mem_cons_of_mem _ hx)
    rcases hrest l List.mem_cons_self with rfl | rfl
    · obtain ⟨e', he', h1, h2, t, h', ht⟩ := connectFail_line (p := p) hl (.inr hcmd) (.inr hcmd)
      refine ⟨e', he', ?_, h1, h2⟩
      simp only [PhaseOf, h', hcmd, hact, hcli, hout]
      refine .complete _ _ _ _ hans hout' hrest' ?_
      rcases ht with rfl | ht
      · rwa [htmp]
      · exact .inr ht
    · obtain ⟨e', he', h'⟩ := parseReceived_error_idle (p := p) (n := n) hcmd
      refine ⟨e', he', ?_, hl.step h' id⟩
      simp only [PhaseOf, h', hcmd, hact, hcli, hout, htmp]
      exact .complete _ _ _ _ hans hout' hrest' htmp'
  | late _ _ _ _ hlate hans hactive hrest htmp' =>
    subst hR
    have hrest' : ∀ x ∈ rest, x = connectLine n ∨ x = okLine :=
      fun x hx => hrest x (List.mem_cons_of_mem _ hx)
    rcases hrest l List.mem_cons_self with rfl | rfl
    · obtain ⟨e', he', h'⟩ := parseReceived_connect_late (p := p) hcmd hcli
      refine ⟨e', he', ?_, hl.step h' id⟩
      simp only [PhaseOf, h', hcmd, hcli, hout, htmp]
      exact .late _ _ _ _ hlate hans (.inl rfl) hrest' htmp'
    · obtain ⟨e', he', h'⟩ := parseReceived_ok (p := p) (n := n) (.inr hcmd)
      refine ⟨e', he', ?_, hl.step h' fun _ => rfl⟩
      simp only [PhaseOf, h', hact, hcli, hout, htmp]
      refine .late _ _ _ _ hlate hans (hactive.imp_right (Or.imp_left fun hmem => ?_)) hrest' htmp'
      exact (List.mem_cons.mp hmem).resolve_left (connectLine_ne_ok n)

/-- The attempt during a session: what the module still has to send ends the lines that are
still to be parsed. -/
structure InSession (p : Platform) (inTime : Prop) (n : Fin 5) (base : List Event) (ans : Answer) (all : List (List UInt8))
    (future : List UInt8) (ls : List (List UInt8)) (e : Esp8266) : Prop where
  linked : Linked n (attempt n e)
  bytes : e.usartBuffer.contents ++ future = ls.flatten
  isLine : ∀ l ∈ ls, IsLine l
  ofAll : ls <:+ all
  phase : PhaseOf inTime (decidingLine p n ans) n base ans (attempt n e) (ls.filter (· ≠ blankLine))

variable {all : List (List UInt8)} {future : List UInt8} {ls : List (List UInt8)}

theorem parse_session (h : InSession p inTime n base ans all future ls e) (hls : ls = l :: rest)
    {r : Buffer} (hr : r.Valid) (hrs : r.size = 1024) (hrd : r.stringDelimiter = 0x0a)
    {behind : List UInt8} (hc : r.contents = behind) (hd : behind ++ future = rest.flatten) :
    ∃ e', parseReceived p { e with usartBuffer := r } l true = some e' ∧
      InSession p inTime n base ans all future rest e' ∧ e'.usartBuffer = r ∧
      Unmoved { attempt n e with usart := r } (attempt n e') := by
  subst hls
  let e₀ := { e with usartBuffer := r }
  have hl₀ : Linked n (attempt n e₀) := { h.linked with
    usart_valid := hr, usart_size := hrs, usart_delimiter := hrd }
  have hline : ∀ l ∈ rest, IsLine l := fun x hx => h.isLine x (List.mem_cons_of_mem _ hx)
  have hall : rest <:+ all := (List.suffix_cons l rest).trans h.ofAll
  by_cases hb : l = blankLine
  · subst hb
    have hph : PhaseOf inTime (decidingLine p n ans) n base ans (attempt n e) (rest.filter (· ≠ blankLine)) := by
      simpa using h.phase
    have hatt : attempt n (noteReceived e₀ blankLine true) = attempt n e₀ := attempt_noteReceived
    refine ⟨noteReceived e₀ blankLine true, parseReceived_blank, ⟨?_, ?_, hline, hall, ?_⟩, rfl, ?_⟩
    · rwa [hatt]
    · exact (congrArg (· ++ future) hc).trans hd
    · rw [hatt]
      exact hph
    · rw [hatt]
      exact ⟨rfl, rfl, rfl, rfl, rfl, id⟩
  · have hph : PhaseOf inTime (decidingLine p n ans) n base ans (attempt n e₀) (l :: rest.filter (· ≠ blankLine)) := by
      have := h.phase
      rwa [List.filter_cons_of_pos (by simpa using hb)] at this
    obtain ⟨e', he', hp', hl', hu⟩ := phase_line rfl hl₀ hph
    have husart : e'.usartBuffer = r := hu.usart
    refine ⟨e', he', ⟨hl', ?_, hline, hall, hp'⟩, husart, hu⟩
    rw [husart, hc, hd]

theorem usartLoop_session (h : InSession p inTime n base ans all future ls e) :
    ∃ e', (Prog.loop (usartRound p) ()).Returns e () e' ∧ 0x0a ∉ e'.usartBuffer.contents ∧
      e'.usartBuffer.contents.length ≤ e.usartBuffer.contents.length ∧
      (∃ ls', InSession p inTime n base ans all future ls' e') ∧
      Unmoved { attempt n e with usart := e'.usartBuffer } (attempt n e') := by
  let I : ℕ → Unit → Esp8266 → Prop := fun k _ e' => e'.usartBuffer.contents.length = k ∧
    k ≤ e.usartBuffer.contents.length ∧ (∃ ls', InSession p inTime n base ans all future ls' e') ∧
    Unmoved { attempt n e with usart := e'.usartBuffer } (attempt n e')
  let Q : Unit → Esp8266 → Prop := fun _ e' => 0x0a ∉ e'.usartBuffer.contents ∧
    e'.usartBuffer.contents.length ≤ e.usartBuffer.contents.length ∧ (∃ ls', InSession p inTime n base ans all future ls' e') ∧
    Unmoved { attempt n e with usart := e'.usartBuffer } (attempt n e')
  have step : ∀ k x e₁, I k x e₁ →
      (∃ a t, (usartRound p x).Returns e₁ (.inr a) t ∧ Q a t) ∨
        ∃ y t, (usartRound p x).Returns e₁ (.inl y) t ∧ ∃ j < k, I j y t := by
    rintro k _ e₁ ⟨rfl, hle, ⟨ls₁, h₁⟩, hu₁⟩
    have hipd : e₁.ipd.inIPD = false := h₁.linked.inIPD
    have hv : e₁.usartBuffer.Valid := h₁.linked.usart_valid
    have hs : e₁.usartBuffer.size = 1024 := h₁.linked.usart_size
    have hd : e₁.usartBuffer.stringDelimiter = 0x0a := h₁.linked.usart_delimiter
    by_cases hmem : 0x0a ∈ e₁.usartBuffer.contents
    · right
      obtain ⟨l, rest, rfl⟩ : ∃ l rest, ls₁ = l :: rest := by
        cases ls₁ with
        | nil =>
          have := (List.append_eq_nil_iff.mp h₁.bytes).1
          simp [this] at hmem
        | cons l rest => exact ⟨l, rest, rfl⟩
      have hl := h₁.isLine _ List.mem_cons_self
      obtain ⟨d, hc, hfut⟩ := hl.prefix_of_mem (h₁.bytes.trans List.flatten_cons) hmem
      obtain ⟨hline, hrv, hrs, hrd, hrc⟩ := readString_line hv hd hl hc
      obtain ⟨e', he', hs', hbuf, hu⟩ := parse_session (p := p) h₁ rfl hrv (hrs.trans hs) hrd hrc hfut
      have hne : l ≠ [] := by
        obtain ⟨body, rfl, -, -⟩ := hl
        simp
      have hpos := List.length_pos_of_ne_nil hne
      rw [hc, List.length_append] at hle ⊢
      refine ⟨(), e', ?_, d.length, by omega, ?_, by omega, ⟨rest, hs'⟩, ?_⟩
      · simp only [usartRound, Prog.returns_attempt, hipd, hline, Bool.false_eq_true, if_false, hne, he',
          Option.map_some]
      · rw [hbuf, hrc]
      · exact ⟨rfl, hu.startTime.trans hu₁.startTime, hu.time.trans hu₁.time,
          hu.timeout.trans hu₁.timeout, hu.elsewhere.trans hu₁.elsewhere, fun hi => hu.idle (hu₁.idle hi)⟩
    · left
      have hshort := short_of_no_lineFeed h₁.bytes h₁.isLine hmem
      have hnone := readString_partial hv hd (by rw [hs]; decide) hmem hshort
      refine ⟨(), e₁, ?_, hmem, hle, ⟨ls₁, h₁⟩, hu₁⟩
      simp only [usartRound, Prog.returns_attempt, hipd, hnone, Bool.false_eq_true, if_false, if_true]
  obtain ⟨_, e', hr, hq⟩ := Prog.loop_total (I := I) (Q := Q) step (x := ()) (s := e)
    ⟨rfl, Nat.le_refl _, ⟨ls, h⟩, rfl, rfl, rfl, rfl, rfl, id⟩
  exact ⟨e', hr, hq⟩

theorem InSession.congr {e' : Esp8266} (h : InSession p inTime n base ans all future ls e)
    (ha : attempt n e' = attempt n e) : InSession p inTime n base ans all future ls e' := by
  have hu : e'.usartBuffer = e.usartBuffer := congrArg Attempt.usart ha
  refine ⟨ha ▸ h.linked, ?_, h.isLine, h.ofAll, ?_⟩
  · rw [hu]
    exact h.bytes
  · rw [ha]
    exact h.phase

def effectiveTimeout (e : Esp8266) : UInt32 := if e.timeout = 0 then 30000 else e.timeout

def Expired (e : Esp8266) : Prop := effectiveTimeout e < e.time - e.startTime

instance (e : Esp8266) : Decidable (Expired e) := inferInstanceAs (Decidable (_ < _))

theorem checkTimeout_session (h : InSession p inTime n base ans all future ls e) :
    InSession p (inTime ∧ ¬ (Expired e ∧ e.activeCommand = .cipstart)) n base ans all future ls (checkTimeout e) ∧
      Unmoved { attempt n e with timeout := effectiveTimeout e } (attempt n (checkTimeout e)) ∧
      (Expired e → (checkTimeout e).activeCommand = .idle) := by
  let e₀ := { e with timeout := effectiveTimeout e }
  have h₀ : InSession p inTime n base ans all future ls e₀ :=
    ⟨{ h.linked with }, h.bytes, h.isLine, h.ofAll, h.phase⟩
  have hcheck : checkTimeout e = if Expired e then
      if e.activeCommand = .cipstart then
        ({ e₀ with activeCommand := .idle }.resetConnection n).call (.clientConnectionTimeout n)
      else { e₀ with activeCommand := .idle }
      else e₀ := by
    have hsent : e.startConnectionSent = n := h.linked.sent
    have he₀ : (if e.timeout = 0 then { e with timeout := 30000 } else e) = e₀ := by
      by_cases h0 : e.timeout = 0
      · simp only [e₀, effectiveTimeout, h0, if_true]
      · simp only [e₀, effectiveTimeout, h0, if_false]
    rw [← hsent]
    simp only [checkTimeout, he₀]
    rfl
  by_cases hgive : Expired e ∧ e.activeCommand = .cipstart
  · obtain ⟨hx, hcmd⟩ := hgive
    rw [hcheck, if_pos hx, if_pos hcmd]
    have hlate : ¬ (inTime ∧ ¬ (Expired e ∧ e.activeCommand = .cipstart)) := fun hin => hin.2 ⟨hx, hcmd⟩
    have hatt : attempt n (({ e₀ with activeCommand := .idle }.resetConnection n).call
        (.clientConnectionTimeout n)) = { attempt n e₀ with
          command := .idle, active := false, client := false
          outcomes := .clientConnectionTimeout n :: (attempt n e₀).outcomes } := by
      simp [attempt, outcomes, Esp8266.call, Esp8266.resetConnection, Esp8266.setConnection, IsOutcome]
    obtain ⟨hl, hu⟩ := h₀.linked.step hatt fun _ => rfl
    refine ⟨⟨hl, h₀.bytes, h₀.isLine, h₀.ofAll, ?_⟩, hu, fun _ => rfl⟩
    have hph := h₀.phase
    simp only [PhaseOf, hatt]
    unfold PhaseOf at hph
    generalize hR : ls.filter (· ≠ blankLine) = R at hph ⊢
    generalize hcmd₀ : (attempt n e₀).command = cmd at hph
    generalize hact : (attempt n e₀).active = act at hph
    generalize hcli : (attempt n e₀).client = cli at hph
    generalize hout : (attempt n e₀).outcomes = out at hph ⊢
    generalize htmp : (attempt n e₀).tmp.contents = tmp at hph ⊢
    have hcmd' : cmd = .cipstart := hcmd₀.symm.trans hcmd
    cases hph with
    | waiting =>
      by_cases hconn : ans.connects = true
      · refine .late _ _ _ _ hlate hconn (.inr (.inl ?_)) ?_ (.inl rfl)
        · cases ans <;> simp_all [Answer.lines, Answer.connects]
        · intro l hl
          cases ans <;> simp_all [Answer.lines, Answer.connects, or_comm]
      · refine .complete _ _ _ _ (by simpa using hconn) (.inr rfl) ?_ (.inl rfl)
        intro l hl
        cases ans <;> simp_all [Answer.lines, Answer.connects]
    | putAside => exact .late _ _ _ _ hlate rfl (.inr (.inr rfl)) (by simp) (.inr rfl)
    | resumed => exact absurd hcmd' (by decide)
    | accepted => exact absurd hcmd' (by decide)
    | connected => exact absurd hcmd' (by decide)
    | refused _ _ _ hrest htmp' =>
      rcases hrest with ⟨rfl, rfl⟩ | ⟨rfl, rfl⟩
      · exact .complete _ _ _ _ rfl (.inr rfl) (by simp) htmp'
      · exact .complete _ _ _ _ rfl (.inr rfl) (by simp) htmp'
    | late => exact absurd hcmd' (by decide)
    | complete => exact absurd hcmd' (by decide)
  · have hsame : checkTimeout e = e₀ := by
      rw [hcheck]
      by_cases hx : Expired e
      · have hcmd : e.activeCommand ≠ .cipstart := fun hcmd => hgive ⟨hx, hcmd⟩
        have hidle : e₀.activeCommand = .idle := h₀.phase.command_eq.resolve_left hcmd
        rw [if_pos hx, if_neg hcmd, ← hidle]
      · rw [if_neg hx]
    rw [hsame]
    refine ⟨⟨h₀.linked, h₀.bytes, h₀.isLine, h₀.ofAll, h₀.phase.change fun _ => ?_⟩, ⟨rfl, rfl, rfl, rfl, rfl, id⟩, fun hx => ?_⟩
    · exact ⟨fun hin => ⟨hin, hgive⟩, And.left⟩
    · exact h₀.phase.command_eq.resolve_left fun hcmd => hgive ⟨hx, hcmd⟩

theorem isLine_connect (n : Fin 5) : IsLine (connectLine n) :=
  ⟨digit n :: ascii ",CONNECT\r", by revert n; decide, by revert n; decide,
    by revert n; decide⟩

theorem isLine_connectFail (n : Fin 5) : IsLine (connectFailLine n) :=
  ⟨digit n :: ascii ",CONNECT FAIL\r", by revert n; decide, by revert n; decide,
    by revert n; decide⟩

theorem tmpLoop_session (h : InSession p inTime n base ans all future ls e) :
    ∃ e', (Prog.loop (tmpRound p) ()).Returns e () e' ∧ InSession p inTime n base ans all future ls e' ∧
      (e'.activeCommand = .idle → e'.tmpBuffer.contents = []) ∧
      Unmoved (attempt n e) (attempt n e') := by
  have hipd : e.ipd.inIPD = false := h.linked.inIPD
  by_cases hcmd : e.activeCommand = .idle
  swap
  · refine ⟨e, Prog.loop_inr ?_, h, fun hc => absurd hc hcmd, rfl, rfl, rfl, rfl, rfl, id⟩
    simp [tmpRound, hipd, hcmd]
  -- an empty buffer ends the loop
  have stop : ∀ e' : Esp8266, Linked n (attempt n e') → e'.activeCommand = .idle →
      e'.tmpBuffer.contents = [] → (Prog.loop (tmpRound p) ()).Returns e' () e' := by
    intro e' hl hc ht
    have hi : e'.ipd.inIPD = false := hl.inIPD
    have hs : e'.tmpBuffer.size = 512 := hl.tmp_size
    have hnone : bufferReadString e'.tmpBuffer receivedSize = (e'.tmpBuffer, []) :=
      readString_partial hl.tmp_valid hl.tmp_delimiter (by rw [hs]; decide) (by simp [ht])
        (by simp [ht, receivedSize])
    have hgate : (e'.ipd.inIPD || decide (e'.activeCommand ≠ .idle)) = false := by simp [hi, hc]
    refine Prog.loop_inr ?_
    simp only [tmpRound, Prog.returns_attempt, hgate, hnone, Bool.false_eq_true, if_false, if_true]
  -- one waiting line is parsed first
  have go : ∀ l, IsLine l → e.tmpBuffer.contents = l →
      ∃ r : Buffer, Linked n { attempt n e with tmp := r } ∧ r.contents = [] ∧
        ∀ e', parseReceived p { e with tmpBuffer := r } l false = some e' →
          Linked n (attempt n e') → e'.activeCommand = .idle → e'.tmpBuffer.contents = [] →
          (Prog.loop (tmpRound p) ()).Returns e () e' := by
    intro l hl ht
    have hc : e.tmpBuffer.contents = l ++ [] := by rw [List.append_nil, ht]
    obtain ⟨hline, hrv, hrs, hrd, hrc⟩ :=
      readString_line h.linked.tmp_valid h.linked.tmp_delimiter hl hc
    refine ⟨(bufferReadString e.tmpBuffer receivedSize).1, { h.linked with
      tmp_valid := hrv, tmp_size := hrs.trans h.linked.tmp_size, tmp_delimiter := hrd }, hrc, ?_⟩
    intro e' he' hl' hc' ht'
    have hne : l ≠ [] := by
      obtain ⟨body, rfl, -, -⟩ := hl
      simp
    have hline' : (bufferReadString e.tmpBuffer receivedSize).2 = l := hline
    have hgate : (e.ipd.inIPD || decide (e.activeCommand ≠ .idle)) = false := by simp [hipd, hcmd]
    refine Prog.loop_inl ?_ (stop e' hl' hc' ht')
    simp only [tmpRound, Prog.returns_attempt, hgate, hline', Bool.false_eq_true, if_false, hne, he',
      Option.map_some]
  have hph := h.phase
  unfold PhaseOf at hph
  generalize hR : ls.filter (· ≠ blankLine) = R at hph
  generalize hcmd₀ : (attempt n e).command = cmd at hph
  generalize hact : (attempt n e).active = act at hph
  generalize hcli : (attempt n e).client = cli at hph
  generalize hout : (attempt n e).outcomes = out at hph
  generalize htmp : (attempt n e).tmp.contents = tmp at hph
  have hcmd' : cmd = .idle := hcmd₀.symm.trans hcmd
  have empty : tmp = [] → ∃ e', (Prog.loop (tmpRound p) ()).Returns e () e' ∧
      InSession p inTime n base ans all future ls e' ∧ (e'.activeCommand = .idle → e'.tmpBuffer.contents = []) ∧
      Unmoved (attempt n e) (attempt n e') := fun ht =>
    ⟨e, stop e h.linked hcmd (htmp.trans ht), h, fun _ => htmp.trans ht, rfl, rfl, rfl, rfl, rfl, id⟩
  cases hph with
  | waiting => exact absurd hcmd' (by decide)
  | putAside => exact absurd hcmd' (by decide)
  | resumed hin =>
    obtain ⟨r, hl, hr, hgo⟩ := go (connectLine n) (isLine_connect n) htmp
    let e₁ := { e with tmpBuffer := r }
    obtain ⟨e', he', h'⟩ := parseReceived_connect (p := p) (e := e₁) (b := false) (.inr hcmd) hcli
      (.inr (.inl rfl))
    obtain ⟨hl', hu⟩ := Linked.step (e := e₁) hl h' fun _ => rfl
    have hcmd₁ : e'.activeCommand = .idle := congrArg Attempt.command h'
    have htmp₁ : e'.tmpBuffer.contents = [] := (congrArg (fun a => a.tmp.contents) h').trans hr
    refine ⟨e', hgo e' he' hl' hcmd₁ htmp₁, ⟨hl', ?_, h.isLine, h.ofAll, ?_⟩, fun _ => htmp₁,
      hu.usart, hu.startTime, hu.time, hu.timeout, hu.elsewhere, hu.idle⟩
    · have hbuf : e'.usartBuffer = e.usartBuffer := congrArg Attempt.usart h'
      rw [hbuf]
      exact h.bytes
    · have hcli' : (attempt n e₁).client = true := hcli
      have hout' : (attempt n e₁).outcomes = base := hout
      have htmp' : (attempt n e₁).tmp.contents = [] := hr
      rw [hR]
      simp only [PhaseOf, h', hcli', hout', htmp']
      exact .connected _ _ hin rfl (.inl rfl)
  | accepted => exact empty rfl
  | connected => exact empty rfl
  | refused => exact absurd hcmd' (by decide)
  | complete _ outcome _ _ hans hout' hrest htmp' =>
    rcases htmp' with rfl | rfl
    · exact empty rfl
    · obtain ⟨r, hl, hr, hgo⟩ := go (connectFailLine n) (isLine_connectFail n) htmp
      let e₁ := { e with tmpBuffer := r }
      obtain ⟨e', he', h'⟩ := parseReceived_connectFail (p := p) (n := n) (e := e₁) (b := false)
        (.inr hcmd) (.inr (.inl rfl))
      obtain ⟨hl', hu⟩ := Linked.step (e := e₁) hl h' id
      have hcmd₁ : e'.activeCommand = .idle := (congrArg Attempt.command h').trans hcmd
      have htmp₁ : e'.tmpBuffer.contents = [] := (congrArg (fun a => a.tmp.contents) h').trans hr
      refine ⟨e', hgo e' he' hl' hcmd₁ htmp₁, ⟨hl', ?_, h.isLine, h.ofAll, ?_⟩, fun _ => htmp₁,
      hu.usart, hu.startTime, hu.time, hu.timeout, hu.elsewhere, hu.idle⟩
      · have hbuf : e'.usartBuffer = e.usartBuffer := congrArg Attempt.usart h'
        rw [hbuf]
        exact h.bytes
      · have hact' : (attempt n e₁).active = false := hact
        have hcli' : (attempt n e₁).client = false := hcli
        have hcmd₂ : (attempt n e₁).command = .idle := hcmd
        have hout₁ : (attempt n e₁).outcomes = outcome :: base := hout
        have htmp₂ : (attempt n e₁).tmp.contents = [] := hr
        rw [hR]
        simp only [PhaseOf, h', hact', hcli', hcmd₂, hout₁, htmp₂]
        exact .complete _ _ _ _ hans hout' hrest (.inl rfl)
  | late _ _ _ _ hlate hans hactive hrest htmp' =>
    rcases htmp' with rfl | rfl
    · exact empty rfl
    · obtain ⟨r, hl, hr, hgo⟩ := go (connectLine n) (isLine_connect n) htmp
      let e₁ := { e with tmpBuffer := r }
      obtain ⟨e', he', h'⟩ := parseReceived_connect_late (p := p) (e := e₁) (b := false) hcmd hcli
      obtain ⟨hl', hu⟩ := Linked.step (e := e₁) hl h' id
      have hcmd₁ : e'.activeCommand = .idle := (congrArg Attempt.command h').trans hcmd
      have htmp₁ : e'.tmpBuffer.contents = [] := (congrArg (fun a => a.tmp.contents) h').trans hr
      refine ⟨e', hgo e' he' hl' hcmd₁ htmp₁, ⟨hl', ?_, h.isLine, h.ofAll, ?_⟩, fun _ => htmp₁,
        hu.usart, hu.startTime, hu.time, hu.timeout, hu.elsewhere, hu.idle⟩
      · have hbuf : e'.usartBuffer = e.usartBuffer := congrArg Attempt.usart h'
        rw [hbuf]
        exact h.bytes
      · have hcli' : (attempt n e₁).client = false := hcli
        have hcmd₂ : (attempt n e₁).command = .idle := hcmd
        have hout₁ : (attempt n e₁).outcomes = .clientConnectionTimeout n :: base := hout
        have htmp₂ : (attempt n e₁).tmp.contents = [] := hr
        rw [hR]
        simp only [PhaseOf, h', hcli', hcmd₂, hout₁, htmp₂]
        exact .late _ _ _ _ hlate hans (.inl rfl) hrest (.inl rfl)

theorem update_session (h : InSession p inTime n base ans all future ls e) :
    ∃ e' ls', (espCall p .update).Returns e () e' ∧
      InSession p (inTime ∧ ¬ (Expired e ∧ e.activeCommand = .cipstart)) n base ans all future ls' e' ∧
      0x0a ∉ e'.usartBuffer.contents ∧
      e'.usartBuffer.contents.length ≤ e.usartBuffer.contents.length ∧
      (e'.activeCommand = .idle → e'.tmpBuffer.contents = []) ∧ e'.time = e.time ∧
      e'.startTime = e.startTime ∧ effectiveTimeout e' = effectiveTimeout e ∧
      (attempt n e').elsewhere = (attempt n e).elsewhere ∧ (Expired e → e'.activeCommand = .idle) := by
  obtain ⟨h₁, hu₁, hx⟩ := checkTimeout_session h
  generalize he₁ : checkTimeout e = e₁ at h₁ hu₁ hx
  obtain ⟨e₂, hr₂, hlf, hle, ⟨ls₂, h₂⟩, hu₂⟩ := usartLoop_session (p := p) h₁
  obtain ⟨e₃, hr₃, h₃, ht₃, hu₃⟩ := tmpLoop_session (p := p) h₂
  let e₄ := { callConnectionCallbacks e₃ with result := .ok }
  have ha₄ : attempt n e₄ = attempt n e₃ := attempt_callbacks
  have hw : e₁.waitForWrapper = false := h₁.linked.wrapper
  have hi : e₃.ipd.inIPD = false := h₃.linked.inIPD
  have hc : e₁.activeCommand ≠ .uart := by
    have : e₁.activeCommand = .cipstart ∨ e₁.activeCommand = .idle := h₁.phase.command_eq
    rcases this with this | this <;> simp [this]
  have hwrap : (checkWrapper p).Returns e₁ () e₁ := by
    simp [checkWrapper, getEsp, hw]
  have huart : checkUart.Returns e₁ () e₁ := by
    simp [checkUart, getEsp, hc]
  have hipd : updateIpd.Returns e₃ () e₃ := by
    simp [updateIpd, getEsp, hi]
  have husart₃ : e₃.usartBuffer = e₂.usartBuffer := hu₃.usart
  have husart₄ : e₄.usartBuffer = e₃.usartBuffer := congrArg Attempt.usart ha₄
  have husart₁ : e₁.usartBuffer = e.usartBuffer := hu₁.usart
  have hcmd₄ : e₄.activeCommand = e₃.activeCommand := congrArg Attempt.command ha₄
  have htmp₄ : e₄.tmpBuffer = e₃.tmpBuffer := congrArg Attempt.tmp ha₄
  have htime : e₄.time = e.time :=
    (congrArg Attempt.time ha₄).trans (hu₃.time.trans (hu₂.time.trans hu₁.time))
  have hstart : e₄.startTime = e.startTime :=
    (congrArg Attempt.startTime ha₄).trans (hu₃.startTime.trans (hu₂.startTime.trans hu₁.startTime))
  have htimeout : e₄.timeout = effectiveTimeout e :=
    (congrArg Attempt.timeout ha₄).trans (hu₃.timeout.trans (hu₂.timeout.trans hu₁.timeout))
  have helsewhere : (attempt n e₄).elsewhere = (attempt n e).elsewhere :=
    (congrArg Attempt.elsewhere ha₄).trans (hu₃.elsewhere.trans (hu₂.elsewhere.trans hu₁.elsewhere))
  refine ⟨e₄, ls₂, ?_, h₃.congr ha₄, ?_, ?_, ?_, htime, hstart, ?_, helsewhere, ?_⟩
  · refine Prog.Returns.bind (a := .ok) (t := e₄) ?_ (Prog.returns_pure.mpr ⟨rfl, rfl⟩)
    unfold esp8266Update
    simp only [setEsp, Prog.modify_bind_returns, he₁]
    refine hwrap.bind (huart.bind (hr₂.bind (hr₃.bind (hipd.bind ?_))))
    simp [e₄]
  · rw [husart₄, husart₃]
    exact hlf
  · rwa [husart₄, husart₃, ← husart₁]
  · rw [hcmd₄, htmp₄]
    exact ht₃
  · unfold effectiveTimeout at htimeout ⊢
    rw [htimeout]
    split_ifs <;> simp_all
  · intro hex
    rw [hcmd₄]
    exact hu₃.idle (hu₂.idle (hx hex))

variable {timeout : UInt32} {bytes : List UInt8} {done : List EspCall} {call : EspCall}

/-- What the module sends up to the deciding line. -/
def upTo (d : List UInt8) (ls : List (List UInt8)) : List UInt8 := (ls.takeWhile (· ≠ d)).flatten ++ d

/-- An `ESP8266_Update` comes after these bytes. -/
def Found (bytes : List UInt8) (calls : List EspCall) : Prop :=
  ∃ before behind, calls = before ++ .update :: behind ∧ bytes <+: receivedBytes before

/-- No `ESP8266_Update` finds the timeout exceeded before one has found these bytes. -/
def InTime (timeout : UInt32) (bytes : List UInt8) (calls : List EspCall) : Prop :=
  ∀ before behind, calls = before ++ .update :: behind → timeout < UInt32.ofNat (elapsedTime before) → Found bytes before

theorem snoc_eq {before behind : List EspCall} : done ++ [call] = before ++ .update :: behind ↔
    (done = before ∧ call = .update ∧ behind = []) ∨
      ∃ behind', behind = behind' ++ [call] ∧ done = before ++ .update :: behind' := by
  constructor
  · intro h
    rcases List.eq_nil_or_concat behind with rfl | ⟨behind', last, rfl⟩
    · obtain ⟨h1, h2⟩ := List.append_inj' h rfl
      exact .inl ⟨h1, by simpa using h2, rfl⟩
    · rw [List.concat_eq_append] at h ⊢
      rw [← List.cons_append, ← List.append_assoc] at h
      obtain ⟨h1, h2⟩ := List.append_inj' h rfl
      exact .inr ⟨behind', by rw [h2], h1⟩
  · rintro (⟨rfl, rfl, rfl⟩ | ⟨behind', rfl, rfl⟩)
    · rfl
    · simp

theorem found_update : Found bytes (done ++ [.update]) ↔ Found bytes done ∨ bytes <+: receivedBytes done := by
  unfold Found
  simp only [snoc_eq]
  constructor
  · rintro ⟨before, behind, ⟨rfl, -, -⟩ | ⟨behind', -, hdone⟩, hbytes⟩
    · exact .inr hbytes
    · exact .inl ⟨before, behind', hdone, hbytes⟩
  · rintro (⟨before, behind', hdone, hbytes⟩ | hbytes)
    · exact ⟨before, _, .inr ⟨behind', rfl, hdone⟩, hbytes⟩
    · exact ⟨done, [], .inl ⟨rfl, trivial, rfl⟩, hbytes⟩

theorem found_of_ne (hne : call ≠ .update) : Found bytes (done ++ [call]) ↔ Found bytes done := by
  unfold Found
  simp only [snoc_eq]
  constructor
  · rintro ⟨before, behind, ⟨-, h, -⟩ | ⟨behind', -, hdone⟩, hbytes⟩
    · exact absurd h hne
    · exact ⟨before, behind', hdone, hbytes⟩
  · rintro ⟨before, behind', hdone, hbytes⟩
    exact ⟨before, _, .inr ⟨behind', rfl, hdone⟩, hbytes⟩

theorem inTime_update : InTime timeout bytes (done ++ [.update]) ↔
    InTime timeout bytes done ∧ (timeout < UInt32.ofNat (elapsedTime done) → Found bytes done) := by
  unfold InTime
  simp only [snoc_eq]
  constructor
  · intro h
    constructor
    · intro before behind hdone
      exact h before _ (.inr ⟨behind, rfl, hdone⟩)
    · exact h done [] (.inl ⟨rfl, trivial, rfl⟩)
  · rintro ⟨h, hlast⟩ before behind (⟨rfl, -, -⟩ | ⟨behind', -, hdone⟩)
    · exact hlast
    · exact h before behind' hdone

theorem inTime_of_ne (hne : call ≠ .update) : InTime timeout bytes (done ++ [call]) ↔ InTime timeout bytes done := by
  unfold InTime
  simp only [snoc_eq]
  constructor
  · intro h before behind hdone
    exact h before _ (.inr ⟨behind, rfl, hdone⟩)
  · rintro h before behind (⟨-, hcall, -⟩ | ⟨behind', -, hdone⟩)
    · exact absurd hcall hne
    · exact h before behind' hdone

theorem Found.isPrefix (h : Found bytes done) : bytes <+: receivedBytes done := by
  obtain ⟨before, behind, rfl, hbytes⟩ := h
  refine hbytes.trans ?_
  simp [receivedBytes]

theorem upTo_isPrefix_iff {contents received : List UInt8} (hcount : all.count d = 1) (hd : 0x0a ∈ d) (hall : ls <:+ all)
    (hheard : received ++ future = all.flatten) (hbytes : contents ++ future = ls.flatten) (hlf : 0x0a ∉ contents) :
    upTo d all <+: received ↔ d ∉ ls := by
  obtain ⟨parsed, rfl⟩ := hall
  have hrec : received = parsed.flatten ++ contents := by
    rw [List.flatten_append, ← hbytes, ← List.append_assoc] at hheard
    exact List.append_cancel_right hheard
  rw [List.count_append] at hcount
  constructor
  · intro hpre hmem
    have hls := List.count_pos_iff.mpr hmem
    have hparsed : d ∉ parsed := List.count_eq_zero.mp (by omega)
    rw [upTo, List.takeWhile_append_of_pos (fun x hx => by simpa using fun h : x = d => hparsed (h ▸ hx)),
      List.flatten_append, List.append_assoc, hrec, List.prefix_append_right_inj] at hpre
    exact hlf (hpre.subset (List.mem_append_right _ hd))
  · intro hmem
    have hls := List.count_eq_zero.mpr hmem
    have hparsed : d ∈ parsed := List.count_pos_iff.mp (by omega)
    obtain ⟨as, bs, rfl, has⟩ := List.eq_append_cons_of_mem hparsed
    rw [upTo, List.append_assoc, List.takeWhile_append_of_pos (fun x hx => by simpa using fun h : x = d => has (h ▸ hx)),
      List.cons_append, List.takeWhile_cons_of_neg (by simp), List.append_nil, hrec]
    simp

/-- The state of a session after some calls, when the module still sends `future`. -/
structure Running (p : Platform) (n : Fin 5) (base : List Event) (ans : Answer) (all : List (List UInt8)) (timeout : UInt32)
    (elsewhere : Bool × (Fin 5 → Option (Bool × Bool × ConnectionType))) (done : List EspCall) (future : List UInt8)
    (e : Esp8266) : Prop where
  session : ∃ ls, InSession p (InTime timeout (upTo (decidingLine p n ans) all) done) n base ans all future ls e
  heard : receivedBytes done ++ future = all.flatten
  judged : ans.connects = true → InTime timeout (upTo (decidingLine p n ans) all) done →
    (e.activeCommand = .cipstart ↔ ¬ Found (upTo (decidingLine p n ans) all) done)
  clock : e.time - e.startTime = UInt32.ofNat (elapsedTime done)
  timeout_eq : effectiveTimeout e = timeout
  elsewhere_eq : (attempt n e).elsewhere = elsewhere
  room : e.usartBuffer.contents.length + future.length < 1024

variable {elsewhere : Bool × (Fin 5 → Option (Bool × Bool × ConnectionType))}

theorem InSession.change (hiff : ans.connects = true → (inTime ↔ inTime')) (h : InSession p inTime n base ans all future ls e) :
    InSession p inTime' n base ans all future ls e :=
  ⟨h.linked, h.bytes, h.isLine, h.ofAll, h.phase.change hiff⟩

theorem decidingLine_facts (p : Platform) (n : Fin 5) (ans : Answer) :
    0x0a ∈ decidingLine p n ans ∧ decidingLine p n ans ≠ blankLine := by
  have hconnect : ∀ n, 0x0a ∈ connectLine n ∧ connectLine n ≠ blankLine := by decide
  rcases decidingLine_cases p n ans with ⟨h, -⟩ | h
  · rw [h]
    exact hconnect n
  · rw [h]
    decide

theorem decidingLine_count (hans : ans.connects = true) (hall : all.filter (· ≠ blankLine) = ans.lines n) :
    all.count (decidingLine p n ans) = 1 := by
  have hne := connectLine_ne_ok n
  have hlines : (ans.lines n).count (decidingLine p n ans) = 1 := by
    rcases decidingLine_cases p n ans with ⟨h, rfl⟩ | h
    · rw [h]
      simp [Answer.lines, hne.symm]
    · rw [h]
      cases ans <;> simp_all [Answer.lines, Answer.connects]
  rw [← hall, List.count_filter (by simpa using (decidingLine_facts p n ans).2)] at hlines
  exact hlines

theorem update_running (hall : all.filter (· ≠ blankLine) = ans.lines n)
    (h : Running p n base ans all timeout elsewhere done future e) :
    ∃ e', (espCall p .update).Returns e () e' ∧
      Running p n base ans all timeout elsewhere (done ++ [.update]) future e' ∧ 0x0a ∉ e'.usartBuffer.contents ∧
      (e'.activeCommand = .idle → e'.tmpBuffer.contents = []) ∧ (Expired e → e'.activeCommand = .idle) := by
  obtain ⟨ls, hs⟩ := h.session
  obtain ⟨e', ls', hr, hs', hlf, hle, htmp, htime, hstart, htimeout, helsewhere, hidle⟩ := update_session hs
  have hbytes : receivedBytes (done ++ [.update]) = receivedBytes done := by simp [receivedBytes, EspCall.received]
  have helapsed : elapsedTime (done ++ [.update]) = elapsedTime done := by simp [elapsedTime, EspCall.elapsed]
  have hexpired : Expired e ↔ timeout < UInt32.ofNat (elapsedTime done) := by
    unfold Expired
    rw [h.timeout_eq, h.clock]
  have hiff : ans.connects = true →
      (InTime timeout (upTo (decidingLine p n ans) all) done ∧ ¬ (Expired e ∧ e.activeCommand = .cipstart) ↔
        InTime timeout (upTo (decidingLine p n ans) all) (done ++ [.update])) := by
    intro hans
    rw [inTime_update, hexpired]
    refine and_congr_right fun hin => ?_
    rw [h.judged hans hin, not_and, not_not]
  refine ⟨e', hr, ⟨⟨ls', hs'.change hiff⟩, ?_, ?_, ?_, htimeout.trans h.timeout_eq, helsewhere.trans h.elsewhere_eq, ?_⟩,
    hlf, htmp, hidle⟩
  · rw [hbytes]
    exact h.heard
  · intro hans hin
    obtain ⟨hd, hblank⟩ := decidingLine_facts p n ans
    have hfound : Found (upTo (decidingLine p n ans) all) (done ++ [.update]) ↔ decidingLine p n ans ∉ ls' := by
      rw [found_update, ← upTo_isPrefix_iff (decidingLine_count hans hall) hd hs'.ofAll h.heard hs'.bytes hlf]
      exact ⟨fun hor => hor.elim Found.isPrefix id, .inr⟩
    have hdeciding := hs'.phase.deciding (p := p) rfl hans ((hiff hans).mpr hin)
    rw [hfound, not_not]
    refine Iff.trans hdeciding ?_
    simp [hblank]
  · rw [htime, hstart, helapsed]
    exact h.clock
  · exact Nat.lt_of_le_of_lt (Nat.add_le_add_right hle _) h.room

theorem call_running (hall : all.filter (· ≠ blankLine) = ans.lines n)
    (h : Running p n base ans all timeout elsewhere done (call.received ++ future) e) :
    ∃ e', (espCall p call).Returns e () e' ∧
      Running p n base ans all timeout elsewhere (done ++ [call]) future e' := by
  obtain ⟨ls, hs⟩ := h.session
  have hheard : receivedBytes (done ++ [call]) ++ future = all.flatten := by
    have := h.heard
    simpa [receivedBytes] using this
  cases call with
  | dataReceived data =>
    have hv : e.usartBuffer.Valid := hs.linked.usart_valid
    have hsize : e.usartBuffer.size = 1024 := hs.linked.usart_size
    have hroom := h.room
    have hfree := free_add_full hv
    simp only [EspCall.received, List.length_append] at hroom
    have hfit : data.take (bufferGetFree e.usartBuffer) = data := by
      refine List.take_of_length_le ?_
      rw [length_contents] at hroom
      omega
    have hc : (bufferWrite e.usartBuffer data).1.contents = e.usartBuffer.contents ++ data := by
      rw [bufferWrite_contents hv, hfit]
    have hc' : (esp8266DataReceived e data).usartBuffer.contents = e.usartBuffer.contents ++ data := hc
    have hne : EspCall.dataReceived data ≠ .update := EspCall.noConfusion
    refine ⟨esp8266DataReceived e data, by simp [espCall, setEsp],
      ⟨⟨ls, InSession.change (fun _ => (inTime_of_ne hne).symm) ⟨?_, ?_, hs.isLine, hs.ofAll, hs.phase⟩⟩,
        hheard, ?_, ?_, h.timeout_eq, h.elsewhere_eq, ?_⟩⟩
    · exact { hs.linked with
        usart_valid := bufferWrite_valid hv
        usart_size := (bufferWrite_size hv).trans hsize
        usart_delimiter := (bufferWrite_delimiter hv).trans hs.linked.usart_delimiter }
    · rw [hc', List.append_assoc]
      exact hs.bytes
    · rw [inTime_of_ne hne, found_of_ne hne]
      exact h.judged
    · have : elapsedTime (done ++ [.dataReceived data]) = elapsedTime done := by simp [elapsedTime, EspCall.elapsed]
      rw [this]
      exact h.clock
    · rw [hc', List.length_append]
      omega
  | timeUpdate timeIncrease =>
    have hne : EspCall.timeUpdate timeIncrease ≠ .update := EspCall.noConfusion
    refine ⟨esp8266TimeUpdate e timeIncrease, by simp [espCall, setEsp],
      ⟨⟨ls, InSession.change (fun _ => (inTime_of_ne hne).symm)
        { hs with linked := { hs.linked with } }⟩, hheard, ?_, ?_, h.timeout_eq, h.elsewhere_eq, h.room⟩⟩
    · rw [inTime_of_ne hne, found_of_ne hne]
      exact h.judged
    · have hclock := h.clock
      have hsum : elapsedTime (done ++ [.timeUpdate timeIncrease]) = elapsedTime done + timeIncrease.toNat := by
        simp [elapsedTime, EspCall.elapsed]
      have : (esp8266TimeUpdate e timeIncrease).time - (esp8266TimeUpdate e timeIncrease).startTime =
          (e.time - e.startTime) + timeIncrease := by
        simp only [esp8266TimeUpdate]
        grind
      rw [this, hclock, hsum, UInt32.ofNat_add]
      simp
  | update =>
    obtain ⟨e', hr, hrun, -⟩ := update_running hall h
    exact ⟨e', hr, hrun⟩

theorem calls_running (hall : all.filter (· ≠ blankLine) = ans.lines n) {calls : List EspCall}
    (h : Running p n base ans all timeout elsewhere done (receivedBytes calls) e) :
    ∃ e', (espCalls p calls).Returns e () e' ∧ Running p n base ans all timeout elsewhere (done ++ calls) [] e' := by
  induction calls generalizing e done with
  | nil =>
    rw [List.append_nil]
    exact ⟨e, Prog.returns_pure.mpr ⟨rfl, rfl⟩, h⟩
  | cons call calls ih =>
    have hbytes : receivedBytes (call :: calls) = call.received ++ receivedBytes calls := by
      simp [receivedBytes]
    rw [hbytes] at h
    obtain ⟨e₁, hr₁, h₁⟩ := call_running hall h
    obtain ⟨e₂, hr₂, h₂⟩ := ih h₁
    refine ⟨e₂, ?_, ?_⟩
    · simp only [espCalls]
      exact hr₁.bind hr₂
    · rwa [List.append_assoc] at h₂

/-- `ESP8266_StartClientConnectionTCP` and `ESP8266_StartClientConnectionSSL`. -/
def esp8266StartClientConnection (p : Platform) (location : List UInt8) (port : ℕ) :
    ConnectionType → EspM EspResult
  | .tcp => esp8266StartClientConnectionTCP p location port
  | .ssl => esp8266StartClientConnectionSSL p location port

variable {type : ConnectionType}

theorem startClientConnection_returns (location : List UInt8) (port : ℕ) (hidle : e.activeCommand = .idle) (hwifi : e.wifiIsConnected = true)
    (hslot : freeConnection type e (List.finRange 5) = .inr (some n)) :
    ∃ e', (esp8266StartClientConnection p location port type).Returns e .ok e' ∧
      attempt n e' = { attempt n e with
        command := .cipstart, response := none, active := true, client := true, connectionSent := n
        startTime := e.time } := by
  have main : ∀ protocol, ∃ e', (startClientConnection p type protocol location port).Returns e .ok e' ∧
      attempt n e' = { attempt n e with
        command := .cipstart, response := none, active := true, client := true, connectionSent := n
        startTime := e.time } := by
    intro protocol
    let text := ascii "AT+CIPSTART=" ++ [0x30 + UInt8.ofNat n] ++ ascii protocol ++ location ++
      ascii "\"," ++ ascii (toString port) ++ ascii "\r\n"
    have hsend : (sendCommand p .cipstart none).Returns (e.sendText text) .ok
        (((e.sendText text).commandStarted .cipstart none).withResult .ok) := by
      have hidle' : (e.sendText text).activeCommand = .idle := hidle
      simp [sendCommand, getEsp, setEsp, returnWithStatus, hidle']
    refine ⟨((((e.sendText text).commandStarted .cipstart none).withResult .ok).clientStarted n type).withResult
      .ok, ?_, ?_⟩
    · simp only [startClientConnection, getEsp, setEsp, Prog.get_bind_returns, hidle, ne_eq,
        not_true_eq_false, if_false, hwifi, Bool.true_eq_false, hslot, Prog.modify_bind_returns]
      refine hsend.bind ?_
      simp [returnWithStatus, setEsp]
    · simp [attempt, outcomes, Esp8266.withResult, Esp8266.clientStarted, Esp8266.commandStarted,
        Esp8266.sendText, Esp8266.setConnection]
  cases type with
  | tcp => exact main _
  | ssl => exact main _

theorem freeConnection_free {l : List (Fin 5)} (h : freeConnection type e l = .inr (some n)) :
    (e.connection n).active = false := by
  induction l with
  | nil => simp [freeConnection] at h
  | cons m l ih =>
    rw [freeConnection] at h
    split_ifs at h with hm hssl
    · simp only [Sum.inr.injEq, Option.some.injEq] at h
      exact h ▸ hm
    · exact ih h

theorem freeConnection_again {e₂ : Esp8266} {l : List (Fin 5)}
    (hslots : otherSlots n e₂.connection = otherSlots n e.connection) (hfree : (e₂.connection n).active = false)
    (h : freeConnection type e l = .inr (some n)) : freeConnection type e₂ l = .inr (some n) := by
  induction l with
  | nil => simp [freeConnection] at h
  | cons m l ih =>
    by_cases hm : m = n
    · subst hm
      simp [freeConnection, hfree]
    · have hslot := congrFun hslots m
      simp only [otherSlots, if_neg hm, Option.some.injEq, Prod.mk.injEq] at hslot
      obtain ⟨h1, h2, h3⟩ := hslot
      simp only [freeConnection, h1, h2, h3] at h ⊢
      split_ifs at h ⊢ with hactive hssl
      · simp only [Sum.inr.injEq, Option.some.injEq] at h
        exact absurd h hm
      · exact ih h

theorem freeConnection_error {l : List (Fin 5)} {err : EspResult} (h : freeConnection type e l = .inl err) :
    err = .error := by
  induction l with
  | nil => simp [freeConnection] at h
  | cons m l ih =>
    rw [freeConnection] at h
    split_ifs at h with hm hssl
    · exact (Sum.inl.inj h).symm
    · exact ih h

theorem startClientConnection_sent {e' : Esp8266} {location : List UInt8} {port : ℕ} (hidle : e.activeCommand = .idle)
    (hwifi : e.wifiIsConnected = true) (h : (esp8266StartClientConnection p location port type).Returns e .ok e') :
    (e.connection e'.startConnectionSent).active = false := by
  have failed : ∀ protocol, (∀ m, freeConnection type e (List.finRange 5) ≠ .inr (some m)) →
      ¬ (startClientConnection p type protocol location port).Returns e .ok e' := by
    intro protocol hnone hret
    simp only [startClientConnection, getEsp, Prog.get_bind_returns, hidle, ne_eq, not_true_eq_false, if_false, hwifi,
      Bool.true_eq_false] at hret
    rcases hfree : freeConnection type e (List.finRange 5) with err | m
    · obtain rfl := freeConnection_error hfree
      simp [hfree, returnWithStatus, setEsp] at hret
    · cases m with
      | none => simp [hfree, returnWithStatus, setEsp] at hret
      | some m => exact hnone m hfree
  by_cases hsome : ∃ m, freeConnection type e (List.finRange 5) = .inr (some m)
  · obtain ⟨m, hm⟩ := hsome
    obtain ⟨e₃, hr, hatt⟩ := startClientConnection_returns (p := p) location port hidle hwifi hm
    obtain ⟨-, rfl⟩ := h.unique hr
    have hsent : e'.startConnectionSent = m := congrArg Attempt.connectionSent hatt
    rw [hsent]
    exact freeConnection_free hm
  · cases type with
    | tcp => exact absurd h (failed _ (not_exists.mp hsome))
    | ssl => exact absurd h (failed _ (not_exists.mp hsome))

theorem isLine_of_answer (hls : ls.filter (· ≠ blankLine) = ans.lines n) : ∀ l ∈ ls, IsLine l := by
  intro l hl
  by_cases hb : l = blankLine
  · subst hb
    exact ⟨[0x0d], by decide, by decide, by decide⟩
  · have hmem : l ∈ ans.lines n := by
      rw [← hls]
      simp [hl, hb]
    have hok : IsLine okLine := ⟨ascii "OK\r", by decide, by decide, by decide⟩
    have herr : IsLine errorLine :=
      ⟨ascii "ERROR\r", by decide, by decide, by decide⟩
    have hc := isLine_connect n
    have hf := isLine_connectFail n
    cases ans <;> simp [Answer.lines] at hmem <;> (try rcases hmem with rfl | rfl) <;> simp_all

theorem session_end (h : InSession p inTime n base ans all [] ls e) (hlf : 0x0a ∉ e.usartBuffer.contents)
    (htmp : e.activeCommand = .idle → e.tmpBuffer.contents = [])
    (hidle : ans.connects = false → ans.refuses = false → e.activeCommand = .idle) :
    ∃ outcome, outcomes n e = outcome :: base ∧ e.activeCommand = .idle ∧
      (ans.connects = true ∧ inTime ∧ outcome = .clientConnectionConnected n ∨
        ans.connects = true ∧ ¬ inTime ∧ outcome = .clientConnectionTimeout n ∧ (e.connection n).active = true ∨
        ans.connects = false ∧ (outcome = .clientConnectionError n ∨ outcome = .clientConnectionTimeout n) ∧
          (e.connection n).active = false) := by
  obtain rfl : ls = [] := by
    cases ls with
    | nil => rfl
    | cons l ls =>
      obtain ⟨body, rfl, -, -⟩ := h.isLine _ List.mem_cons_self
      have := h.bytes
      rw [List.append_nil] at this
      exact absurd (by rw [this]; simp) hlf
  have hph : PhaseOf inTime (decidingLine p n ans) n base ans (attempt n e) [] := h.phase
  unfold PhaseOf at hph
  generalize hR : ([] : List (List UInt8)) = R at hph
  generalize hcmd : (attempt n e).command = cmd at hph
  generalize hact : (attempt n e).active = act at hph
  generalize hcli : (attempt n e).client = cli at hph
  generalize hout : (attempt n e).outcomes = out at hph
  generalize htmp' : (attempt n e).tmp.contents = tmp at hph
  cases hph with
  | waiting =>
    obtain rfl : ans = .silence := by cases ans <;> simp [Answer.lines] at hR ⊢
    exact absurd (hcmd.symm.trans (hidle rfl rfl)) (by decide)
  | putAside => simp at hR
  | resumed =>
    have : connectLine n = [] := htmp'.symm.trans (htmp hcmd)
    simp [connectLine] at this
  | accepted => simp at hR
  | connected _ _ hin hans =>
    exact ⟨_, hout, hcmd, .inl ⟨hans, hin, rfl⟩⟩
  | refused _ _ _ hrest =>
    obtain ⟨rfl, -⟩ | ⟨-, hne⟩ := hrest
    · exact absurd (hcmd.symm.trans (hidle rfl rfl)) (by decide)
    · rw [← hR] at hne
      simp at hne
  | complete _ outcome _ _ hans hout' =>
    exact ⟨outcome, hout, hcmd, .inr (.inr ⟨hans, hout', hact⟩)⟩
  | late _ act _ _ hlate hans hactive =>
    have hempty : tmp = [] := htmp'.symm.trans (htmp hcmd)
    have hne : tmp ≠ connectLine n := by
      rw [hempty]
      simp [connectLine]
    have hon : act = true := by
      rcases hactive with hactive | hactive | hactive
      · exact hactive
      · rw [← hR] at hactive
        simp at hactive
      · exact absurd hactive hne
    exact ⟨_, hout, hcmd, .inr (.inl ⟨hans, hlate, rfl, hact.trans hon⟩)⟩

end session

/-- The attempt that has started on slot `n` of `e` has one outcome, and unless the slot is connected
it can be taken again. -/
def AttemptEnds (p : Platform) (n : Fin 5) (e e₂ : Esp8266) : Prop :=
  ∃ outcome, outcomes n e₂ = outcome :: outcomes n e ∧ IsOutcome n outcome ∧ e₂.activeCommand = .idle ∧
    (outcome ≠ .clientConnectionConnected n → ∀ type location port,
      freeConnection type e (List.finRange 5) = .inr (some n) →
      ∃ e₃, (esp8266StartClientConnection p location port type).Returns e₂ .ok e₃ ∧ e₃.startConnectionSent = n)

/-- The state `e₂` at the end of an attempt that has started on slot `n` of `e`. -/
structure Ended (inTime : Prop) (n : Fin 5) (ans : Answer) (e e₂ : Esp8266) : Prop where
  outcome : ∃ outcome, outcomes n e₂ = outcome :: outcomes n e ∧
    (ans.connects = true ∧ inTime ∧ outcome = .clientConnectionConnected n ∨
      ans.connects = true ∧ ¬ inTime ∧ outcome = .clientConnectionTimeout n ∧ (e₂.connection n).active = true ∨
      ans.connects = false ∧ (outcome = .clientConnectionError n ∨ outcome = .clientConnectionTimeout n) ∧
        (e₂.connection n).active = false)
  idle : e₂.activeCommand = .idle
  wifi : e₂.wifiIsConnected = true
  slots : otherSlots n e₂.connection = otherSlots n e.connection

theorem clientConnection_ended (p : Platform) (location : List UInt8) (port : ℕ) (type : ConnectionType)
    {n : Fin 5} {e : Esp8266} (hready : Ready e) (hwifi : e.wifiIsConnected = true)
    (hslot : freeConnection type e (List.finRange 5) = .inr (some n)) (ans : Answer)
    {ls : List (List UInt8)} (hls : ls.filter (· ≠ blankLine) = ans.lines n)
    {calls : List EspCall} (hbytes : receivedBytes calls = ls.flatten) (hfit : ls.flatten.length < 1024)
    (htimeout : ans.connects = false → ans.refuses = false →
      effectiveTimeout e < UInt32.ofNat (elapsedTime calls)) :
    ∃ e₁ e₂, (esp8266StartClientConnection p location port type).Returns e .ok e₁ ∧
      (espCalls p (calls ++ [.update])).Returns e₁ () e₂ ∧
      Ended (InTime (effectiveTimeout e) (upTo (decidingLine p n ans) ls) (calls ++ [.update])) n ans e e₂ := by
  obtain ⟨e₁, hstart, hatt⟩ := startClientConnection_returns (p := p) location port hready.idle hwifi hslot
  have hline := isLine_of_answer hls
  have husart : e₁.usartBuffer = e.usartBuffer := congrArg Attempt.usart hatt
  have htmp : (attempt n e).tmp.contents = [] := hready.tmp_empty
  have htime : e₁.time = e.time := congrArg Attempt.time hatt
  have htimeouts : e₁.timeout = e.timeout := congrArg Attempt.timeout hatt
  have hcmd : e₁.activeCommand = .cipstart := congrArg Attempt.command hatt
  let d := decidingLine p n ans
  have hin : InTime (effectiveTimeout e) (upTo d ls) [] := fun before behind h => by simp at h
  have hsession : InSession p (InTime (effectiveTimeout e) (upTo d ls) []) n (outcomes n e) ans ls ls.flatten ls e₁ := by
    refine ⟨?_, ?_, hline, List.suffix_refl _, ?_⟩
    · rw [hatt]
      exact ⟨hready.usart_valid, hready.usart_size, hready.usart_delimiter, hready.tmp_valid,
        hready.tmp_size, hready.tmp_delimiter, rfl, hready.inIPD, hready.wrapper, rfl⟩
    · rw [husart, hready.usart_empty, List.nil_append]
    · rw [hls]
      simp only [PhaseOf, hatt, htmp]
      exact .waiting ans fun _ => hin
  have hrun : Running p n (outcomes n e) ans ls (effectiveTimeout e) (attempt n e).elsewhere [] (receivedBytes calls) e₁ := by
    rw [hbytes]
    refine ⟨⟨ls, hsession⟩, rfl, fun _ _ => ?_, ?_, ?_, by rw [hatt], ?_⟩
    · have hfound : ¬ Found (upTo d ls) [] := fun ⟨before, behind, h, _⟩ => by simp at h
      exact iff_of_true hcmd hfound
    · have hst : e₁.startTime = e.time := congrArg Attempt.startTime hatt
      rw [htime, hst, UInt32.sub_self]
      rfl
    · simp only [effectiveTimeout, htimeouts]
    · rw [husart, hready.usart_empty]
      simpa using hfit
  obtain ⟨e₂, hr₂, h₂⟩ := calls_running hls hrun
  rw [List.nil_append] at h₂
  obtain ⟨e₃, hr₃, h₃, hlf, ht₃, hidle⟩ := update_running hls h₂
  obtain ⟨ls₃, hs₃⟩ := h₃.session
  obtain ⟨outcome, hout, hidle₃, hend⟩ := session_end hs₃ hlf ht₃ fun hc hr => hidle (by
    unfold Expired
    rw [h₂.timeout_eq, h₂.clock]
    exact htimeout hc hr)
  refine ⟨e₁, e₃, hstart, ?_, ⟨outcome, hout, hend⟩, hidle₃, (congrArg Prod.fst h₃.elsewhere_eq).trans hwifi,
    congrArg Prod.snd h₃.elsewhere_eq⟩
  rw [espCalls_append]
  exact ⟨e₂, hr₂, by simpa [espCalls] using hr₃⟩

theorem attemptEnds_iff {inTime : Prop} {n : Fin 5} {ans : Answer} {e e₂ : Esp8266} {type : ConnectionType}
    (hslot : freeConnection type e (List.finRange 5) = .inr (some n)) (h : Ended inTime n ans e e₂) :
    AttemptEnds p n e e₂ ↔ (ans.connects = true → inTime) := by
  obtain ⟨outcome, hout, hend⟩ := h.outcome
  constructor
  · rintro ⟨outcome', hout', -, -, hagain⟩ hans
    obtain rfl : outcome' = outcome := List.head_eq_of_cons_eq (hout'.symm.trans hout)
    rcases hend with ⟨-, hin, -⟩ | ⟨-, -, rfl, hactive⟩ | ⟨hno, -, -⟩
    · exact hin
    · -- the slot is still taken, so that no start can find it
      obtain ⟨e₃, hr, hsent⟩ := hagain (by simp) type [] 0 hslot
      have hfree := startClientConnection_sent h.idle h.wifi hr
      rw [hsent, hactive] at hfree
      cases hfree
    · rw [hans] at hno
      cases hno
  · intro hin
    refine ⟨outcome, hout, ?_, h.idle, fun hne type location port hslot => ?_⟩
    · rcases hend with ⟨-, -, rfl⟩ | ⟨-, -, rfl, -⟩ | ⟨-, rfl | rfl, -⟩ <;> simp [IsOutcome]
    · have hfree : (e₂.connection n).active = false := by
        rcases hend with ⟨-, -, rfl⟩ | ⟨hans, hlate, -, -⟩ | ⟨-, -, hfree⟩
        · exact absurd rfl hne
        · exact absurd (hin hans) hlate
        · exact hfree
      obtain ⟨e₃, hr, hatt⟩ := startClientConnection_returns (p := p) location port h.idle h.wifi
        (freeConnection_again h.slots hfree hslot)
      exact ⟨e₃, hr, congrArg Attempt.connectionSent hatt⟩

/-- An attempt to connect as a client ends as it has to, whatever the module answers, whenever it does
and however its bytes are split, unless the timeout is found exceeded before a connect answer has been found. -/
theorem clientConnection_outcome_iff (p : Platform) (location : List UInt8) (port : ℕ) (type : ConnectionType)
    {n : Fin 5} {e : Esp8266} (hready : Ready e) (hwifi : e.wifiIsConnected = true)
    (hslot : freeConnection type e (List.finRange 5) = .inr (some n)) (ans : Answer)
    {ls : List (List UInt8)} (hls : ls.filter (· ≠ blankLine) = ans.lines n)
    {calls : List EspCall} (hbytes : receivedBytes calls = ls.flatten) (hfit : ls.flatten.length < 1024)
    (htimeout : ans.connects = false → ans.refuses = false →
      effectiveTimeout e < UInt32.ofNat (elapsedTime calls)) :
    ∃ e₁ e₂, (esp8266StartClientConnection p location port type).Returns e .ok e₁ ∧
      (espCalls p (calls ++ [.update])).Returns e₁ () e₂ ∧
      (AttemptEnds p n e e₂ ↔ (ans.connects = true →
        InTime (effectiveTimeout e) (upTo (decidingLine p n ans) ls) (calls ++ [.update]))) := by
  obtain ⟨e₁, e₂, hstart, hcalls, hend⟩ :=
    clientConnection_ended p location port type hready hwifi hslot ans hls hbytes hfit htimeout
  exact ⟨e₁, e₂, hstart, hcalls, attemptEnds_iff hslot hend⟩

/-- The `OK` is found at once, so that the attempt ends though the other line comes long after the timeout. -/
theorem clientConnection_outcome_iff_okConnect : ∃ e₁ e₂,
    (esp8266StartClientConnection ⟨[], false, fun _ => []⟩ (ascii "host") 443 .ssl).Returns connectedEsp
      .ok e₁ ∧
    (espCalls ⟨[], false, fun _ => []⟩ [.dataReceived (ascii "\r\nOK\r\n"), .update, .timeUpdate 40000,
      .dataReceived (ascii "0,CONNECT\r\n"), .update]).Returns e₁ () e₂ ∧
    AttemptEnds ⟨[], false, fun _ => []⟩ 0 connectedEsp e₂ := by
  have hls : [blankLine, okLine, connectLine 0].filter (· ≠ blankLine) = Answer.okConnect.lines 0 := by decide
  have hbytes : receivedBytes [.dataReceived (ascii "\r\nOK\r\n"), .update, .timeUpdate 40000,
      .dataReceived (ascii "0,CONNECT\r\n")] = [blankLine, okLine, connectLine 0].flatten := by decide
  obtain ⟨e₁, e₂, hstart, hcalls, hends⟩ :=
    clientConnection_outcome_iff ⟨[], false, fun _ => []⟩ (ascii "host") 443 .ssl connectedEsp_ready rfl
      (n := 0) (by decide) .okConnect hls hbytes (by decide) (by simp [Answer.connects])
  refine ⟨e₁, e₂, hstart, hcalls, hends.mpr fun _ => ?_⟩
  have hfound : Found (upTo okLine [blankLine, okLine, connectLine 0]) [.dataReceived (ascii "\r\nOK\r\n"), .update] :=
    ⟨[.dataReceived (ascii "\r\nOK\r\n")], [], rfl, by decide⟩
  intro before behind h hlt
  obtain ⟨before, rfl⟩ : ∃ rest, before = [.dataReceived (ascii "\r\nOK\r\n"), .update] ++ rest := by
    rcases before with - | ⟨c₁, - | ⟨c₂, before⟩⟩
    · simp at h
    · obtain ⟨rfl, -⟩ := List.cons.inj h
      exact absurd hlt (by decide)
    · simp only [List.cons_append, List.nil_append, List.cons.injEq] at h
      obtain ⟨rfl, rfl, -⟩ := h
      exact ⟨before, rfl⟩
  obtain ⟨first, last, h, hbytes⟩ := hfound
  exact ⟨first, last ++ before, by rw [h]; simp, hbytes⟩

/-- The connect answer has come in time, but the update that would find it finds the timeout exceeded first: the slot is
taken for a connection to the server and stays taken. -/
theorem clientConnection_late : ∃ e₁ e₂,
    (esp8266StartClientConnection ⟨[], false, fun _ => []⟩ (ascii "host") 80 .tcp).Returns connectedEsp .ok e₁ ∧
    (espCalls ⟨[], false, fun _ => []⟩ [.dataReceived (ascii "0,CONNECT\r\n\r\nOK\r\n"), .timeUpdate 30001,
      .update]).Returns e₁ () e₂ ∧
    outcomes 0 e₂ = [.clientConnectionTimeout 0] ∧ (e₂.connection 0).active = true ∧
    ¬ AttemptEnds ⟨[], false, fun _ => []⟩ 0 connectedEsp e₂ := by
  have hslot : freeConnection .tcp connectedEsp (List.finRange 5) = .inr (some 0) := by decide
  have hls : [connectLine 0, blankLine, okLine].filter (· ≠ blankLine) = Answer.connectOk.lines 0 := by decide
  have hbytes : receivedBytes [.dataReceived (ascii "0,CONNECT\r\n\r\nOK\r\n"), .timeUpdate 30001] =
      [connectLine 0, blankLine, okLine].flatten := by decide
  obtain ⟨e₁, e₂, hstart, hcalls, hend⟩ :=
    clientConnection_ended ⟨[], false, fun _ => []⟩ (ascii "host") 80 .tcp connectedEsp_ready rfl
      hslot .connectOk hls hbytes (by decide) (by simp [Answer.connects])
  have hlate : ¬ InTime (effectiveTimeout connectedEsp)
      (upTo (decidingLine ⟨[], false, fun _ => []⟩ 0 .connectOk) [connectLine 0, blankLine, okLine])
      ([.dataReceived (ascii "0,CONNECT\r\n\r\nOK\r\n"), .timeUpdate 30001] ++ [.update]) := by
    intro h
    obtain ⟨before, behind, hcalls, -⟩ := h _ [] rfl (by decide)
    rcases before with - | ⟨c₁, - | ⟨c₂, before⟩⟩ <;> simp at hcalls
  obtain ⟨outcome, hout, hor⟩ := hend.outcome
  rcases hor with ⟨-, hin, -⟩ | ⟨-, -, rfl, hactive⟩ | ⟨hno, -, -⟩
  · exact absurd hin hlate
  · refine ⟨e₁, e₂, hstart, hcalls, hout, hactive, ?_⟩
    rw [attemptEnds_iff hslot hend]
    exact fun h => hlate (h rfl)
  · cases hno

end Lpc1788Libraries.WiFi

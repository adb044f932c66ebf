import Lpc1788Libraries.WiFi.EspSession

namespace Lpc1788Libraries.WiFi

open Lpc1788Libraries.Support BoundedProgram

/-- The data that the callbacks for connection `n` have been handed, newest first. -/
def deliveredTo (n : Fin 5) : List Event → List (List UInt8)
  | [] => []
  | .clientConnectionDataReceived m data :: evs =>
    if m = n then data :: deliveredTo n evs else deliveredTo n evs
  | .serverConnectionDataReceived m data :: evs =>
    if m = n then data :: deliveredTo n evs else deliveredTo n evs
  | _ :: evs => deliveredTo n evs

/-- The lines that `ParseReceived` has been given, newest first. -/
def parsedLines : List Event → List (List UInt8)
  | [] => []
  | .parseReceived received _ :: evs => received :: parsedLines evs
  | _ :: evs => parsedLines evs

/-- The part of the state that the reception of a packet on connection `n` depends on. -/
structure Reception where
  command : Command
  wrapper : Bool
  active : Bool
  callData : Bool
  dataSize : ℕ
  bytesReceived : ℕ
  ipd : Ipd
  data : ℕ → UInt8
  usart : Buffer
  tmp : Buffer
  delivered : List (List UInt8)
  parsed : List (List UInt8)

def reception (n : Fin 5) (e : Esp8266) : Reception where
  command := e.activeCommand
  wrapper := e.waitForWrapper
  active := (e.connection n).active
  callData := (e.connection n).callDataReceived
  dataSize := (e.connection n).dataSize
  bytesReceived := (e.connection n).bytesReceived
  ipd := e.ipd
  data := e.connectionData
  usart := e.usartBuffer
  tmp := e.tmpBuffer
  delivered := deliveredTo n e.log
  parsed := parsedLines e.log

/-- The effect of the data callback on the reception. -/
def Reception.fire (a : Reception) : Reception :=
  if a.active && a.callData then
    { a with callData := false, delivered := copyFrom a.data 0 a.dataSize :: a.delivered }
  else a

variable {p : Platform} {n m : Fin 5} {e : Esp8266} {a : Reception} {b : Bool}

theorem Reception.fire_fire : a.fire.fire = a.fire := by
  unfold Reception.fire
  split
  · simp
  · rfl

theorem Reception.fire_of_not_pending (h : a.callData = false) : a.fire = a := by
  simp [Reception.fire, h]

theorem reception_callback (hc : e.activeCommand = .idle) :
    reception n (callConnectionCallback e m) = if m = n then (reception n e).fire else reception n e := by
  by_cases hmn : m = n
  · subst hmn
    rw [if_pos rfl]
    by_cases hp : ((e.connection m).active && (e.connection m).callDataReceived) = true
    · have hp' : ((reception m e).active && (reception m e).callData) = true := hp
      simp only [callConnectionCallback, hp, if_true, hc, ne_eq, not_true_eq_false, decide_false,
        Bool.and_false, Bool.false_eq_true, if_false, Reception.fire, hp']
      split <;> simp [reception, Esp8266.call, Esp8266.setConnection, deliveredTo, parsedLines,
        Esp8266.packet]
    · have hp' : ¬ ((reception m e).active && (reception m e).callData) = true := hp
      simp only [callConnectionCallback, hp, Bool.false_eq_true, if_false, Reception.fire, hp']
  · rw [if_neg hmn]
    have hnm : n ≠ m := Ne.symm hmn
    by_cases hp : ((e.connection m).active && (e.connection m).callDataReceived) = true
    · simp only [callConnectionCallback, hp, if_true, hc, ne_eq, not_true_eq_false, decide_false,
        Bool.and_false, Bool.false_eq_true, if_false]
      split <;> simp [reception, Esp8266.call, Esp8266.setConnection, deliveredTo, parsedLines, hnm, hmn]
    · simp only [callConnectionCallback, hp, Bool.false_eq_true, if_false]

theorem callback_command : (callConnectionCallback e m).activeCommand = e.activeCommand := by
  simp only [callConnectionCallback]
  split_ifs <;> rfl

theorem reception_callbacks (hc : e.activeCommand = .idle) :
    reception n (callConnectionCallbacks e) = (reception n e).fire := by
  have all : ∀ (l : List (Fin 5)) (e : Esp8266), e.activeCommand = .idle →
      reception n (l.foldl callConnectionCallback e) =
        if n ∈ l then (reception n e).fire else reception n e := by
    intro l
    induction l with
    | nil => simp
    | cons m l ih =>
      intro e hc
      rw [List.foldl_cons, ih _ (callback_command.trans hc), reception_callback hc]
      by_cases hmn : m = n
      · subst hmn
        simp [Reception.fire_fire]
      · simp [hmn, Ne.symm hmn]
  rw [callConnectionCallbacks, all _ _ hc, if_pos (List.mem_finRange n)]

theorem reception_noteReceived {received : List UInt8} : reception n (noteReceived e received b) =
    { reception n e with parsed := received :: (reception n e).parsed } := by
  simp [reception, noteReceived, Esp8266.call, deliveredTo, parsedLines]

theorem reception_parseSendOk {received : List UInt8} (hc : e.activeCommand = .idle) :
    reception n (parseSendOk e received) = reception n e := by
  have one : ∀ (e : Esp8266) (m : Fin 5), reception n (dataSentCallback e m) = reception n e := by
    intro e m
    simp only [dataSentCallback]
    split
    · by_cases hmn : n = m
      · subst hmn
        split <;> simp [reception, Esp8266.call, Esp8266.setConnection, deliveredTo, parsedLines]
      · split <;> simp [reception, Esp8266.call, Esp8266.setConnection, deliveredTo, parsedLines, hmn]
    · rfl
  have all : ∀ (l : List (Fin 5)) (e : Esp8266), reception n (l.foldl dataSentCallback e) = reception n e := by
    intro l
    induction l with
    | nil => exact fun e => rfl
    | cons m l ih => exact fun e => (ih _).trans (one e m)
  have hsame : ({ e with activeCommand := .idle } : Esp8266) = e := by rw [← hc]
  simp only [parseSendOk]
  split
  · rw [hsame, all]
  · rfl

/-- A line that the module can send as a response: it names an existing connection. -/
structure IsResponse (received : List UInt8) : Prop where
  isLine : IsLine received
  not_packet : strStarts received "+IPD," = false
  made : endsWith received ",CONNECT\r\n" = true → (connectionOf (byteBefore received 10)).isSome
  closed : endsWith received ",CLOSED\r\n" = true →
    received.length = 10 ∧ (connectionOf (byteBefore received 9)).isSome
  failed : (decide (16 < received.length) &&
    strContains (received.drop (received.length - 15)) ",CONNECT FAIL\r\n") = true →
    (connectionOf (byteBefore received 15)).isSome

/-- What is left alone while nothing waits to be delivered. -/
structure Settled (a c : Reception) : Prop where
  command : a.command = .idle → c.command = .idle
  wrapper : a.wrapper = false → c.wrapper = false
  callData : a.callData = false → c.callData = false
  ipd : c.ipd = a.ipd
  data : c.data = a.data
  usart : c.usart = a.usart
  tmp : c.tmp = a.tmp
  delivered : c.delivered = a.delivered
  parsed : c.parsed = a.parsed

theorem Settled.refl : Settled a a := ⟨id, id, id, rfl, rfl, rfl, rfl, rfl, rfl⟩

theorem Settled.trans {c d : Reception} (h : Settled a c) (h' : Settled c d) : Settled a d where
  command := h'.command ∘ h.command
  wrapper := h'.wrapper ∘ h.wrapper
  callData := h'.callData ∘ h.callData
  ipd := h'.ipd.trans h.ipd
  data := h'.data.trans h.data
  usart := h'.usart.trans h.usart
  tmp := h'.tmp.trans h.tmp
  delivered := h'.delivered.trans h.delivered
  parsed := h'.parsed.trans h.parsed

variable {received : List UInt8}

theorem settled_setConnection {f : Connection → Connection}
    (hf : ∀ conn, (f conn).callDataReceived = conn.callDataReceived) :
    Settled (reception n e) (reception n (e.setConnection m f)) := by
  have hcall : ((e.setConnection m f).connection n).callDataReceived = (e.connection n).callDataReceived := by
    by_cases hmn : n = m
    · subst hmn
      simp [Esp8266.setConnection, hf]
    · simp [Esp8266.setConnection, hmn]
  exact ⟨id, id, hcall.trans, rfl, rfl, rfl, rfl, rfl, rfl⟩

theorem settled_call {ev : Event} (hd : deliveredTo n (ev :: e.log) = deliveredTo n e.log)
    (hp : parsedLines (ev :: e.log) = parsedLines e.log) :
    Settled (reception n e) (reception n (e.call ev)) :=
  ⟨id, id, id, rfl, rfl, rfl, rfl, hd, hp⟩

theorem settled_parseReady : Settled (reception n e) (reception n (parseReady e received)) := by
  simp only [parseReady]
  have ready : Settled (reception n e)
      (reception n (if strEq received "ready\r\n" then e.call .deviceReady else e)) := by
    split
    · exact settled_call rfl rfl
    · exact .refl
  split
  · exact ready.trans (settled_call rfl rfl)
  · exact ready

theorem settled_parseWifi : Settled (reception n e) (reception n (parseWifi e received)) := by
  simp only [parseWifi]
  split_ifs
  · exact ⟨id, id, id, rfl, rfl, rfl, rfl, rfl, rfl⟩
  · exact ⟨id, id, fun _ => rfl, rfl, rfl, rfl, rfl, rfl, rfl⟩
  · exact ⟨id, id, id, rfl, rfl, rfl, rfl, rfl, rfl⟩
  · exact settled_call rfl rfl
  · exact .refl

theorem settled_connectionMade (hc : e.activeCommand = .idle) {x : UInt8} :
    Settled (reception n e) (reception n (connectionMade e x m)) := by
  have hmade := settled_setConnection (n := n) (m := m) (e := e)
    (f := fun conn => { conn with active := true, number := char2Num x }) fun conn => rfl
  have hidle : (e.setConnection m fun conn =>
      { conn with active := true, number := char2Num x }).activeCommand = .idle := hc
  simp only [connectionMade, hidle, reduceCtorEq, if_false]
  split
  · exact hmade.trans (settled_call rfl rfl)
  · exact hmade.trans (settled_call rfl rfl)

theorem settled_connectionClosed : Settled (reception n e) (reception n (connectionClosed e m)) := by
  have hreset : Settled (reception n e) (reception n (e.resetConnection m)) :=
    settled_setConnection fun conn => rfl
  simp only [connectionClosed]
  split_ifs
  · exact hreset.trans (settled_call rfl rfl)
  · exact hreset.trans (settled_call rfl rfl)
  · exact hreset

theorem settled_connectionFailed {x : UInt8} :
    Settled (reception n e) (reception n (connectionFailed e x m)) := by
  have hreset : Settled (reception n e) (reception n (e.resetConnection m)) :=
    settled_setConnection fun conn => rfl
  have hnumber := hreset.trans (settled_setConnection (n := n) (m := m) (e := e.resetConnection m)
    (f := fun conn => { conn with number := char2Num x }) fun conn => rfl)
  have hclient : (((e.resetConnection m).setConnection m fun conn =>
      { conn with number := char2Num x }).connection m).client = false := by
    simp [Esp8266.resetConnection, Esp8266.setConnection]
  simp only [connectionFailed, hclient, Bool.false_eq_true, if_false]
  exact hnumber

theorem settled_parseConnection (hc : e.activeCommand = .idle) (hr : IsResponse received) :
    ∃ e', parseConnection e received = some e' ∧ Settled (reception n e) (reception n e') := by
  simp only [parseConnection]
  split_ifs with h1 h2 h3 h4 h5
  · obtain ⟨m, hm⟩ := Option.isSome_iff_exists.mp (hr.made h1)
    rw [hm, Option.map_some]
    exact ⟨_, rfl, settled_connectionMade hc⟩
  · exact ⟨e, rfl, .refl⟩
  · obtain ⟨m, hm⟩ := Option.isSome_iff_exists.mp (hr.closed h3).2
    rw [hm, Option.map_some]
    exact ⟨_, rfl, settled_connectionClosed⟩
  · exact absurd (hr.closed h3).1 h4
  · obtain ⟨m, hm⟩ := Option.isSome_iff_exists.mp (hr.failed h5)
    rw [hm, Option.map_some]
    exact ⟨_, rfl, settled_connectionFailed⟩
  · exact ⟨e, rfl, .refl⟩

theorem settled_parseStatus (hc : e.activeCommand = .idle) :
    Settled (reception n e) (reception n (parseStatus e received)) := by
  have hidle : (if e.activeCommand = .send ∨ e.activeCommand = .senddata then e.activeCommand
      else .idle) = Command.idle := by
    split <;> simp_all
  simp only [parseStatus, hidle]
  split_ifs <;> exact ⟨fun _ => by first | rfl | exact hc, by first | exact fun _ => rfl | exact id,
    id, rfl, rfl, rfl, rfl, rfl, rfl⟩

/-- The packet has been handed over, or it waits for the next call of the callbacks. -/
def Delivers (payload : List UInt8) (old : List (List UInt8)) (a : Reception) : Prop :=
  a.callData = false ∧ a.delivered = payload :: old ∨
    a.callData = true ∧ a.active = true ∧ copyFrom a.data 0 a.dataSize = payload ∧ a.delivered = old

variable {payload : List UInt8} {old : List (List UInt8)}

theorem Delivers.fire (h : Delivers payload old a) :
    a.fire.callData = false ∧ a.fire.delivered = payload :: old := by
  rcases h with ⟨h1, h2⟩ | ⟨h1, h2, h3, h4⟩
  · rw [Reception.fire_of_not_pending h1]
    exact ⟨h1, h2⟩
  · simp [Reception.fire, h1, h2, h3, h4]

theorem Reception.fire_same : a.fire.command = a.command ∧ a.fire.wrapper = a.wrapper ∧
    a.fire.ipd = a.ipd ∧ a.fire.data = a.data ∧ a.fire.usart = a.usart ∧ a.fire.tmp = a.tmp ∧
    a.fire.parsed = a.parsed ∧ a.fire.active = a.active ∧ a.fire.bytesReceived = a.bytesReceived := by
  unfold Reception.fire
  split <;> exact ⟨rfl, rfl, rfl, rfl, rfl, rfl, rfl, rfl, rfl⟩

theorem parseReceived_response (hc : e.activeCommand = .idle) (hw : e.waitForWrapper = false)
    (hr : IsResponse received) (hd : Delivers payload old (reception n e)) :
    ∃ e', parseReceived p e received b = some e' ∧ e'.activeCommand = .idle ∧
      e'.waitForWrapper = false ∧ e'.ipd = e.ipd ∧ e'.usartBuffer = e.usartBuffer ∧
      e'.tmpBuffer = e.tmpBuffer ∧ parsedLines e'.log = received :: parsedLines e.log ∧
      Delivers payload old (reception n e') := by
  let e₁ := noteReceived e received b
  have h₁ : reception n e₁ = { reception n e with parsed := received :: (reception n e).parsed } :=
    reception_noteReceived
  have hd₁ : Delivers payload old (reception n e₁) := by
    rw [h₁]
    exact hd
  by_cases hb : received = ascii "\r\n"
  · refine ⟨e₁, by simp [parseReceived, hb, e₁], hc, hw, rfl, rfl, rfl, ?_, hd₁⟩
    exact congrArg Reception.parsed h₁
  · have hput : hasToWait p (noteReceived e received b) received b = false := by
      have hc₁ : (noteReceived e received b).activeCommand = .idle := hc
      simp [hasToWait, hc₁]
    -- the callbacks come before anything that resets a connection
    let e₂ := callConnectionCallbacks (parseReady e₁ received)
    have hready : Settled (reception n e₁) (reception n (parseReady e₁ received)) := settled_parseReady
    have h₂ : reception n e₂ = (reception n (parseReady e₁ received)).fire :=
      reception_callbacks (hready.command hc)
    obtain ⟨f1, f2, f3, f4, f5, f6, f7, -, -⟩ := (reception n (parseReady e₁ received)).fire_same
    have hd₂ : Delivers payload old (reception n (parseReady e₁ received)) := by
      have hact : ((parseReady e₁ received).connection n) = e.connection n := by
        simp only [parseReady]
        split_ifs <;> rfl
      rcases hd₁ with ⟨g1, g2⟩ | ⟨g1, g2, g3, g4⟩
      · exact .inl ⟨hready.callData g1, hready.delivered.trans g2⟩
      · refine .inr ⟨?_, ?_, ?_, hready.delivered.trans g4⟩
        · exact (congrArg Connection.callDataReceived hact).trans g1
        · exact (congrArg Connection.active hact).trans g2
        · have hsize : (reception n (parseReady e₁ received)).dataSize = (reception n e₁).dataSize :=
            congrArg Connection.dataSize hact
          rw [hready.data, hsize, g3]
    obtain ⟨hcall, hdel⟩ := hd₂.fire
    rw [← h₂] at f1 f2 f3 f4 f5 f6 f7 hcall hdel
    have hc₂ : e₂.activeCommand = .idle := f1.trans (hready.command hc)
    have hw₂ : e₂.waitForWrapper = false := f2.trans (hready.wrapper hw)
    let e₃ := parseSendOk (parseWifi e₂ received) received
    have hwifi : Settled (reception n e₂) (reception n (parseWifi e₂ received)) := settled_parseWifi
    have h₃ : reception n e₃ = reception n (parseWifi e₂ received) :=
      reception_parseSendOk (hwifi.command hc₂)
    have hs₃ : Settled (reception n e₂) (reception n e₃) := h₃ ▸ hwifi
    obtain ⟨e₄, he₄, hs₄⟩ := settled_parseConnection (n := n) (hs₃.command hc₂) hr
    have hc₄ : e₄.activeCommand = .idle := hs₄.command (hs₃.command hc₂)
    have hs₅ : Settled (reception n e₄) (reception n (parseStatus e₄ received)) := settled_parseStatus hc₄
    have hs := hs₃.trans (hs₄.trans hs₅)
    refine ⟨parseStatus e₄ received, ?_, hs.command hc₂, hs.wrapper hw₂, ?_, ?_, ?_, ?_, .inl ⟨?_, ?_⟩⟩
    · have hipd : parseIpd e₄ received b = some e₄ := by
        simp [parseIpd, hr.not_packet]
      have hcmd : parseCommand p e₄ received = some e₄ := by
        simp [parseCommand, hc₄]
      simp only [parseReceived, hb, if_false, hput, Bool.false_eq_true, parseLine]
      rw [he₄, Option.bind_some, hipd, Option.bind_some, hcmd, Option.map_some]
    · exact hs.ipd.trans (f3.trans hready.ipd)
    · exact hs.usart.trans (f5.trans hready.usart)
    · exact hs.tmp.trans (f6.trans hready.tmp)
    · exact hs.parsed.trans (f7.trans (hready.parsed.trans (congrArg Reception.parsed h₁)))
    · exact hs.callData hcall
    · exact hs.delivered.trans hdel

end Lpc1788Libraries.WiFi

import Lpc1788Libraries.WiFi.Esp8266

namespace Lpc1788Libraries.WiFi

open Lpc1788Libraries.Support BoundedProgram

/-- What happens around the library while it runs. -/
inductive EspCall
  | dataReceived (data : List UInt8)
  | timeUpdate (timeIncrease : UInt32)
  | update

namespace EspCall

def received : EspCall → List UInt8
  | dataReceived data => data
  | _ => []

def elapsed : EspCall → ℕ
  | timeUpdate timeIncrease => timeIncrease.toNat
  | _ => 0

end EspCall

variable (p : Platform)

def espCall : EspCall → EspM Unit
  | .dataReceived data => setEsp fun e => esp8266DataReceived e data
  | .timeUpdate timeIncrease => setEsp fun e => esp8266TimeUpdate e timeIncrease
  | .update => do
    let _ ← esp8266Update p
    return ()

def espCalls : List EspCall → EspM Unit
  | [] => return ()
  | call :: calls => do
    espCall p call
    espCalls calls

/-- The bytes that the module sends during the calls. -/
def receivedBytes (calls : List EspCall) : List UInt8 := (calls.map EspCall.received).flatten

def elapsedTime (calls : List EspCall) : ℕ := (calls.map EspCall.elapsed).sum

variable {p} {e f : Esp8266} {calls calls' : List EspCall} {u v : Unit}

theorem espCalls_append : (espCalls p (calls ++ calls')).Returns e u f ↔
    ∃ e', (espCalls p calls).Returns e () e' ∧ (espCalls p calls').Returns e' u f := by
  induction calls generalizing e with
  | nil => simp [espCalls]
  | cons call calls ih =>
    simp only [List.cons_append, espCalls, Prog.returns_bind, ih]
    constructor
    · rintro ⟨x, g, hg, e', he, hf⟩
      exact ⟨e', ⟨x, g, hg, he⟩, hf⟩
    · rintro ⟨e', ⟨x, g, hg, he⟩, hf⟩
      exact ⟨x, g, hg, e', he, hf⟩

def blankLine : List UInt8 := ascii "\r\n"

/-- The character for a connection number. -/
def digit (n : Fin 5) : UInt8 := 0x30 + UInt8.ofNat n

/-- The library between two commands, with nothing left to parse. -/
structure Ready (e : Esp8266) : Prop where
  idle : e.activeCommand = .idle
  usart_valid : e.usartBuffer.Valid
  usart_size : e.usartBuffer.size = 1024
  usart_delimiter : e.usartBuffer.stringDelimiter = 0x0a
  usart_empty : e.usartBuffer.contents = []
  tmp_valid : e.tmpBuffer.Valid
  tmp_size : e.tmpBuffer.size = 512
  tmp_delimiter : e.tmpBuffer.stringDelimiter = 0x0a
  tmp_empty : e.tmpBuffer.contents = []
  inIPD : e.ipd.inIPD = false
  wrapper : e.waitForWrapper = false

/-- The library after `ESP8266_Init`, with the Wi-Fi connected. -/
def connectedEsp : Esp8266 where
  activeCommand := .idle
  activeCommandResponse := none
  startTime := 0
  time := 0
  lastReceivedTime := 0
  timeout := 30000
  connection := fun _ => Connection.zero
  sentMode := 0
  mode := 0
  ipd := ⟨false, 0, 0, 0, false⟩
  pingTime := 0
  pingSuccess := false
  wifiConnectError := 0
  startConnectionSent := 0
  totalBytesReceived := 0
  totalBytesSent := 0
  sendDataConnection := none
  waitForWrapper := false
  lastOperationStatus := true
  wifiIsConnected := true
  wifiHasIP := true
  result := .ok
  connectionData := fun _ => 0
  usartBuffer := bufferInit 1024
  tmpBuffer := bufferInit 512
  sent := []
  log := []

theorem connectedEsp_ready : Ready connectedEsp where
  idle := rfl
  usart_valid := bufferInit_valid (by decide) (by decide)
  usart_size := rfl
  usart_delimiter := rfl
  usart_empty := bufferInit_contents
  tmp_valid := bufferInit_valid (by decide) (by decide)
  tmp_size := rfl
  tmp_delimiter := rfl
  tmp_empty := bufferInit_contents
  inIPD := rfl
  wrapper := rfl

/-- Ended by a line feed that is the only one, and short enough for one `BUFFER_ReadString`. -/
def IsLine (l : List UInt8) : Prop := ∃ body, l = body ++ [0x0a] ∧ 0x0a ∉ body ∧ l.length < receivedSize

theorem short_of_no_lineFeed {a future : List UInt8} {ls : List (List UInt8)} (h : a ++ future = ls.flatten)
    (hls : ∀ l ∈ ls, IsLine l) (ha : 0x0a ∉ a) : a.length < receivedSize := by
  cases ls with
  | nil =>
    have : a = [] := (List.append_eq_nil_iff.mp h).1
    simp [this, receivedSize]
  | cons l ls =>
    obtain ⟨body, rfl, hb, hlen⟩ := hls _ List.mem_cons_self
    refine Nat.lt_of_le_of_lt ?_ hlen
    by_contra hlong
    rw [List.flatten_cons] at h
    obtain ⟨d, rfl, -⟩ : ∃ d, a = body ++ [0x0a] ++ d ∧ d ++ future = ls.flatten := by
      rcases List.append_eq_append_iff.mp h with ⟨x, hx, -⟩ | ⟨d, hd, hc⟩
      · have := congrArg List.length hx
        simp only [List.length_append] at this hlong
        obtain rfl : x = [] := List.eq_nil_of_length_eq_zero (by omega)
        exact ⟨[], by simpa using hx.symm, by simp_all⟩
      · exact ⟨d, hd, hc.symm⟩
    exact ha (by simp)

theorem lineOf_line {body rest : List UInt8} {n : ℕ} (hb : 0x0a ∉ body) (hn : body.length < n) :
    lineOf 0x0a n (body ++ 0x0a :: rest) = body ++ [0x0a] := by
  induction body generalizing n with
  | nil =>
    obtain ⟨n, rfl⟩ : ∃ m, n = m + 1 := ⟨n - 1, by omega⟩
    simp [lineOf]
  | cons x body ih =>
    obtain ⟨n, rfl⟩ : ∃ m, n = m + 1 := ⟨n - 1, by omega⟩
    have hx : x ≠ 0x0a := fun h => hb (h ▸ List.mem_cons_self)
    have := ih (fun h => hb (List.mem_cons_of_mem _ h)) (Nat.lt_of_succ_lt_succ hn)
    simp [lineOf, hx, this]

theorem IsLine.prefix_of_mem {l a b c : List UInt8} (hl : IsLine l) (h : a ++ b = l ++ c)
    (ha : 0x0a ∈ a) : ∃ d, a = l ++ d ∧ d ++ b = c := by
  obtain ⟨body, rfl, hb, -⟩ := hl
  rcases List.append_eq_append_iff.mp h with ⟨x, hx, hb'⟩ | ⟨d, hd, hc⟩
  · -- the line feed lies in a part of the body, or `a` is the whole line
    rcases List.eq_nil_or_concat x with rfl | ⟨x, y, rfl⟩
    · exact ⟨[], by simpa using hx.symm, by simpa using hb'⟩
    · rw [List.concat_eq_append, ← List.append_assoc] at hx
      obtain ⟨hbody, -⟩ := List.append_inj' hx rfl
      exact absurd (hbody ▸ List.mem_append_left x ha) hb
  · exact ⟨d, hd, hc.symm⟩

theorem readString_line {b : Buffer} (h : b.Valid) (hd : b.stringDelimiter = 0x0a) {l rest : List UInt8}
    (hl : IsLine l) (hc : b.contents = l ++ rest) :
    (bufferReadString b receivedSize).2 = l ∧ (bufferReadString b receivedSize).1.Valid ∧
      (bufferReadString b receivedSize).1.size = b.size ∧
      (bufferReadString b receivedSize).1.stringDelimiter = 0x0a ∧
      (bufferReadString b receivedSize).1.contents = rest := by
  obtain ⟨body, rfl, hb, hlen⟩ := hl
  have hmem : b.stringDelimiter ∈ b.contents := by
    rw [hd, hc]
    simp
  obtain ⟨h1, h2, h3, h4, h5⟩ := bufferReadString_line h (List.ne_nil_of_mem hmem) (.inl hmem)
  have hline : lineOf b.stringDelimiter (receivedSize - 1) b.contents = body ++ [0x0a] := by
    rw [hd, hc, List.append_assoc]
    refine lineOf_line hb ?_
    simp only [List.length_append, List.length_singleton] at hlen
    omega
  rw [hline] at h1 h5
  refine ⟨h1, h2, h3, h4.trans hd, ?_⟩
  rw [h5, hc, List.drop_left]

theorem readString_partial {b : Buffer} (h : b.Valid) (hd : b.stringDelimiter = 0x0a)
    (hsize : receivedSize < b.size) (hc : 0x0a ∉ b.contents) (hlen : b.contents.length < receivedSize) :
    bufferReadString b receivedSize = (b, []) := by
  refine bufferReadString_none h (by rwa [hd]) hlen (by omega)

section callbacks

theorem callConnectionCallbacks_induction {P : Esp8266 → Prop} (e : Esp8266) (h : P e)
    (step : ∀ (e : Esp8266) (n : Fin 5) (ev : Event), P e →
      (ev = .clientConnectionDataReceived n (e.packet n) ∨ ev = .serverConnectionDataReceived n (e.packet n)) →
      P ((e.setConnection n fun conn => { conn with callDataReceived := false }).call ev)) :
    P (callConnectionCallbacks e) := by
  have one : ∀ (e : Esp8266) (n : Fin 5), P e → P (callConnectionCallback e n) := by
    intro e n he
    simp only [callConnectionCallback]
    have hp : (e.setConnection n fun conn => { conn with callDataReceived := false }).packet n =
        e.packet n := by
      simp [Esp8266.packet, Esp8266.setConnection]
    split
    · split
      · exact he
      · rw [hp]
        split
        · exact step e n _ he (.inl rfl)
        · exact step e n _ he (.inr rfl)
    · exact he
  have all : ∀ (l : List (Fin 5)) (e : Esp8266), P e → P (l.foldl callConnectionCallback e) := by
    intro l
    induction l with
    | nil => exact fun e he => he
    | cons n l ih => exact fun e he => ih _ (one e n he)
  exact all _ e h

end callbacks

end Lpc1788Libraries.WiFi

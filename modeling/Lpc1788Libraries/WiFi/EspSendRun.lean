import Lpc1788Libraries.WiFi.EspPacket
import Lpc1788Libraries.WiFi.EspSend
import Mathlib.Logic.Relation
import Mathlib.Tactic.MkIffOfInductiveProp

namespace Lpc1788Libraries.WiFi

open Lpc1788Libraries.Support BoundedProgram BoundedProgram.Prog

variable {p : Platform} {e e' e₁ : Esp8266} {n : Fin 5} {received : List UInt8} {b : Bool} {ev : Event}

/-- The number of bytes that a line `+IPD,` tells of. -/
def ipdSize (received : List UInt8) : ℕ := ((parseNumber (received.drop 7)).1 % 0x100000000).toNat

/-- A line that `ParseReceived` can take: no `OK` before the `> ` of a send, `SEND OK` alone in its line,
and the connections and sizes that it has room for. -/
@[mk_iff] structure Proper (e : Esp8266) (received : List UInt8) : Prop where
  ok : strEq received "OK\r\n" = true → e.activeCommand ≠ .send
  sendOk : strContains received "SEND OK\r\n" = true → strEq received "SEND OK\r\n" = true
  connect : endsWith received ",CONNECT\r\n" = true → (connectionOf (byteBefore received 10)).isSome = true
  closed : endsWith received ",CLOSED\r\n" = true → (connectionOf (byteBefore received 9)).isSome = true
  connectFail : strContains (received.drop (received.length - 15)) ",CONNECT FAIL\r\n" = true →
    (connectionOf (byteBefore received 15)).isSome = true
  ipd : strStarts received "+IPD," = true → (connectionOf (received.getD 5 0)).isSome = true ∧ 0x3a ∈ received ∧
    ipdSize received ≤ connectionBufferSize

/-- What most parts of `ParseReceived` leave alone; they can end a command, but they start none. -/
structure Keeps (e e' : Esp8266) : Prop where
  usart : e'.usartBuffer = e.usartBuffer
  tmp : e'.tmpBuffer = e.tmpBuffer
  ipd : e'.ipd = e.ipd
  bytes : ∀ n, (e'.connection n).bytesReceived ≤ (e.connection n).bytesReceived
  sendTo : e'.sendDataConnection = e.sendDataConnection
  wrapper : e'.waitForWrapper = true → e.waitForWrapper = true
  command : e'.activeCommand = e.activeCommand ∨ e'.activeCommand = .idle
  alone : e'.log.any garbled = e.log.any garbled

section keeps

theorem Keeps.refl (e : Esp8266) : Keeps e e := ⟨rfl, rfl, rfl, fun _ => Nat.le_refl _, rfl, id, .inl rfl, rfl⟩

theorem Keeps.trans {e₂ : Esp8266} (h : Keeps e e₁) (h' : Keeps e₁ e₂) : Keeps e e₂ := by
  refine ⟨h'.usart.trans h.usart, h'.tmp.trans h.tmp, h'.ipd.trans h.ipd, fun n => (h'.bytes n).trans (h.bytes n),
    h'.sendTo.trans h.sendTo, fun hw => h.wrapper (h'.wrapper hw), ?_, h'.alone.trans h.alone⟩
  rcases h'.command with hc | hc
  · rw [hc]
    exact h.command
  · exact .inr hc

theorem keeps_call (hg : garbled ev = false) : Keeps e (e.call ev) :=
  { Keeps.refl e with alone := by simp [Esp8266.call, hg] }

theorem keeps_setConnection {f : Connection → Connection} (hf : ∀ conn, (f conn).bytesReceived = conn.bytesReceived) :
    Keeps e (e.setConnection n f) := by
  refine { Keeps.refl e with bytes := fun m => ?_ }
  by_cases hm : m = n
  · subst hm
    simp [Esp8266.setConnection, hf]
  · simp [Esp8266.setConnection, hm]

theorem keeps_resetConnection : Keeps e (e.resetConnection n) := keeps_setConnection fun _ => rfl

theorem keeps_ite {c : Prop} [Decidable c] {e₂ : Esp8266} (h₁ : Keeps e e₁) (h₂ : Keeps e e₂) :
    Keeps e (if c then e₁ else e₂) := by
  split
  · exact h₁
  · exact h₂

theorem keeps_idle : Keeps e { e with activeCommand := .idle } := { Keeps.refl e with command := .inr rfl }

theorem keeps_callbacks : Keeps e (callConnectionCallbacks e) := by
  refine callConnectionCallbacks_induction (P := Keeps e) e (Keeps.refl e) ?_
  intro e₁ m ev he hev
  have hg : garbled ev = false := by rcases hev with rfl | rfl <;> rfl
  refine he.trans (Keeps.trans (keeps_setConnection ?_) (keeps_call hg))
  exact fun _ => rfl

theorem keeps_parseReady : Keeps e (parseReady e received) := by
  have hready : Keeps e (if strEq received "ready\r\n" then e.call .deviceReady else e) :=
    keeps_ite (keeps_call rfl) (Keeps.refl e)
  exact keeps_ite (hready.trans (keeps_call rfl)) hready

theorem keeps_parseWifi : Keeps e (parseWifi e received) := by
  apply keeps_ite
  · exact { Keeps.refl e with }
  apply keeps_ite
  · exact { Keeps.refl e with bytes := fun _ => Nat.zero_le _ }
  apply keeps_ite
  · exact { Keeps.refl e with }
  · exact keeps_ite (keeps_call rfl) (Keeps.refl e)

theorem keeps_dataSentCallback : Keeps e (dataSentCallback e n) := by
  apply keeps_ite ?_ (Keeps.refl e)
  have hset : Keeps e (e.setConnection n fun conn => { conn with waitingSentRespond := false }) :=
    keeps_setConnection fun _ => rfl
  exact keeps_ite (hset.trans (keeps_call rfl)) (hset.trans (keeps_call rfl))

theorem keeps_parseSendOk : Keeps e (parseSendOk e received) := by
  have all : ∀ (l : List (Fin 5)) (e : Esp8266), Keeps e (l.foldl dataSentCallback e) := by
    intro l
    induction l with
    | nil => exact Keeps.refl
    | cons n l ih => exact fun e => keeps_dataSentCallback.trans (ih _)
  exact keeps_ite (keeps_idle.trans (all _ _)) (Keeps.refl e)

theorem keeps_connectionMade {x : UInt8} : Keeps e (connectionMade e x n) := by
  have hset : Keeps e (e.setConnection n fun conn => { conn with active := true, number := char2Num x }) :=
    keeps_setConnection fun _ => rfl
  apply keeps_ite
  · exact (hset.trans (keeps_ite keeps_idle (Keeps.refl _))).trans (keeps_call rfl)
  · exact hset.trans (keeps_call rfl)

theorem keeps_connectionClosed : Keeps e (connectionClosed e n) := by
  have hreset : Keeps e (e.resetConnection n) := keeps_resetConnection
  apply keeps_ite ?_ hreset
  exact keeps_ite (hreset.trans (keeps_call rfl)) (hreset.trans (keeps_call rfl))

theorem keeps_connectionFailed {x : UInt8} : Keeps e (connectionFailed e x n) := by
  have hset : Keeps e ((e.resetConnection n).setConnection n fun conn => { conn with number := char2Num x }) := by
    refine keeps_resetConnection.trans (keeps_setConnection ?_)
    exact fun _ => rfl
  apply keeps_ite ?_ hset
  exact (hset.trans (keeps_ite keeps_idle (Keeps.refl _))).trans (keeps_call rfl)

theorem keeps_parseStatus : Keeps e (parseStatus e received) := by
  have hok : Keeps e (if strEq received "OK\r\n" then { e with
      lastOperationStatus := true
      activeCommand := if e.activeCommand = .send ∨ e.activeCommand = .senddata then e.activeCommand else .idle }
      else e) := by
    refine keeps_ite { Keeps.refl e with command := ?_ } (Keeps.refl e)
    by_cases hc : e.activeCommand = .send ∨ e.activeCommand = .senddata
    · exact .inl (if_pos hc)
    · exact .inr (if_neg hc)
  have hfailed : ∀ {e₁ : Esp8266} {c : Prop} [Decidable c], Keeps e e₁ →
      Keeps e (if c then { e₁ with lastOperationStatus := false, activeCommand := .idle } else e₁) :=
    fun h => keeps_ite (h.trans { Keeps.refl _ with command := .inr rfl }) h
  refine keeps_ite ?_ (hfailed hok)
  exact (hfailed hok).trans { Keeps.refl _ with wrapper := fun h => Bool.noConfusion h, command := .inr rfl }

end keeps

/-- The library between the commands that these runs start. -/
structure Sound (e : Esp8266) : Prop where
  usart_valid : e.usartBuffer.Valid
  usart_size : receivedSize < e.usartBuffer.size
  tmp_valid : e.tmpBuffer.Valid
  tmp_size : receivedSize < e.tmpBuffer.size
  command : e.activeCommand = .idle ∨ e.activeCommand = .send ∨ e.activeCommand = .senddata ∨ e.activeCommand = .cipstart
  wrapper : e.waitForWrapper = true → ∃ n, e.sendDataConnection = some n
  ipd : e.ipd.inIPD = true → ∃ h : e.ipd.connNumber.toNat < 5,
    (e.connection ⟨e.ipd.connNumber.toNat, h⟩).bytesReceived ≤ connectionBufferSize
  alone : e.log.any garbled = false

theorem Sound.keeps (h : Sound e) (hk : Keeps e e') : Sound e' := by
  refine ⟨hk.usart ▸ h.usart_valid, hk.usart ▸ h.usart_size, hk.tmp ▸ h.tmp_valid, hk.tmp ▸ h.tmp_size, ?_, fun hw => ?_, ?_, hk.alone.trans h.alone⟩
  · rcases hk.command with hc | hc
    · rw [hc]
      exact h.command
    · exact .inl hc
  · rw [hk.sendTo]
    exact h.wrapper (hk.wrapper hw)
  · rw [hk.ipd]
    intro hi
    obtain ⟨hlt, hbytes⟩ := h.ipd hi
    exact ⟨hlt, (hk.bytes _).trans hbytes⟩

section parsing

theorem parseConnection_keeps (hv : e.tmpBuffer.Valid) (hp : Proper e₁ received) :
    ∃ t e', parseConnection e received = some e' ∧ Keeps { e with tmpBuffer := t } e' ∧ t.Valid ∧ t.size = e.tmpBuffer.size ∧
      (t = e.tmpBuffer ∨ t.contents.length < e.tmpBuffer.contents.length + received.length) := by
  have same : ∀ e', Keeps e e' → Keeps { e with tmpBuffer := e.tmpBuffer } e' := fun _ h => h
  unfold parseConnection
  by_cases hconnect : endsWith received ",CONNECT\r\n" = true
  · obtain ⟨n, hn⟩ := Option.isSome_iff_exists.mp (hp.connect hconnect)
    rw [if_pos hconnect, hn]
    exact ⟨_, _, rfl, same _ keeps_connectionMade, hv, rfl, .inl rfl⟩
  rw [if_neg hconnect]
  by_cases halready : strContains received "ALREADY CONNECTED\r\n" = true
  · rw [if_pos halready]
    exact ⟨_, _, rfl, same _ (Keeps.refl e), hv, rfl, .inl rfl⟩
  rw [if_neg halready]
  by_cases hclosed : endsWith received ",CLOSED\r\n" = true
  · rw [if_pos hclosed]
    by_cases hlen : received.length = 10
    · obtain ⟨n, hn⟩ := Option.isSome_iff_exists.mp (hp.closed hclosed)
      rw [if_pos hlen, hn]
      exact ⟨_, _, rfl, same _ keeps_connectionClosed, hv, rfl, .inl rfl⟩
    · rw [if_neg hlen]
      refine ⟨_, _, rfl, Keeps.refl _, bufferWrite_valid hv, bufferWrite_size hv, .inr ?_⟩
      have hlong : 9 < received.length := by
        simp only [endsWith, Bool.and_eq_true, decide_eq_true_eq] at hclosed
        exact hclosed.1
      rw [bufferWrite_contents hv, List.length_append, List.length_take, List.length_drop]
      omega
  rw [if_neg hclosed]
  split
  · rename_i hfail
    rw [Bool.and_eq_true] at hfail
    obtain ⟨n, hn⟩ := Option.isSome_iff_exists.mp (hp.connectFail hfail.2)
    rw [hn]
    exact ⟨_, _, rfl, same _ keeps_connectionFailed, hv, rfl, .inl rfl⟩
  · exact ⟨_, _, rfl, same _ (Keeps.refl e), hv, rfl, .inl rfl⟩

theorem parseIpd_sound (h : Sound e) (hp : Proper e₁ received) :
    ∃ e', parseIpd e received b = some e' ∧ Sound e' ∧ e'.usartBuffer = e.usartBuffer ∧ e'.tmpBuffer = e.tmpBuffer ∧
      e'.activeCommand = e.activeCommand := by
  unfold parseIpd
  by_cases hipd : strStarts received "+IPD," = true
  · obtain ⟨hconn, hcolon, hsize⟩ := hp.ipd hipd
    obtain ⟨n, hn⟩ := Option.isSome_iff_exists.mp hconn
    obtain ⟨colon, hc⟩ : ∃ colon, received.findIdx? (· = 0x3a) = some colon := by
      apply Option.isSome_iff_exists.mp
      rw [List.findIdx?_isSome, List.any_eq_true]
      exact ⟨_, hcolon, by simp⟩
    rw [if_pos hipd, hn]
    simp only [hc]
    refine ⟨_, rfl, ⟨h.usart_valid, h.usart_size, h.tmp_valid, h.tmp_size, h.command, h.wrapper, ?_, h.alone⟩, rfl, rfl, rfl⟩
    intro _
    unfold connectionOf at hn
    split at hn
    · rename_i hlt
      obtain rfl := Option.some.inj hn
      refine ⟨hlt, ?_⟩
      simp only [Esp8266.setConnection, Function.update_self]
      exact hsize
    · cases hn
  · rw [if_neg hipd]
    exact ⟨e, rfl, h, rfl, rfl, rfl⟩

theorem parseCommand_keeps (h : Sound e) (hok : strEq received "OK\r\n" = true → e.activeCommand ≠ .send) :
    ∃ e', parseCommand p e received = some e' ∧ Keeps e e' := by
  rcases h.command with hc | hc | hc | hc
  · exact ⟨e, by simp [parseCommand, hc], Keeps.refl e⟩
  · have hno : strEq received "OK\r\n" = false := by
      by_contra hyes
      exact hok (by simpa using hyes) hc
    exact ⟨e, by simp [parseCommand, hc, hno], Keeps.refl e⟩
  · exact ⟨e, by simp [parseCommand, hc], Keeps.refl e⟩
  · have hidle : Keeps e (if strEq received "OK\r\n" then { e with activeCommand := .idle } else e) :=
      keeps_ite keeps_idle (Keeps.refl e)
    refine ⟨_, by simp only [parseCommand, hc]; rfl, keeps_ite ?_ hidle⟩
    exact ((hidle.trans keeps_idle).trans keeps_resetConnection).trans (keeps_call rfl)

theorem parseReceived_sound (h : Sound e) (hp : Proper e received) (hne : received ≠ []) :
    ∃ e', parseReceived p e received b = some e' ∧ Sound e' ∧ e'.usartBuffer = e.usartBuffer ∧
      (b = false → e'.tmpBuffer.contents.length < e.tmpBuffer.contents.length + received.length) := by
  have hpos := List.length_pos_of_ne_nil hne
  have hnote : Keeps e (noteReceived e received b) := by
    have hg : garbled (.parseReceived received b) = false := by
      by_cases hs : strContains received "SEND OK\r\n" = true
      · simp [garbled, hp.sendOk hs]
      · simp [garbled, hs]
    have htime : Keeps e { e with lastReceivedTime := e.time } := { Keeps.refl e with }
    exact htime.trans (keeps_call hg)
  unfold parseReceived
  simp only
  split
  · exact ⟨_, rfl, h.keeps hnote, rfl, fun _ => Nat.lt_add_of_pos_right hpos⟩
  split
  · rename_i hwait
    refine ⟨_, rfl, ?_, rfl, fun hb => ?_⟩
    · exact { h.keeps hnote with
        tmp_valid := bufferWrite_valid h.tmp_valid
        tmp_size := (bufferWrite_size h.tmp_valid).symm ▸ h.tmp_size }
    · simp [hasToWait, hb] at hwait
  · obtain ⟨e₁, he₁⟩ : ∃ e₁, e₁ = parseSendOk (parseWifi (callConnectionCallbacks (parseReady (noteReceived e received b)
        received)) received) received := ⟨_, rfl⟩
    have hk₁ : Keeps e e₁ := by
      rw [he₁]
      exact (((hnote.trans keeps_parseReady).trans keeps_callbacks).trans keeps_parseWifi).trans keeps_parseSendOk
    have h₁ := h.keeps hk₁
    obtain ⟨t, e₂, hr₂, hk₂, ht, hts, hlen⟩ := parseConnection_keeps (e := e₁) h₁.tmp_valid hp
    have h₁' : Sound { e₁ with tmpBuffer := t } := { h₁ with tmp_valid := ht, tmp_size := hts ▸ h₁.tmp_size }
    obtain ⟨e₃, hr₃, h₃, husart₃, htmp₃, hcmd₃⟩ := parseIpd_sound (b := b) (h₁'.keeps hk₂) hp
    have hok : strEq received "OK\r\n" = true → e₃.activeCommand ≠ .send := by
      intro hline hc
      rw [hcmd₃] at hc
      have hc₁ : e₁.activeCommand = .send := by
        rcases hk₂.command with hc₂ | hc₂
        · exact hc₂.symm.trans hc
        · rw [hc₂] at hc
          cases hc
      rcases hk₁.command with hc' | hc'
      · exact hp.ok hline (hc'.symm.trans hc₁)
      · rw [hc'] at hc₁
        cases hc₁
    obtain ⟨e₄, hr₄, hk₄⟩ := parseCommand_keeps (p := p) h₃ hok
    have hk₅ : Keeps e₃ (parseStatus e₄ received) := hk₄.trans keeps_parseStatus
    refine ⟨parseStatus e₄ received, ?_, h₃.keeps hk₅, ?_, fun _ => ?_⟩
    · simp only [parseLine, ← he₁, hr₂, hr₃, hr₄, Option.bind_some, Option.map_some]
    · exact hk₅.usart.trans (husart₃.trans (hk₂.usart.trans hk₁.usart))
    · have htmp : (parseStatus e₄ received).tmpBuffer = t := hk₅.tmp.trans (htmp₃.trans hk₂.tmp)
      have htmp₁ : e₁.tmpBuffer = e.tmpBuffer := hk₁.tmp
      rw [htmp]
      rcases hlen with rfl | hlen
      · rw [htmp₁]
        exact Nat.lt_add_of_pos_right hpos
      · rwa [htmp₁] at hlen

end parsing

theorem bufferFind_returns (buf : Buffer) (data : List UInt8) (size : ℕ)
    (hdata : (data.take size).drop 1 = [] ∨ size = 2 ∧ ∃ x, (data.take size).drop 1 = [x]) :
    ∃ r, (bufferFind buf data size).Returns e r e := by
  unfold bufferFind
  split
  · exact ⟨_, returns_pure.mpr ⟨rfl, rfl⟩⟩
  have step : ∀ k (x : ℕ × ℕ × ℕ × Bool) s, (x.1 = k ∧ s = e) →
      (∃ r t, (bufferFindRound buf data size x).Returns s (.inr r) t ∧ t = e) ∨
        ∃ y t, (bufferFindRound buf data size x).Returns s (.inl y) t ∧ ∃ l < k, y.1 = l ∧ t = e := by
    rintro k ⟨num, out, retval, found⟩ s ⟨rfl, rfl⟩
    unfold bufferFindRound
    by_cases h0 : num = 0
    · exact .inl ⟨_, _, by simp only [h0, if_true]; exact returns_pure.mpr ⟨rfl, rfl⟩, rfl⟩
    simp only [h0, if_false]
    generalize (if buf.size ≤ out then 0 else out) = out
    have hlt : num - 1 < num := by omega
    split
    · split
      · exact .inl ⟨_, _, returns_pure.mpr ⟨rfl, rfl⟩, rfl⟩
      · rename_i hfail
        refine .inr ⟨_, _, returns_pure.mpr ⟨rfl, rfl⟩, _, ?_, rfl, rfl⟩
        rcases hdata with hnil | ⟨rfl, x, hx⟩
        · rw [hnil]
          exact hlt
        · rw [hx] at hfail ⊢
          simp only [findRest] at hfail ⊢
          generalize (if buf.size ≤ out + 1 then 0 else out + 1) = next at hfail ⊢
          by_cases hsame : buf.mem next = x
          · simp [hsame] at hfail
          · simpa [hsame] using hlt
    · exact .inr ⟨_, _, returns_pure.mpr ⟨rfl, rfl⟩, _, hlt, rfl, rfl⟩
  obtain ⟨r, t, hr, ht⟩ := loop_total (I := fun k (x : ℕ × ℕ × ℕ × Bool) s => x.1 = k ∧ s = e) (Q := fun _ t => t = e) step ⟨rfl, rfl⟩
  rw [ht] at hr
  exact ⟨r, hr⟩

theorem readString_shorter {buf : Buffer} (hv : buf.Valid) (hs : receivedSize < buf.size) :
    (bufferReadString buf receivedSize).1.Valid ∧ (bufferReadString buf receivedSize).1.size = buf.size ∧
    (bufferReadString buf receivedSize).1.contents.length + (bufferReadString buf receivedSize).2.length =
      buf.contents.length := by
  have hfree := free_add_full hv
  have hlen := length_contents (b := buf)
  by_cases hguard : bufferGetFull buf = 0 ∨ (bufferFindElement buf buf.stringDelimiter = none ∧ bufferGetFree buf ≠ 0 ∧
      bufferGetFull buf < receivedSize)
  · have hempty : bufferReadString buf receivedSize = (buf, []) := if_pos hguard
    rw [hempty]
    exact ⟨hv, rfl, rfl⟩
  · simp only [not_or, not_and, not_lt] at hguard
    obtain ⟨hfull, hfind⟩ := hguard
    have hne : buf.contents ≠ [] := List.ne_nil_of_length_pos (by omega)
    have hl : buf.stringDelimiter ∈ buf.contents ∨ receivedSize ≤ buf.contents.length := by
      rw [bufferFindElement_eq hv, List.idxOf?_eq_none_iff] at hfind
      by_cases hmem : buf.stringDelimiter ∈ buf.contents
      · exact .inl hmem
      · by_cases h0 : bufferGetFree buf = 0
        · exact .inr (by omega)
        · exact .inr (by rw [hlen]; exact hfind hmem h0)
    obtain ⟨hline, hvalid, hsize, -, hrest⟩ := bufferReadString_line hv hne hl
    refine ⟨hvalid, hsize, ?_⟩
    rw [hline, hrest, List.length_drop]
    have := (length_lineOf_le (l := buf.contents) (d := buf.stringDelimiter) (k := receivedSize - 1)).2
    omega

section update

/-- The states in which a loop of `ESP8266_Update` stands in front of a round. -/
def Heads (round : Unit → EspM (Unit ⊕ Unit)) : Esp8266 → Esp8266 → Prop :=
  Relation.ReflTransGen fun e e' => (round ()).Returns e (.inl ()) e'

/-- `ESP8266_Update` up to its first loop. -/
def beforeLines (p : Platform) : EspM Unit := do
  setEsp checkTimeout
  checkWrapper p
  checkUart

def usartLine (e : Esp8266) : List UInt8 := (bufferReadString e.usartBuffer receivedSize).2

def tmpLine (e : Esp8266) : List UInt8 := (bufferReadString e.tmpBuffer receivedSize).2

/-- The update of `e` comes to a state in which it gives this line to `ParseReceived`. -/
inductive Parses (p : Platform) (e : Esp8266) : Esp8266 → List UInt8 → Prop
  | usart {e₀ e₁ : Esp8266} (h₀ : (beforeLines p).Returns e () e₀) (h₁ : Heads (usartRound p) e₀ e₁)
      (hipd : e₁.ipd.inIPD = false) (hne : usartLine e₁ ≠ []) : Parses p e e₁ (usartLine e₁)
  | tmp {e₀ e₁ e₂ : Esp8266} (h₀ : (beforeLines p).Returns e () e₀) (h₁ : (loop (usartRound p) ()).Returns e₀ () e₁)
      (h₂ : Heads (tmpRound p) e₁ e₂) (hipd : e₂.ipd.inIPD = false) (hidle : e₂.activeCommand = .idle)
      (hne : tmpLine e₂ ≠ []) : Parses p e e₂ (tmpLine e₂)

theorem keeps_checkTimeout : Keeps e (checkTimeout e) := by
  have hzero : Keeps e (if e.timeout = 0 then { e with timeout := 30000 } else e) :=
    keeps_ite { Keeps.refl e with } (Keeps.refl e)
  apply keeps_ite ?_ hzero
  apply keeps_ite
  · exact ((hzero.trans keeps_idle).trans keeps_resetConnection).trans (keeps_call rfl)
  · exact hzero.trans keeps_idle

theorem processSendData_sound (h : Sound e) (hn : e.sendDataConnection = some n) :
    ∃ e', (Prog.attempt fun e => (processSendData p e).map ((), ·) : EspM Unit).Returns e () e' ∧ Sound e' := by
  simp only [returns_attempt, processSendData, hn, Option.map_some]
  refine ⟨_, rfl, Sound.keeps ?_ (keeps_setConnection ?_)⟩
  · have hcall : Keeps e (e.call (if (e.connection n).client then .clientConnectionSendData n
        else .serverConnectionSendData n)) := keeps_call (by split <;> rfl)
    exact { h.keeps hcall with
      command := .inr (.inr (.inl rfl))
      wrapper := fun hw => Bool.noConfusion hw }
  · exact fun _ => rfl

theorem checkWrapper_sound (h : Sound e) : ∃ e', (checkWrapper p).Returns e () e' ∧ Sound e' := by
  unfold checkWrapper
  simp only [getEsp, get_bind_returns]
  by_cases hw : e.waitForWrapper = true
  · simp only [hw, if_true]
    obtain ⟨n, hn⟩ := h.wrapper hw
    obtain ⟨found, hfound⟩ := bufferFind_returns (e := e) e.usartBuffer (ascii "> ") 2
      (.inr ⟨rfl, 0x20, by decide⟩)
    obtain ⟨found', hfound'⟩ := bufferFind_returns (e := e) e.tmpBuffer (ascii "> ") 0
      (.inl (by decide))
    cases found with
    | some k =>
      by_cases h0 : k = 0
      · subst h0
        have h₁ : Sound { e with usartBuffer := (bufferRead e.usartBuffer 2).1 } := { h with
          usart_valid := bufferRead_valid h.usart_valid
          usart_size := (bufferRead_size h.usart_valid).symm ▸ h.usart_size }
        obtain ⟨e', hr, h'⟩ := processSendData_sound (p := p) h₁ hn
        exact ⟨e', hfound.bind (by simpa [setEsp] using hr), h'⟩
      · obtain ⟨e', hr, h'⟩ := processSendData_sound (p := p) h hn
        exact ⟨e', hfound.bind (by simpa [h0] using hr), h'⟩
    | none =>
      cases found' with
      | some k =>
        by_cases h0 : k = 0
        · subst h0
          have h₁ : Sound { e with tmpBuffer := (bufferRead e.tmpBuffer 2).1 } := { h with
            tmp_valid := bufferRead_valid h.tmp_valid
            tmp_size := (bufferRead_size h.tmp_valid).symm ▸ h.tmp_size }
          obtain ⟨e', hr, h'⟩ := processSendData_sound (p := p) h₁ hn
          exact ⟨e', hfound.bind (hfound'.bind (by simpa [setEsp] using hr)), h'⟩
        · obtain ⟨e', hr, h'⟩ := processSendData_sound (p := p) h hn
          exact ⟨e', hfound.bind (hfound'.bind (by simpa [h0] using hr)), h'⟩
      | none => exact ⟨e, hfound.bind (hfound'.bind (returns_pure.mpr ⟨rfl, rfl⟩)), h⟩
  · simp only [hw, Bool.false_eq_true, if_false]
    exact ⟨e, returns_pure.mpr ⟨rfl, rfl⟩, h⟩

theorem beforeLines_sound (h : Sound e) : ∃ e', (beforeLines p).Returns e () e' ∧ Sound e' := by
  obtain ⟨e₁, hr, h₁⟩ := checkWrapper_sound (p := p) (h.keeps keeps_checkTimeout)
  have hcmd : e₁.activeCommand ≠ .uart := by
    rcases h₁.command with hc | hc | hc | hc <;> simp [hc]
  have huart : checkUart.Returns e₁ () e₁ := by
    simp [checkUart, getEsp, hcmd]
  refine ⟨e₁, ?_, h₁⟩
  simp only [beforeLines, setEsp, modify_bind_returns]
  exact hr.bind huart

theorem usartLoop_sound (h : Sound e) (hlines : ∀ e₁, Heads (usartRound p) e e₁ → e₁.ipd.inIPD = false →
    usartLine e₁ ≠ [] → Proper e₁ (usartLine e₁)) : ∃ e', (loop (usartRound p) ()).Returns e () e' ∧ Sound e' := by
  let I : ℕ → Unit → Esp8266 → Prop := fun k _ e₁ => Heads (usartRound p) e e₁ ∧ Sound e₁ ∧ e₁.usartBuffer.contents.length = k
  have step : ∀ k x e₁, I k x e₁ → (∃ a t, (usartRound p x).Returns e₁ (.inr a) t ∧ Sound t) ∨
      ∃ y t, (usartRound p x).Returns e₁ (.inl y) t ∧ ∃ l < k, I l y t := by
    rintro k ⟨⟩ e₁ ⟨hhead, h₁, rfl⟩
    by_cases hipd : e₁.ipd.inIPD = true
    · exact .inl ⟨(), e₁, by simp [usartRound, returns_attempt, hipd], h₁⟩
    obtain ⟨hv, hs, hlen⟩ := readString_shorter h₁.usart_valid h₁.usart_size
    have h₂ : Sound { e₁ with usartBuffer := (bufferReadString e₁.usartBuffer receivedSize).1 } :=
      { h₁ with usart_valid := hv, usart_size := hs.symm ▸ h₁.usart_size }
    by_cases hne : usartLine e₁ = []
    · refine .inl ⟨(), _, ?_, h₂⟩
      unfold usartLine at hne
      simp only [usartRound, returns_attempt, hipd, hne, Bool.false_eq_true, if_false, if_true]
    · have hp := hlines e₁ hhead (by simpa using hipd) hne
      obtain ⟨e', hr, h', husart, -⟩ := parseReceived_sound (p := p) (b := true) h₂ { hp with } hne
      have hround : (usartRound p ()).Returns e₁ (.inl ()) e' := by
        unfold usartLine at hne hr
        simp only [usartRound, returns_attempt, hipd, hne, hr, Bool.false_eq_true, if_false, Option.map_some]
      refine .inr ⟨(), e', hround, _, ?_, hhead.tail hround, h', rfl⟩
      have hpos := List.length_pos_of_ne_nil hne
      unfold usartLine at hpos
      rw [husart]
      simp only
      omega
  obtain ⟨_, e', hr, h'⟩ := loop_total (Q := fun _ t => Sound t) step (x := ()) ⟨.refl, h, rfl⟩
  exact ⟨e', hr, h'⟩

theorem tmpLoop_sound (h : Sound e) (hlines : ∀ e₁, Heads (tmpRound p) e e₁ → e₁.ipd.inIPD = false →
    e₁.activeCommand = .idle → tmpLine e₁ ≠ [] → Proper e₁ (tmpLine e₁)) :
    ∃ e', (loop (tmpRound p) ()).Returns e () e' ∧ Sound e' := by
  let I : ℕ → Unit → Esp8266 → Prop := fun k _ e₁ => Heads (tmpRound p) e e₁ ∧ Sound e₁ ∧ e₁.tmpBuffer.contents.length = k
  have step : ∀ k x e₁, I k x e₁ → (∃ a t, (tmpRound p x).Returns e₁ (.inr a) t ∧ Sound t) ∨
      ∃ y t, (tmpRound p x).Returns e₁ (.inl y) t ∧ ∃ l < k, I l y t := by
    rintro k ⟨⟩ e₁ ⟨hhead, h₁, rfl⟩
    by_cases hgate : e₁.ipd.inIPD = false ∧ e₁.activeCommand = .idle
    swap
    · refine .inl ⟨(), e₁, ?_, h₁⟩
      have : (e₁.ipd.inIPD || decide (e₁.activeCommand ≠ .idle)) = true := by
        rw [not_and_or] at hgate
        rcases hgate with hgate | hgate <;> simp [hgate]
      simp only [tmpRound, returns_attempt, this, if_true]
    obtain ⟨hipd, hidle⟩ := hgate
    have hopen : (e₁.ipd.inIPD || decide (e₁.activeCommand ≠ .idle)) = false := by simp [hipd, hidle]
    obtain ⟨hv, hs, hlen⟩ := readString_shorter h₁.tmp_valid h₁.tmp_size
    have h₂ : Sound { e₁ with tmpBuffer := (bufferReadString e₁.tmpBuffer receivedSize).1 } :=
      { h₁ with tmp_valid := hv, tmp_size := hs.symm ▸ h₁.tmp_size }
    by_cases hne : tmpLine e₁ = []
    · refine .inl ⟨(), _, ?_, h₂⟩
      unfold tmpLine at hne
      simp only [tmpRound, returns_attempt, hopen, hne, Bool.false_eq_true, if_false, if_true]
    · have hp := hlines e₁ hhead hipd hidle hne
      obtain ⟨e', hr, h', -, hshort⟩ := parseReceived_sound (p := p) (b := false) h₂ { hp with } hne
      have hround : (tmpRound p ()).Returns e₁ (.inl ()) e' := by
        unfold tmpLine at hne hr
        simp only [tmpRound, returns_attempt, hopen, hne, hr, Bool.false_eq_true, if_false, Option.map_some]
      refine .inr ⟨(), e', hround, _, ?_, hhead.tail hround, h', rfl⟩
      exact hlen ▸ hshort rfl
  obtain ⟨_, e', hr, h'⟩ := loop_total (Q := fun _ t => Sound t) step (x := ()) ⟨.refl, h, rfl⟩
  exact ⟨e', hr, h'⟩

theorem setIpdBuffer_sound (h : Sound e) : Sound (e.setIpdBuffer (bufferRead e.ipdBuffer 1).1) := by
  unfold Esp8266.setIpdBuffer Esp8266.ipdBuffer
  split
  · exact { h with
      usart_valid := bufferRead_valid h.usart_valid
      usart_size := (bufferRead_size h.usart_valid).symm ▸ h.usart_size }
  · exact { h with
      tmp_valid := bufferRead_valid h.tmp_valid
      tmp_size := (bufferRead_size h.tmp_valid).symm ▸ h.tmp_size }

theorem setIpdBuffer_facts (e : Esp8266) (buf : Buffer) : (e.setIpdBuffer buf).ipdBuffer = buf ∧
    (e.setIpdBuffer buf).ipd = e.ipd ∧ (e.setIpdBuffer buf).connection = e.connection := by
  unfold Esp8266.setIpdBuffer Esp8266.ipdBuffer
  by_cases hu : e.ipd.usartBuffer = true
  · simp [hu]
  · simp [hu]

theorem updateIpd_sound (h : Sound e) : ∃ e', updateIpd.Returns e () e' ∧ Sound e' := by
  unfold updateIpd
  simp only [getEsp, get_bind_returns]
  by_cases hin : e.ipd.inIPD = true
  swap
  · rw [if_neg hin]
    exact ⟨e, returns_pure.mpr ⟨rfl, rfl⟩, h⟩
  obtain ⟨hlt, hbytes⟩ := h.ipd hin
  rw [if_pos hin, dif_pos hlt]
  let n : Fin 5 := ⟨e.ipd.connNumber.toNat, hlt⟩
  let I : ℕ → Unit → Esp8266 → Prop := fun k _ e₁ => Sound e₁ ∧ (e₁.connection n).bytesReceived ≤ connectionBufferSize ∧
    e₁.ipdBuffer.contents.length = k
  have step : ∀ k x e₁, I k x e₁ → (∃ a t, (ipdRound n x).Returns e₁ (.inr a) t ∧ Sound t) ∨
      ∃ y t, (ipdRound n x).Returns e₁ (.inl y) t ∧ ∃ l < k, I l y t := by
    rintro k ⟨⟩ e₁ ⟨h₁, hb₁, rfl⟩
    by_cases hmore : e₁.ipd.inPtr < (e₁.connection n).bytesReceived ∧ 0 < bufferGetFull e₁.ipdBuffer
    · right
      have hroom : e₁.ipd.inPtr < connectionBufferSize := Nat.lt_of_lt_of_le hmore.1 hb₁
      have hv : e₁.ipdBuffer.Valid := by
        unfold Esp8266.ipdBuffer
        split
        · exact h₁.usart_valid
        · exact h₁.tmp_valid
      obtain ⟨hbuf, hipd, hconn⟩ := setIpdBuffer_facts e₁ (bufferRead e₁.ipdBuffer 1).1
      have h₂ := setIpdBuffer_sound h₁
      refine ⟨(), _, by simp only [ipdRound, returns_attempt, if_pos hmore, if_pos hroom]; rfl, _, ?_, ?_, ?_, rfl⟩
      · have hlen := length_contents (b := e₁.ipdBuffer)
        have hnow : (e₁.setIpdBuffer (bufferRead e₁.ipdBuffer 1).1).ipdBuffer.contents.length < e₁.ipdBuffer.contents.length := by
          rw [hbuf, bufferRead_contents hv, List.length_drop]
          omega
        unfold Esp8266.ipdBuffer at hnow ⊢
        simpa [hipd] using hnow
      · refine { h₂ with ipd := fun hi => ?_ }
        exact h₂.ipd (hipd ▸ hi)
      · rw [← hconn] at hb₁
        exact hb₁
    · exact .inl ⟨(), e₁, by simp only [ipdRound, returns_attempt, if_neg hmore], h₁⟩
  obtain ⟨_, e₁, hr, h₁⟩ := loop_total (Q := fun _ t => Sound t) step (x := ()) ⟨h, hbytes, rfl⟩
  refine ⟨ipdDone e₁ n, hr.bind (by simp [setEsp, n]), ?_⟩
  unfold ipdDone
  split
  · have hout : Sound { e₁ with ipd := { e₁.ipd with inIPD := false } } := { h₁ with ipd := fun hi => Bool.noConfusion hi }
    refine hout.keeps (keeps_setConnection ?_)
    exact fun _ => rfl
  · exact h₁

theorem update_sound (h : Sound e) (hlines : ∀ e₁ l, Parses p e e₁ l → Proper e₁ l) :
    ∃ e', (esp8266Update p).Returns e .ok e' ∧ Sound e' := by
  obtain ⟨e₁, hr₁, h₁⟩ := beforeLines_sound (p := p) h
  obtain ⟨e₂, hr₂, h₂⟩ := usartLoop_sound (p := p) h₁ fun e' hhead hipd hne => hlines _ _ (.usart hr₁ hhead hipd hne)
  obtain ⟨e₃, hr₃, h₃⟩ := tmpLoop_sound (p := p) h₂ fun e' hhead hipd hidle hne =>
    hlines _ _ (.tmp hr₁ hr₂ hhead hipd hidle hne)
  obtain ⟨e₄, hr₄, h₄⟩ := updateIpd_sound h₃
  have hlast : Keeps e₄ { callConnectionCallbacks e₄ with result := .ok } := keeps_callbacks.trans { Keeps.refl _ with }
  refine ⟨_, ?_, h₄.keeps hlast⟩
  have hsplit : esp8266Update p = (do
      beforeLines p
      Prog.loop (usartRound p) ()
      Prog.loop (tmpRound p) ()
      updateIpd
      setEsp fun e => { callConnectionCallbacks e with result := .ok }
      return .ok) := by
    simp only [esp8266Update, beforeLines, bind_assoc]
  rw [hsplit]
  refine hr₁.bind (hr₂.bind (hr₃.bind (hr₄.bind ?_)))
  simp [setEsp]

end update

section uses

/-- The use comes to `ESP8266_Update`. -/
def Updates (e : Esp8266) : EspUse → Prop
  | .call .update => True
  | .call _ => False
  | .requestSendData _ => e.activeCommand ≠ .idle
  | .startClientConnection _ _ _ => e.activeCommand ≠ .idle

/-- Every line that is parsed in the run is proper. -/
def ProperRun (p : Platform) : List EspUse → Esp8266 → Prop
  | [], _ => True
  | use :: uses, e => (Updates e use → ∀ e₁ l, Parses p e e₁ l → Proper e₁ l) ∧
      ∀ e', (espUse p use).Returns e () e' → ProperRun p uses e'

theorem returnWithStatus_sound (status : EspResult) (h : Sound e) :
    ∃ e', (returnWithStatus status).Returns e status e' ∧ Sound e' :=
  ⟨e.withResult status, by simp [returnWithStatus, setEsp], h.keeps { Keeps.refl e with }⟩

theorem sendCommand_sound {command : Command} (h : Sound e) (hidle : e.activeCommand = .idle)
    (hc : command = .send ∨ command = .cipstart) : ∃ e', (sendCommand p command none).Returns e .ok e' ∧ Sound e' := by
  have husart : (e.commandStarted command none).usartBuffer = e.usartBuffer :=
    if_neg (by rcases hc with rfl | rfl <;> decide)
  have hstarted : Sound (e.commandStarted command none) := by
    refine { h with usart_valid := husart ▸ h.usart_valid, usart_size := husart ▸ h.usart_size, command := ?_ }
    rcases hc with rfl | rfl
    · exact .inr (.inl rfl)
    · exact .inr (.inr (.inr rfl))
  obtain ⟨e', hr, h'⟩ := returnWithStatus_sound .ok hstarted
  refine ⟨e', ?_, h'⟩
  simp only [sendCommand, getEsp, setEsp, get_bind_returns, hidle, ne_eq, not_true_eq_false, if_false, modify_bind_returns]
  exact hr

theorem sendText_keeps {text : List UInt8} : Keeps e (e.sendText text) := { Keeps.refl e with }

theorem busy_sound (h : Sound e) (hlines : ∀ e₁ l, Parses p e e₁ l → Proper e₁ l) :
    ∃ e', (do let _ ← esp8266Update p; returnWithStatus .busy : EspM EspResult).Returns e .busy e' ∧ Sound e' := by
  obtain ⟨e₁, hr₁, h₁⟩ := update_sound h hlines
  obtain ⟨e₂, hr₂, h₂⟩ := returnWithStatus_sound .busy h₁
  exact ⟨e₂, hr₁.bind hr₂, h₂⟩

theorem requestSendData_sound (h : Sound e)
    (hlines : e.activeCommand ≠ .idle → ∀ e₁ l, Parses p e e₁ l → Proper e₁ l) :
    ∃ r e', (esp8266RequestSendData p n).Returns e r e' ∧ Sound e' := by
  unfold esp8266RequestSendData
  simp only [getEsp, get_bind_returns]
  by_cases hidle : e.activeCommand = .idle
  · let text := ascii "AT+CIPSENDEX=" ++ [(e.connection n).number + 0x30] ++ ascii ",2048\r\n"
    obtain ⟨e₁, hr, h₁⟩ := sendCommand_sound (p := p) (e := e.sendText text) (h.keeps sendText_keeps) hidle (.inl rfl)
    refine ⟨e₁.result, { e₁ with waitForWrapper := true, sendDataConnection := some n }, ?_, ?_⟩
    · simp only [hidle, ne_eq, not_true_eq_false, if_false, setEsp, modify_bind_returns]
      refine hr.bind ?_
      simp only [not_true_eq_false, if_false, modify_bind_returns, get_bind_returns]
      exact returns_pure.mpr ⟨rfl, rfl⟩
    · exact { h₁ with wrapper := fun _ => ⟨n, rfl⟩ }
  · obtain ⟨e', hr, h'⟩ := busy_sound h (hlines hidle)
    rw [if_pos hidle]
    exact ⟨_, e', hr, h'⟩

theorem startClientConnection_sound {type : ConnectionType} {protocol : String} {location : List UInt8} {port : ℕ}
    (h : Sound e) (hlines : e.activeCommand ≠ .idle → ∀ e₁ l, Parses p e e₁ l → Proper e₁ l) :
    ∃ r e', (startClientConnection p type protocol location port).Returns e r e' ∧ Sound e' := by
  unfold startClientConnection
  simp only [getEsp, get_bind_returns]
  by_cases hidle : e.activeCommand = .idle
  swap
  · obtain ⟨e', hr, h'⟩ := busy_sound h (hlines hidle)
    rw [if_pos hidle]
    exact ⟨_, e', hr, h'⟩
  simp only [hidle, ne_eq, not_true_eq_false, if_false]
  have status : ∀ {st : EspResult}, ∃ r e', (returnWithStatus st).Returns e r e' ∧ Sound e' := by
    intro st
    obtain ⟨e', hr, h'⟩ := returnWithStatus_sound st h
    exact ⟨_, e', hr, h'⟩
  split
  · exact status
  split
  · exact status
  · exact status
  · rename_i m _
    let text := ascii "AT+CIPSTART=" ++ [0x30 + UInt8.ofNat m] ++ ascii protocol ++ location ++ ascii "\"," ++
      ascii (toString port) ++ ascii "\r\n"
    obtain ⟨e₁, hr, h₁⟩ := sendCommand_sound (p := p) (e := e.sendText text) (h.keeps sendText_keeps) hidle (.inr rfl)
    have hstarted : Keeps e₁ (e₁.clientStarted m type) := by
      have hset : Keeps e₁ (e₁.setConnection m fun conn => { conn with
          active := true, client := true, type := type, totalBytesReceived := 0, number := UInt8.ofNat m }) := by
        apply keeps_setConnection
        exact fun _ => rfl
      exact hset.trans { Keeps.refl _ with }
    obtain ⟨e₂, hr₂, h₂⟩ := returnWithStatus_sound .ok (h₁.keeps hstarted)
    refine ⟨.ok, e₂, ?_, h₂⟩
    simp only [setEsp, modify_bind_returns]
    refine hr.bind ?_
    simp only [not_true_eq_false, if_false, modify_bind_returns]
    exact hr₂

theorem espUse_sound {use : EspUse} (h : Sound e) (hlines : Updates e use → ∀ e₁ l, Parses p e e₁ l → Proper e₁ l) :
    ∃ e', (espUse p use).Returns e () e' ∧ Sound e' := by
  cases use with
  | call call =>
    cases call with
    | dataReceived data =>
      refine ⟨esp8266DataReceived e data, by simp [espUse, espCall, setEsp], ?_⟩
      exact { h with
        usart_valid := bufferWrite_valid h.usart_valid
        usart_size := (bufferWrite_size h.usart_valid).symm ▸ h.usart_size }
    | timeUpdate timeIncrease =>
      exact ⟨esp8266TimeUpdate e timeIncrease, by simp [espUse, espCall, setEsp], { h with }⟩
    | update =>
      obtain ⟨e', hr, h'⟩ := update_sound h (hlines trivial)
      exact ⟨e', hr.bind (returns_pure.mpr ⟨rfl, rfl⟩), h'⟩
  | requestSendData n =>
    obtain ⟨r, e', hr, h'⟩ := requestSendData_sound (n := n) h hlines
    exact ⟨e', hr.bind (returns_pure.mpr ⟨rfl, rfl⟩), h'⟩
  | startClientConnection type location port =>
    cases type with
    | tcp =>
      obtain ⟨r, e', hr, h'⟩ := startClientConnection_sound h hlines
      exact ⟨e', hr.bind (returns_pure.mpr ⟨rfl, rfl⟩), h'⟩
    | ssl =>
      obtain ⟨r, e', hr, h'⟩ := startClientConnection_sound h hlines
      exact ⟨e', hr.bind (returns_pure.mpr ⟨rfl, rfl⟩), h'⟩

theorem espUses_sound {uses : List EspUse} (h : Sound e) (hrun : ProperRun p uses e) :
    ∃ e', (espUses p uses).Returns e () e' ∧ Sound e' := by
  induction uses generalizing e with
  | nil => exact ⟨e, returns_pure.mpr ⟨rfl, rfl⟩, h⟩
  | cons use uses ih =>
    obtain ⟨hlines, hrest⟩ := hrun
    obtain ⟨e₁, hr₁, h₁⟩ := espUse_sound h hlines
    obtain ⟨e₂, hr₂, h₂⟩ := ih h₁ (hrest e₁ hr₁)
    exact ⟨e₂, hr₁.bind hr₂, h₂⟩

end uses

section check

instance : Decidable (Proper e received) :=
  decidable_of_iff _ (proper_iff e received).symm

instance {use : EspUse} : Decidable (Updates e use) :=
  match use with
  | .call .update => isTrue trivial
  | .call (.dataReceived _) => isFalse id
  | .call (.timeUpdate _) => isFalse id
  | .requestSendData _ => inferInstanceAs (Decidable (_ ≠ _))
  | .startClientConnection _ _ _ => inferInstanceAs (Decidable (_ ≠ _))

/-- All the states in front of the rounds, as many as `k`, are good. -/
def checkHeads (round : Unit → EspM (Unit ⊕ Unit)) (good : Esp8266 → Bool) : ℕ → Esp8266 → Bool
  | 0, _ => false
  | k + 1, e => good e &&
    match (round ()).run 20 e with
    | some (.inl (), e') => checkHeads round good k e'
    | some (.inr (), _) => true
    | none => false

theorem checkHeads_sound {round : Unit → EspM (Unit ⊕ Unit)} {good : Esp8266 → Bool} {k : ℕ}
    (h : checkHeads round good k e = true) (hhead : Heads round e e₁) : good e₁ = true := by
  induction k generalizing e with
  | zero => cases h
  | succ k ih =>
    rw [checkHeads, Bool.and_eq_true] at h
    rcases Relation.ReflTransGen.cases_head hhead with rfl | ⟨e₂, hround, hhead⟩
    · exact h.1
    · cases hrun : (round ()).run 20 e with
      | none => simp [hrun] at h
      | some r =>
        obtain ⟨x, e'⟩ := r
        have hret : (round ()).Returns e x e' := ⟨20, hrun⟩
        obtain ⟨rfl, rfl⟩ := hret.unique hround
        rw [hrun] at h
        exact ih h.2 hhead

def goodUsart (e : Esp8266) : Bool := decide (e.ipd.inIPD = false → usartLine e ≠ [] → Proper e (usartLine e))

def goodTmp (e : Esp8266) : Bool :=
  decide (e.ipd.inIPD = false → e.activeCommand = .idle → tmpLine e ≠ [] → Proper e (tmpLine e))

/-- The lines that an update parses are proper, which takes at most `k` of them in each buffer. -/
def checkUpdate (p : Platform) (k : ℕ) (e : Esp8266) : Bool :=
  match (beforeLines p).run 20 e with
  | some ((), e₀) => checkHeads (usartRound p) goodUsart k e₀ &&
    match (loop (usartRound p) ()).run 20 e₀ with
    | some ((), e₁) => checkHeads (tmpRound p) goodTmp k e₁
    | none => false
  | none => false

theorem checkUpdate_sound {k : ℕ} (h : checkUpdate p k e = true) {l : List UInt8} (hparses : Parses p e e₁ l) :
    Proper e₁ l := by
  unfold checkUpdate at h
  cases hrun : (beforeLines p).run 20 e with
  | none => simp [hrun] at h
  | some r =>
    obtain ⟨⟨⟩, e₀⟩ := r
    have hret : (beforeLines p).Returns e () e₀ := ⟨20, hrun⟩
    simp only [hrun, Bool.and_eq_true] at h
    cases hparses with
    | usart h₀ h₁ hipd hne =>
      obtain ⟨-, rfl⟩ := hret.unique h₀
      exact of_decide_eq_true (checkHeads_sound h.1 h₁) hipd hne
    | @tmp e₀' e₂ _ h₀ h₁ h₂ hipd hidle hne =>
      obtain ⟨-, rfl⟩ := hret.unique h₀
      cases hloop : (loop (usartRound p) ()).run 20 e₀ with
      | none => simp [hloop] at h
      | some r =>
        obtain ⟨⟨⟩, e₃⟩ := r
        have hret' : (loop (usartRound p) ()).Returns e₀ () e₃ := ⟨20, hloop⟩
        obtain ⟨-, rfl⟩ := hret'.unique h₁
        simp only [hloop] at h
        exact of_decide_eq_true (checkHeads_sound h.2 h₂) hipd hidle hne

def checkRun (p : Platform) (k : ℕ) : List EspUse → Esp8266 → Bool
  | [], _ => true
  | use :: uses, e => (decide (¬ Updates e use) || checkUpdate p k e) &&
    match (espUse p use).run 20 e with
    | some ((), e') => checkRun p k uses e'
    | none => false

theorem checkRun_sound {k : ℕ} {uses : List EspUse} (h : checkRun p k uses e = true) : ProperRun p uses e := by
  induction uses generalizing e with
  | nil => trivial
  | cons use uses ih =>
    rw [checkRun, Bool.and_eq_true] at h
    constructor
    · intro hup e₁ l hparses
      refine checkUpdate_sound (k := k) ?_ hparses
      simpa [hup] using h.1
    · intro e₁ hret
      cases hrun : (espUse p use).run 20 e with
      | none => simp [hrun] at h
      | some r =>
        obtain ⟨⟨⟩, e'⟩ := r
        have hret' : (espUse p use).Returns e () e' := ⟨20, hrun⟩
        obtain ⟨-, rfl⟩ := hret'.unique hret
        rw [hrun] at h
        exact ih h.2

theorem connectedEsp_sound : Sound connectedEsp := by
  refine ⟨bufferInit_valid (by decide) (by decide), by decide, bufferInit_valid (by decide) (by decide), by decide,
    .inl rfl, ?_, ?_, rfl⟩
  · intro h
    cases h
  · intro h
    cases h

end check

section confirmation

def sendPlatform : Platform := ⟨[], false, fun _ => ascii "hi"⟩

def prompted (n : Fin 5) : List EspUse :=
  [.requestSendData n, .call (.dataReceived (ascii "\r\nOK\r\n> ")), .call .update]

def answered : List EspUse := [.call (.dataReceived (ascii "\r\nSEND OK\r\n")), .call .update]

def timedOut : List EspUse := [.call (.timeUpdate 30001), .call .update]

theorem connectedEsp_nothingSent : NothingSent connectedEsp := ⟨rfl, fun _ => rfl⟩

theorem exists_posts {uses : List EspUse} {l : List (Post (Fin 5))}
    (h : ((espUses sendPlatform uses).run 20 connectedEsp).any fun r =>
      decide (posts r.2 = l) && !r.2.log.any garbled) :
    ∃ e', (espUses sendPlatform uses).Returns connectedEsp () e' ∧ posts e' = l ∧ e'.log.any garbled = false := by
  obtain ⟨⟨_, e'⟩, hret, hd⟩ := (Option.any_eq_true _ _).mp h
  rw [Bool.and_eq_true, Bool.not_eq_true', decide_eq_true_iff] at hd
  exact ⟨e', ⟨20, hret⟩, hd⟩

end confirmation

end Lpc1788Libraries.WiFi

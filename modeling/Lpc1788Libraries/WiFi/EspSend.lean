import Lpc1788Libraries.Support.Confirmation
import Lpc1788Libraries.WiFi.EspClientConnection

namespace Lpc1788Libraries.WiFi

open Lpc1788Libraries.Support BoundedProgram BoundedProgram.Prog

def esp8266RequestSendData (p : Platform) (n : Fin 5) : EspM EspResult := do
  let e ← getEsp
  if e.activeCommand ≠ .idle then
    let _ ← esp8266Update p
    returnWithStatus .busy
  else
    setEsp fun e => e.sendText (ascii "AT+CIPSENDEX=" ++ [(e.connection n).number + 0x30] ++ ascii ",2048\r\n")
    let status ← sendCommand p .send none
    if status ≠ .ok then return (← getEsp).result
    else
      setEsp fun e => { e with waitForWrapper := true, sendDataConnection := some n }
      return (← getEsp).result

/-- What the user and the module make of the library. -/
inductive EspUse
  | call (call : EspCall)
  | requestSendData (n : Fin 5)
  | startClientConnection (type : ConnectionType) (location : List UInt8) (port : ℕ)

def espUse (p : Platform) : EspUse → EspM Unit
  | .call call => espCall p call
  | .requestSendData n => do
    let _ ← esp8266RequestSendData p n
    return ()
  | .startClientConnection type location port => do
    let _ ← esp8266StartClientConnection p location port type
    return ()

def espUses (p : Platform) : List EspUse → EspM Unit
  | [] => return ()
  | use :: uses => do
    espUse p use
    espUses p uses

/-- What an event is to the data that have been sent: the user is asked for them when the module
is ready to take them. -/
def post : Event → Option (Post (Fin 5))
  | .clientConnectionSendData n => some (.sent n)
  | .serverConnectionSendData n => some (.sent n)
  | .parseReceived received _ => if strEq received "SEND OK\r\n" then some .confirmed else none
  | .clientConnectionDataSent n => some (.reported n)
  | .serverConnectionDataSent n => some (.reported n)
  | .wifiDisconnected => some .dropped
  | _ => none

/-- A line that has `SEND OK` in it and is not that line. -/
def garbled : Event → Bool
  | .parseReceived received _ => strContains received "SEND OK\r\n" && !strEq received "SEND OK\r\n"
  | _ => false

def posts (e : Esp8266) : List (Post (Fin 5)) := e.log.filterMap post

def waits (e : Esp8266) (n : Fin 5) : Bool := (e.connection n).waitingSentRespond

/-- What the reports of sent data depend on. -/
def watch (e : Esp8266) : (Fin 5 → Bool) × List (Post (Fin 5)) × Bool := (waits e, posts e, e.log.any garbled)

variable {p : Platform} {e e' : Esp8266} {n : Fin 5} {received : List UInt8} {b : Bool} {ev : Event}

section bystanders

theorem watch_congr (hc : e'.connection = e.connection) (hl : e'.log = e.log) : watch e' = watch e := by
  have hw : waits e' = waits e := by
    funext n
    rw [waits, waits, hc]
  simp only [watch, posts, hw, hl]

theorem watch_call (hp : post ev = none) (hg : garbled ev = false) : watch (e.call ev) = watch e := by
  have hw : waits (e.call ev) = waits e := rfl
  rw [watch, watch, hw]
  simp [posts, Esp8266.call, hp, hg]

theorem watch_setConnection {f : Connection → Connection}
    (hf : ∀ conn, (f conn).waitingSentRespond = conn.waitingSentRespond) : watch (e.setConnection n f) = watch e := by
  have hw : waits (e.setConnection n f) = waits e := by
    funext m
    by_cases hm : m = n
    · subst hm
      simp [waits, Esp8266.setConnection, hf]
    · simp [waits, Esp8266.setConnection, hm]
  rw [watch, hw]
  rfl

theorem watch_resetConnection : watch (e.resetConnection n) = watch e := watch_setConnection fun _ => rfl

theorem watch_callbacks : watch (callConnectionCallbacks e) = watch e := by
  refine callConnectionCallbacks_induction (P := fun e' => watch e' = watch e) e rfl ?_
  intro e' m ev he hev
  rw [← he]
  rcases hev with rfl | rfl
  · exact (watch_call rfl rfl).trans (watch_setConnection fun _ => rfl)
  · exact (watch_call rfl rfl).trans (watch_setConnection fun _ => rfl)

theorem watch_ite {c : Prop} [Decidable c] {e₁ e₂ : Esp8266} (h₁ : watch e₁ = watch e) (h₂ : watch e₂ = watch e) :
    watch (if c then e₁ else e₂) = watch e := by
  split
  · exact h₁
  · exact h₂

theorem watch_parseReady : watch (parseReady e received) = watch e := by
  unfold parseReady
  have hready : watch (if strEq received "ready\r\n" then e.call .deviceReady else e) = watch e :=
    watch_ite (watch_call rfl rfl) rfl
  exact watch_ite ((watch_call rfl rfl).trans hready) hready

theorem watch_parseWifi (h : strEq received "WIFI DISCONNECT\r\n" = false) : watch (parseWifi e received) = watch e := by
  unfold parseWifi
  apply watch_ite
  · exact (watch_call rfl rfl).trans (watch_congr rfl rfl)
  rw [if_neg (by simp [h])]
  apply watch_ite
  · exact (watch_call rfl rfl).trans (watch_congr rfl rfl)
  apply watch_ite
  · exact watch_call rfl rfl
  · rfl

theorem watch_connectionMade {x : UInt8} : watch (connectionMade e x n) = watch e := by
  have hset : watch (e.setConnection n fun conn => { conn with active := true, number := char2Num x }) = watch e :=
    watch_setConnection fun _ => rfl
  unfold connectionMade
  apply watch_ite
  · refine (watch_call rfl rfl).trans ?_
    exact watch_ite ((watch_congr rfl rfl).trans hset) hset
  · exact (watch_call rfl rfl).trans hset

theorem watch_connectionClosed : watch (connectionClosed e n) = watch e := by
  unfold connectionClosed
  apply watch_ite
  · apply watch_ite
    · exact (watch_call rfl rfl).trans watch_resetConnection
    · exact (watch_call rfl rfl).trans watch_resetConnection
  · exact watch_resetConnection

theorem watch_connectionFailed {x : UInt8} : watch (connectionFailed e x n) = watch e := by
  have hset : watch ((e.resetConnection n).setConnection n fun conn => { conn with number := char2Num x }) = watch e := by
    refine (watch_setConnection ?_).trans watch_resetConnection
    exact fun _ => rfl
  unfold connectionFailed
  apply watch_ite
  · refine (watch_call rfl rfl).trans ?_
    exact watch_ite ((watch_congr rfl rfl).trans hset) hset
  · exact hset

theorem watch_parseConnection (h : parseConnection e received = some e') : watch e' = watch e := by
  unfold parseConnection at h
  split at h
  · obtain ⟨n, -, rfl⟩ := Option.map_eq_some_iff.mp h
    exact watch_connectionMade
  · split at h
    · cases h
      rfl
    · split at h
      · split at h
        · obtain ⟨n, -, rfl⟩ := Option.map_eq_some_iff.mp h
          exact watch_connectionClosed
        · cases h
          exact watch_congr rfl rfl
      · split at h
        · obtain ⟨n, -, rfl⟩ := Option.map_eq_some_iff.mp h
          exact watch_connectionFailed
        · cases h
          rfl

theorem watch_parseIpd (h : parseIpd e received b = some e') : watch e' = watch e := by
  unfold parseIpd at h
  split at h
  · simp only at h
    split at h
    · cases h
      refine (watch_setConnection ?_).trans (watch_congr rfl rfl)
      exact fun _ => rfl
    · cases h
  · cases h
    rfl

theorem watch_strcpyResponse {response : String} (h : strcpyResponse p e response = some e') : watch e' = watch e := by
  unfold strcpyResponse at h
  split at h
  · cases h
    exact watch_congr rfl rfl
  · cases h

theorem watch_parseCommand (h : parseCommand p e received = some e') : watch e' = watch e := by
  have hidle : watch { e with activeCommand := .idle } = watch e := watch_congr rfl rfl
  unfold parseCommand at h
  simp only at h
  split at h
  · obtain ⟨e₁, h₁, rfl⟩ := Option.map_eq_some_iff.mp h
    have hw₁ : watch e₁ = watch e := by
      split at h₁
      · obtain ⟨e₂, h₂, rfl⟩ := Option.map_eq_some_iff.mp h₁
        have hw₂ := watch_strcpyResponse h₂
        exact (watch_congr rfl rfl).trans hw₂
      · cases h₁
        rfl
    have hok : watch (if strEq received "OK\r\n" then { e₁ with activeCommand := .idle } else e₁) = watch e :=
      watch_ite ((watch_congr rfl rfl).trans hw₁) hw₁
    exact watch_ite ((watch_call rfl rfl).trans ((watch_congr rfl rfl).trans hok)) hok
  · cases h
    exact watch_ite ((watch_call rfl rfl).trans hidle) rfl
  · cases h
    exact watch_ite ((watch_call rfl rfl).trans hidle) rfl
  · cases h
    exact watch_ite (watch_congr rfl rfl) rfl
  · split at h
    · exact (watch_strcpyResponse h).trans (watch_congr rfl rfl)
    · cases h
      rfl
  · cases h
    have hok : watch (if strEq received "OK\r\n" then { e with activeCommand := .idle } else e) = watch e :=
      watch_ite hidle rfl
    apply watch_ite
    · exact (watch_call rfl rfl).trans (watch_resetConnection.trans ((watch_congr rfl rfl).trans hok))
    · exact hok
  · cases h
    exact watch_ite (watch_congr rfl rfl) rfl
  · cases h
    have htime : ∀ {c : Prop} [Decidable c] {t : ℤ}, watch (if c then { e with pingTime := t } else e) = watch e :=
      watch_ite (watch_congr rfl rfl) rfl
    apply watch_ite
    · exact (watch_call rfl rfl).trans ((watch_congr rfl rfl).trans htime)
    · exact watch_ite ((watch_call rfl rfl).trans ((watch_congr rfl rfl).trans htime)) htime
  · cases h
    have hstatus : ∀ {c d : Prop} [Decidable c] [Decidable d] {t : UInt32} {x : UInt8},
        watch (if c then (if d then { e with timeout := t } else e).call (.firmwareUpdateStatus x) else e) = watch e :=
      watch_ite ((watch_call rfl rfl).trans (watch_ite (watch_congr rfl rfl) rfl)) rfl
    have hsuccess : ∀ {c : Prop} [Decidable c] {e₁ : Esp8266}, watch e₁ = watch e → watch (if c then
        { e₁ with activeCommand := .idle, timeout := 30000 }.call .firmwareUpdateSuccess else e₁) = watch e :=
      fun h₁ => watch_ite ((watch_call rfl rfl).trans ((watch_congr rfl rfl).trans h₁)) h₁
    apply watch_ite
    · exact (watch_call rfl rfl).trans ((watch_congr rfl rfl).trans (hsuccess hstatus))
    · exact hsuccess hstatus
  · cases h
    exact watch_ite ((watch_call rfl rfl).trans hidle) rfl
  all_goals
    cases h
    first
    | exact watch_ite hidle rfl
    | rfl

theorem watch_parseStatus : watch (parseStatus e received) = watch e := by
  have hok : ∀ {c d : Command}, watch (if strEq received "OK\r\n" then
      { e with lastOperationStatus := true, activeCommand := if e.activeCommand = .send ∨ e.activeCommand = .senddata then c else d }
      else e) = watch e := watch_ite (watch_congr rfl rfl) rfl
  have hfailed : ∀ {c : Prop} [Decidable c] {e₁ : Esp8266}, watch e₁ = watch e → watch (if c then
      { e₁ with lastOperationStatus := false, activeCommand := .idle } else e₁) = watch e :=
    fun h₁ => watch_ite ((watch_congr rfl rfl).trans h₁) h₁
  exact watch_ite ((watch_congr rfl rfl).trans (hfailed hok)) (hfailed hok)

end bystanders

section parsing

/-- The connections that wait for `SEND OK` are those with data outstanding, and all of them are
told of one. -/
structure Tracked (e : Esp8266) : Prop where
  flags : waits e = Post.outstanding (posts e)
  broadcast : Post.Broadcast (List.finRange 5) (posts e)

theorem Tracked.congr (h : Tracked e) (hw : watch e' = watch e) : Tracked e' := by
  have hf : waits e' = waits e := congrArg Prod.fst hw
  have hp : posts e' = posts e := congrArg (fun x => x.2.1) hw
  constructor
  · rw [hf, hp]
    exact h.flags
  · rw [hp]
    exact h.broadcast

/-- As long as `SEND OK` stands alone in its lines, the connections stay tracked. -/
structure Follows (e e' : Esp8266) : Prop where
  garbled : e.log.any garbled = true → e'.log.any garbled = true
  tracked : e'.log.any WiFi.garbled = false → Tracked e → Tracked e'

instance : Std.Refl Follows := ⟨fun _ => ⟨id, fun _ => id⟩⟩

instance : IsTrans Esp8266 Follows where
  trans := by
    intro e₁ e₂ e₃ h h'
    refine ⟨fun hg => h'.garbled (h.garbled hg), fun hg ht => h'.tracked hg (h.tracked ?_ ht)⟩
    by_contra hne
    rw [h'.garbled (by simpa using hne)] at hg
    cases hg

theorem follows_of_watch (hw : watch e' = watch e) : Follows e e' := by
  have hg : e'.log.any garbled = e.log.any garbled := congrArg (fun x => x.2.2) hw
  exact ⟨fun h => hg.trans h, fun _ ht => ht.congr hw⟩

theorem dataSent_fold {l : List (Fin 5)} (hl : l.Nodup) :
    posts (l.foldl dataSentCallback e) = ((l.filter (waits e)).map Post.reported).reverse ++ posts e ∧
    (∀ m, waits (l.foldl dataSentCallback e) m = (waits e m && !l.contains m)) ∧
    (l.foldl dataSentCallback e).log.any garbled = e.log.any garbled := by
  induction l generalizing e with
  | nil => simp
  | cons n l ih =>
    obtain ⟨hn, hl⟩ := List.nodup_cons.mp hl
    by_cases hw : waits e n = true
    · let e₁ := e.setConnection n fun conn => { conn with waitingSentRespond := false }
      obtain ⟨ev, hev, hpost, hgarb⟩ : ∃ ev, dataSentCallback e n = e₁.call ev ∧ post ev = some (.reported n) ∧
          garbled ev = false := by
        unfold dataSentCallback
        rw [if_pos (show (e.connection n).waitingSentRespond = true from hw)]
        by_cases hc : (e₁.connection n).client = true
        · exact ⟨_, if_pos hc, rfl, rfl⟩
        · exact ⟨_, if_neg hc, rfl, rfl⟩
      have hwaits : ∀ m, waits (e₁.call ev) m = if m = n then false else waits e m := by
        intro m
        by_cases hm : m = n
        · subst hm
          simp [waits, e₁, Esp8266.call, Esp8266.setConnection]
        · simp [waits, e₁, Esp8266.call, Esp8266.setConnection, hm]
      have hfilter : l.filter (waits (e₁.call ev)) = l.filter (waits e) := by
        apply List.filter_congr
        intro m hm
        rw [hwaits, if_neg]
        rintro rfl
        exact hn hm
      obtain ⟨hp, hf, hg⟩ := @ih (e₁.call ev) hl
      rw [List.foldl_cons, hev]
      refine ⟨?_, ?_, ?_⟩
      · rw [hp, hfilter, List.filter_cons_of_pos hw, List.map_cons, List.reverse_cons, List.append_assoc]
        simp [posts, Esp8266.call, hpost, e₁, Esp8266.setConnection]
      · intro m
        rw [hf, hwaits, List.contains_cons]
        by_cases hm : m = n
        · simp [hm]
        · simp [hm, beq_false_of_ne hm]
      · rw [hg]
        simp [Esp8266.call, hgarb, e₁, Esp8266.setConnection]
    · have hsame : dataSentCallback e n = e := if_neg hw
      obtain ⟨hp, hf, hg⟩ := @ih e hl
      rw [List.foldl_cons, hsame]
      refine ⟨?_, ?_, hg⟩
      · rw [hp, List.filter_cons_of_neg hw]
      · intro m
        rw [hf]
        by_cases hm : m = n
        · subst hm
          simpa [hn] using hw
        · simp [hm]

theorem parseSendOk_tells (h : strContains received "SEND OK\r\n" = true) :
    posts (parseSendOk e received) =
      (((List.finRange 5).filter (waits e)).map Post.reported).reverse ++ posts e ∧
    waits (parseSendOk e received) = (fun _ => false) ∧
    (parseSendOk e received).log.any garbled = e.log.any garbled := by
  have hsend : parseSendOk e received = (List.finRange 5).foldl dataSentCallback { e with activeCommand := .idle } :=
    if_pos h
  obtain ⟨hp, hf, hg⟩ := @dataSent_fold { e with activeCommand := .idle } _ (List.nodup_finRange 5)
  rw [hsend]
  refine ⟨hp, ?_, hg⟩
  funext m
  rw [hf, List.contains_iff_mem.mpr (List.mem_finRange m), Bool.not_true, Bool.and_false]

theorem parseWifi_garbled : (parseWifi e received).log.any garbled = e.log.any garbled := by
  by_cases h : strEq received "WIFI DISCONNECT\r\n" = true
  · have hc : strEq received "WIFI CONNECTED\r\n" = false := by
      simp only [strEq, decide_eq_true_eq] at h
      simp only [strEq, h]
      decide
    simp [parseWifi, h, hc, Esp8266.call, garbled]
  · have hw := watch_parseWifi (e := e) (by simpa using h)
    exact congrArg (fun x => x.2.2) hw

theorem parseSendOk_garbled : (parseSendOk e received).log.any garbled = e.log.any garbled := by
  by_cases h : strContains received "SEND OK\r\n" = true
  · exact (parseSendOk_tells h).2.2
  · simp [parseSendOk, h]

theorem parseLine_watch (h : parseLine p e received b = some e') : watch e' =
    watch (parseSendOk (parseWifi (callConnectionCallbacks (parseReady e received)) received) received) := by
  unfold parseLine at h
  obtain ⟨e₁, h₁, h⟩ := Option.bind_eq_some_iff.mp h
  obtain ⟨e₂, h₂, h⟩ := Option.bind_eq_some_iff.mp h
  obtain ⟨e₃, h₃, rfl⟩ := Option.map_eq_some_iff.mp h
  rw [watch_parseStatus, watch_parseCommand h₃, watch_parseIpd h₂, watch_parseConnection h₁]

theorem noteReceived_posts : posts (noteReceived e received b) =
    (post (.parseReceived received b)).toList ++ posts e ∧ waits (noteReceived e received b) = waits e ∧
    (noteReceived e received b).log.any garbled = (garbled (.parseReceived received b) || e.log.any garbled) := by
  refine ⟨?_, rfl, rfl⟩
  cases h : post (.parseReceived received b) with
  | none => simp [posts, noteReceived, Esp8266.call, h]
  | some x => simp [posts, noteReceived, Esp8266.call, h]

theorem parseReceived_garbled (h : parseReceived p e received b = some e') :
    e'.log.any garbled = (garbled (.parseReceived received b) || e.log.any garbled) := by
  rw [← noteReceived_posts.2.2]
  unfold parseReceived at h
  simp only at h
  split at h
  · cases h
    rfl
  · split at h
    · cases h
      rfl
    · have hw := congrArg (fun x => x.2.2) (parseLine_watch h)
      have hready := congrArg (fun x => x.2.2) (@watch_parseReady (noteReceived e received b) received)
      have hcall := congrArg (fun x => x.2.2) (@watch_callbacks (parseReady (noteReceived e received b) received))
      exact hw.trans (parseSendOk_garbled.trans (parseWifi_garbled.trans (hcall.trans hready)))

theorem parseReceived_confirmed (hs : strEq received "SEND OK\r\n" = true) (ht : Tracked e)
    (h : parseReceived p e received b = some e') : Tracked e' := by
  have hc : cString received = ascii "SEND OK\r\n" := by simpa [strEq] using hs
  have hne : received ≠ ascii "\r\n" := by
    rintro rfl
    revert hc
    decide
  have hbelongs : lineBelongs p (noteReceived e received b) received = true := by simp [lineBelongs, hs]
  have hcontains : strContains received "SEND OK\r\n" = true := by
    rw [strContains, hc, decide_eq_true_iff]
  have hdis : strEq received "WIFI DISCONNECT\r\n" = false := by
    rw [strEq, hc]
    decide
  have hpost : post (.parseReceived received b) = some .confirmed := if_pos hs
  obtain ⟨hp, hf, -⟩ := @noteReceived_posts e received b
  rw [hpost, Option.toList_some, List.singleton_append] at hp
  simp only [parseReceived, hne, if_false, hasToWait, hbelongs, Bool.not_true, Bool.and_false, Bool.false_eq_true] at h
  have hw := parseLine_watch h
  -- the line is no line about the Wi-Fi
  obtain ⟨e₁, he₁⟩ : ∃ e₁, e₁ = parseWifi (callConnectionCallbacks (parseReady (noteReceived e received b) received)) received :=
    ⟨_, rfl⟩
  rw [← he₁] at hw
  have hw₁ : watch e₁ = watch (noteReceived e received b) := by
    rw [he₁, watch_parseWifi hdis, watch_callbacks, watch_parseReady]
  have hp₁ : posts e₁ = .confirmed :: posts e := (congrArg (fun x => x.2.1) hw₁).trans hp
  have hf₁ : waits e₁ = Post.outstanding (posts e) := (congrArg Prod.fst hw₁).trans (hf.trans ht.flags)
  obtain ⟨hp₂, hf₂, -⟩ := @parseSendOk_tells e₁ received hcontains
  refine Tracked.congr ?_ hw
  constructor
  · rw [hf₂, hp₂, Post.outstanding_reported, hp₁]
    rfl
  · rw [Post.Broadcast, hp₂, Post.reports_reported, hp₁, List.append_nil, hf₁]
    exact ⟨rfl, ht.broadcast⟩

theorem parseWifi_disconnect (hd : strEq received "WIFI DISCONNECT\r\n" = true) (ht : Tracked e) :
    Tracked (parseWifi e received) := by
  have hc : strEq received "WIFI CONNECTED\r\n" = false := by
    simp only [strEq, decide_eq_true_eq] at hd
    simp only [strEq, hd]
    decide
  have hp : posts (parseWifi e received) = .dropped :: posts e := by
    simp [posts, parseWifi, hd, hc, Esp8266.call, post]
  have hf : waits (parseWifi e received) = fun _ => false := by
    funext n
    simp [waits, parseWifi, hd, hc, Esp8266.call, Connection.zero]
  constructor
  · rw [hf, hp, Post.outstanding]
  · rw [Post.Broadcast, hp]
    exact ht.broadcast

theorem parseReceived_other (hs : strContains received "SEND OK\r\n" = false) (ht : Tracked e)
    (h : parseReceived p e received b = some e') : Tracked e' := by
  have hne : strEq received "SEND OK\r\n" = false := by
    by_contra heq
    have hc : cString received = ascii "SEND OK\r\n" := by simpa [strEq] using heq
    rw [strContains, hc, decide_eq_false_iff_not] at hs
    exact hs List.infix_rfl
  have hnote : watch (noteReceived e received b) = watch e := by
    have hw : watch { e with lastReceivedTime := e.time } = watch e := watch_congr rfl rfl
    refine (watch_call ?_ ?_).trans hw
    · exact if_neg (by simp [hne])
    · simp [garbled, hs]
  unfold parseReceived at h
  simp only at h
  split at h
  · cases h
    exact ht.congr hnote
  · split at h
    · cases h
      exact ht.congr ((watch_congr rfl rfl).trans hnote)
    · have hw := parseLine_watch h
      have hsend : ∀ e₁, parseSendOk e₁ received = e₁ := fun e₁ => if_neg (by simp [hs])
      rw [hsend] at hw
      have hbefore : Tracked (callConnectionCallbacks (parseReady (noteReceived e received b) received)) := by
        apply ht.congr
        rw [watch_callbacks, watch_parseReady, hnote]
      refine Tracked.congr ?_ hw
      by_cases hd : strEq received "WIFI DISCONNECT\r\n" = true
      · exact parseWifi_disconnect hd hbefore
      · exact hbefore.congr (watch_parseWifi (by simpa using hd))

theorem parseReceived_follows (h : parseReceived p e received b = some e') : Follows e e' := by
  have hg := parseReceived_garbled h
  constructor
  · intro hany
    rw [hg, hany, Bool.or_true]
  · intro hno ht
    rw [hg, Bool.or_eq_false_iff] at hno
    by_cases hs : strContains received "SEND OK\r\n" = true
    · have heq : strEq received "SEND OK\r\n" = true := by simpa [garbled, hs] using hno.1
      exact parseReceived_confirmed heq ht h
    · exact parseReceived_other (by simpa using hs) ht h

end parsing

section runs

theorem setEsp_follows {f : Esp8266 → Esp8266} (h : ∀ e, watch (f e) = watch e) : (setEsp f).Within Follows :=
  within_modify fun e => follows_of_watch (h e)

theorem attempt_follows {α : Type} {f : Esp8266 → Option (α × Esp8266)}
    (h : ∀ e x e', f e = some (x, e') → watch e' = watch e) : (Prog.attempt f).Within Follows :=
  within_attempt fun e x e' hx => follows_of_watch (h e x e' hx)

theorem watch_checkTimeout : watch (checkTimeout e) = watch e := by
  have hzero : watch (if e.timeout = 0 then { e with timeout := 30000 } else e) = watch e :=
    watch_ite (watch_congr rfl rfl) rfl
  unfold checkTimeout
  apply watch_ite
  · apply watch_ite
    · exact (watch_call rfl rfl).trans (watch_resetConnection.trans ((watch_congr rfl rfl).trans hzero))
    · exact (watch_congr rfl rfl).trans hzero
  · exact hzero

theorem bufferFind_follows {buf : Buffer} {data : List UInt8} {size : ℕ} :
    (bufferFind buf data size).Within Follows := by
  apply within_ite
  · exact within_pure
  · apply within_loop
    rintro ⟨num, out, retval, found⟩
    apply within_ite
    · exact within_pure
    · apply within_ite
      · exact within_ite within_pure within_pure
      · exact within_pure

theorem processSendData_follows (h : processSendData p e = some e') : Follows e e' := by
  obtain ⟨n, -, rfl⟩ := Option.map_eq_some_iff.mp h
  obtain ⟨ev, hev, hpost, hgarb⟩ : ∃ ev, ev = (if (e.connection n).client then Event.clientConnectionSendData n
      else .serverConnectionSendData n) ∧ post ev = some (.sent n) ∧ garbled ev = false := by
    by_cases hc : (e.connection n).client = true
    · exact ⟨_, rfl, by rw [if_pos hc]; rfl, by rw [if_pos hc]; rfl⟩
    · exact ⟨_, rfl, by rw [if_neg hc]; rfl, by rw [if_neg hc]; rfl⟩
  rw [← hev]
  constructor
  · intro hany
    simp [Esp8266.setConnection, Esp8266.call, hgarb, hany]
  · intro _ ht
    have hp : e.log.filterMap post = posts e := rfl
    constructor
    · funext m
      by_cases hm : m = n
      · subst hm
        simp [waits, posts, Esp8266.setConnection, Esp8266.call, hpost, Post.outstanding]
      · have hflag := congrFun ht.flags m
        simp only [posts, Esp8266.setConnection, Esp8266.call, List.filterMap_cons, hpost, Post.outstanding, ne_eq, hm,
          not_false_eq_true, Function.update_of_ne, waits]
        exact hflag
    · simp only [Post.Broadcast, posts, Esp8266.setConnection, Esp8266.call, List.filterMap_cons, hpost]
      exact ⟨rfl, ht.broadcast⟩

theorem sendData_follows :
    (Prog.attempt fun e => (processSendData p e).map ((), ·) : EspM Unit).Within Follows := by
  apply within_attempt
  intro e x e' hx
  obtain ⟨e₁, h₁, hx⟩ := Option.map_eq_some_iff.mp hx
  cases hx
  exact processSendData_follows h₁

theorem checkWrapper_follows : (checkWrapper p).Within Follows := by
  apply within_get_bind
  intro e
  apply within_ite
  · apply within_bind bufferFind_follows
    intro found
    split
    · apply within_ite
      · exact within_bind (setEsp_follows fun e => watch_congr rfl rfl) fun _ => sendData_follows
      · exact sendData_follows
    · apply within_bind bufferFind_follows
      intro found
      split
      · apply within_ite
        · exact within_bind (setEsp_follows fun e => watch_congr rfl rfl) fun _ => sendData_follows
        · exact sendData_follows
      · exact within_pure
  · exact within_pure

theorem checkUart_follows : checkUart.Within Follows := by
  apply within_get_bind
  intro e
  apply within_ite
  · apply within_bind bufferFind_follows
    intro found
    apply within_ite
    · exact setEsp_follows fun e => watch_congr rfl rfl
    · exact within_pure
  · exact within_pure

theorem usartRound_follows : (usartRound p ()).Within Follows := by
  apply within_attempt
  intro e x e' hx
  split at hx
  · cases hx
    exact Std.Refl.refl e
  · simp only at hx
    split at hx
    · cases hx
      exact follows_of_watch (watch_congr rfl rfl)
    · obtain ⟨e₁, h₁, hx⟩ := Option.map_eq_some_iff.mp hx
      have hread : Follows e { e with usartBuffer := (bufferReadString e.usartBuffer receivedSize).1 } :=
        follows_of_watch (watch_congr rfl rfl)
      have hparse := parseReceived_follows h₁
      cases hx
      exact IsTrans.trans _ _ _ hread hparse

theorem tmpRound_follows : (tmpRound p ()).Within Follows := by
  apply within_attempt
  intro e x e' hx
  split at hx
  · cases hx
    exact Std.Refl.refl e
  · simp only at hx
    split at hx
    · cases hx
      exact follows_of_watch (watch_congr rfl rfl)
    · obtain ⟨e₁, h₁, hx⟩ := Option.map_eq_some_iff.mp hx
      have hread : Follows e { e with tmpBuffer := (bufferReadString e.tmpBuffer receivedSize).1 } :=
        follows_of_watch (watch_congr rfl rfl)
      have hparse := parseReceived_follows h₁
      cases hx
      exact IsTrans.trans _ _ _ hread hparse

theorem ipdRound_follows : (ipdRound n ()).Within Follows := by
  have hbuffer : ∀ (e : Esp8266) (buf : Buffer), watch (e.setIpdBuffer buf) = watch e :=
    fun e buf => watch_ite (watch_congr rfl rfl) (watch_congr rfl rfl)
  apply attempt_follows
  intro e x e' hx
  split at hx
  · split at hx
    · simp only [Option.some.injEq, Prod.mk.injEq] at hx
      have hb := hbuffer e (bufferRead e.ipdBuffer 1).1
      generalize e.setIpdBuffer (bufferRead e.ipdBuffer 1).1 = e₁ at hx hb
      rw [← hx.2, ← hb]
      exact watch_congr rfl rfl
    · cases hx
  · cases hx
    rfl

theorem watch_ipdDone : watch (ipdDone e n) = watch e := by
  unfold ipdDone
  apply watch_ite
  · refine (watch_setConnection ?_).trans (watch_congr rfl rfl)
    exact fun _ => rfl
  · rfl

theorem updateIpd_follows : updateIpd.Within Follows := by
  apply within_get_bind
  intro e
  apply within_ite
  · split
    · apply within_bind (within_loop fun _ => ipdRound_follows)
      intro _
      apply setEsp_follows
      intro e'
      exact watch_ipdDone
    · apply attempt_follows
      intro e' x e'' hx
      cases hx
  · exact within_pure

theorem update_follows : (esp8266Update p).Within Follows := by
  apply within_bind (setEsp_follows fun e => watch_checkTimeout)
  intro _
  apply within_bind checkWrapper_follows
  intro _
  apply within_bind checkUart_follows
  intro _
  apply within_bind (within_loop fun _ => usartRound_follows)
  intro _
  apply within_bind (within_loop fun _ => tmpRound_follows)
  intro _
  apply within_bind updateIpd_follows
  intro _
  have hlast : ∀ e : Esp8266, watch { callConnectionCallbacks e with result := .ok } = watch e :=
    fun e => (watch_congr rfl rfl).trans watch_callbacks
  exact within_bind (setEsp_follows hlast) fun _ => within_pure

theorem returnWithStatus_follows {status : EspResult} : (returnWithStatus status).Within Follows :=
  within_bind (setEsp_follows fun _ => watch_congr rfl rfl) fun _ => within_pure

theorem sendCommand_follows {command : Command} {response : Option (List UInt8)} :
    (sendCommand p command response).Within Follows := by
  apply within_get_bind
  intro e
  apply within_ite
  · exact within_bind update_follows fun _ => returnWithStatus_follows
  · exact within_bind (setEsp_follows fun _ => watch_congr rfl rfl) fun _ => returnWithStatus_follows

theorem sendText_watch {text : List UInt8} : watch (e.sendText text) = watch e := watch_congr rfl rfl

theorem requestSendData_follows : (esp8266RequestSendData p n).Within Follows := by
  apply within_get_bind
  intro e
  apply within_ite
  · exact within_bind update_follows fun _ => returnWithStatus_follows
  · apply within_bind (setEsp_follows fun _ => sendText_watch)
    intro _
    apply within_bind sendCommand_follows
    intro status
    apply within_ite
    · exact within_get_bind fun _ => within_pure
    · apply within_bind
      · apply setEsp_follows
        exact fun _ => watch_congr rfl rfl
      · exact fun _ => within_get_bind fun _ => within_pure

theorem clientStarted_watch {type : ConnectionType} : watch (e.clientStarted n type) = watch e := by
  have hset : watch (e.setConnection n fun conn => { conn with
      active := true, client := true, type := type, totalBytesReceived := 0, number := UInt8.ofNat n }) = watch e := by
    apply watch_setConnection
    exact fun _ => rfl
  exact (watch_congr rfl rfl).trans hset

theorem startClientConnection_follows {type : ConnectionType} {protocol : String} {location : List UInt8} {port : ℕ} :
    (startClientConnection p type protocol location port).Within Follows := by
  apply within_get_bind
  intro e
  apply within_ite
  · exact within_bind update_follows fun _ => returnWithStatus_follows
  apply within_ite
  · exact returnWithStatus_follows
  split
  · exact returnWithStatus_follows
  · exact returnWithStatus_follows
  · apply within_bind (setEsp_follows fun _ => sendText_watch)
    intro _
    apply within_bind sendCommand_follows
    intro status
    apply within_ite
    · exact within_pure
    · exact within_bind (setEsp_follows fun _ => clientStarted_watch) fun _ => returnWithStatus_follows

theorem espUse_follows {use : EspUse} : (espUse p use).Within Follows := by
  cases use with
  | call call =>
    cases call with
    | dataReceived data => exact setEsp_follows fun _ => watch_congr rfl rfl
    | timeUpdate timeIncrease => exact setEsp_follows fun _ => watch_congr rfl rfl
    | update => exact within_bind update_follows fun _ => within_pure
  | requestSendData n => exact within_bind requestSendData_follows fun _ => within_pure
  | startClientConnection type location port =>
    cases type with
    | tcp => exact within_bind startClientConnection_follows fun _ => within_pure
    | ssl => exact within_bind startClientConnection_follows fun _ => within_pure

theorem espUses_follows {uses : List EspUse} : (espUses p uses).Within Follows := by
  induction uses with
  | nil => exact within_pure
  | cons use uses ih => exact within_bind espUse_follows fun _ => ih

/-- Nothing has been sent yet. -/
structure NothingSent (e : Esp8266) : Prop where
  log_eq : e.log = []
  waits_eq : ∀ n, (e.connection n).waitingSentRespond = false

theorem NothingSent.tracked (h : NothingSent e) : Tracked e := by
  constructor
  · funext n
    simp [waits, posts, h.waits_eq, h.log_eq, Post.outstanding]
  · simp [Post.Broadcast, posts, h.log_eq, Post.Reports]

end runs

end Lpc1788Libraries.WiFi

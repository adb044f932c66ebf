import Lpc1788Libraries.Bluetooth.Hc06

namespace Lpc1788Libraries.Bluetooth

open Lpc1788Libraries.Support BoundedProgram

variable {s t : State} {during : ℕ → List Event} {a bytes : List UInt8} {b : UInt8} {n len j m : ℕ}

section events

def rxBytes (es : List Event) : List UInt8 := es.filterMap fun
  | .rx b => some b
  | .ms => none

def msCount (es : List Event) : ℕ := es.countP fun
  | .rx _ => false
  | .ms => true

/-- The bytes that come in during the first `n` rounds. -/
def received (during : ℕ → List Event) (n : ℕ) : List UInt8 := (List.range n).flatMap fun i => rxBytes (during i)

/-- The milliseconds of the first `n` rounds. -/
def elapsed (during : ℕ → List Event) (n : ℕ) : ℕ := msCount ((List.range n).flatMap during)

/-- Nothing comes in. -/
def Silent (es : List Event) : Prop := rxBytes es = []

/-- The last byte comes in during a round that begins before the timeout. -/
def InTime (a : List UInt8) (during : ℕ → List Event) : Prop :=
  ∃ m, received during (m + 1) = a ∧ elapsed during m < timeoutValue ∧ ∀ n > m, Silent (during n)

/-- However long one waits, the time goes on. -/
def TimePasses (during : ℕ → List Event) : Prop := ∀ ms, ∃ n, ms ≤ elapsed during n

theorem received_succ : received during (n + 1) = received during n ++ rxBytes (during n) := by
  rw [received, List.range_succ, List.flatMap_append, List.flatMap_singleton]
  rfl

theorem elapsed_succ : elapsed during (n + 1) = elapsed during n + msCount (during n) := by
  rw [elapsed, List.range_succ, List.flatMap_append, List.flatMap_singleton, msCount, List.countP_append]
  rfl

theorem received_prefix (h : n ≤ m) : received during n <+: received during m := by
  obtain ⟨k, rfl⟩ := Nat.exists_eq_add_of_le h
  rw [received, received, List.range_add, List.flatMap_append]
  exact List.prefix_append _ _

theorem elapsed_mono (h : n ≤ m) : elapsed during n ≤ elapsed during m := by
  induction m with
  | zero => rw [Nat.le_zero.mp h]
  | succ m ih =>
    rcases Nat.le_succ_iff.mp h with hle | rfl
    · rw [elapsed_succ]
      exact (ih hle).trans (Nat.le_add_right _ _)
    · exact le_rfl

theorem received_silent (h : ∀ n, Silent (during n)) (n : ℕ) : received during n = [] := by
  induction n with
  | zero => rfl
  | succ n ih => rw [received_succ, ih, h n, List.append_nil]

end events

section waiting

/-- In AT mode, `bytes` came in since the ring buffer was empty. -/
structure Heard (bytes : List UInt8) (s : State) : Prop where
  ring : s.btRb = bytes
  result : s.bt.cmdResult = decide (75 ∈ bytes)
  state : s.bt.btState = .atMode

theorem Heard.rounds (h : Heard bytes s) (k : ℕ) : Heard bytes { s with rounds := k } := ⟨h.ring, h.result, h.state⟩

theorem heard_insert (hring : s.btRb = bytes) (hroom : bytes.length < btRingbufferSize)
    (hresult : s.bt.cmdResult = decide (75 ∈ bytes ++ [b])) (hstate : s.bt.btState = .atMode) :
    Heard (bytes ++ [b]) (ringBufferInsert b s) := by
  have hroom' : s.btRb.length < btRingbufferSize := by
    rw [hring]
    exact hroom
  rw [ringBufferInsert, if_pos hroom']
  exact ⟨congrArg (· ++ [b]) hring, hresult, hstate⟩

theorem Heard.rx (h : Heard bytes s) (hb : b ≠ 42) (hroom : bytes.length < btRingbufferSize) :
    Heard (bytes ++ [b]) (occur s (.rx b)) := by
  have hresult : decide (75 ∈ bytes ++ [b]) = (decide (75 ∈ bytes) || decide (b = 75)) := by
    simp only [List.mem_append, List.mem_singleton, Bool.decide_or, eq_comm]
  rw [occur, btHc06IntEventHandler]
  by_cases hK : b = 75
  · have h35 : ¬b = 35 := by
      rw [hK]
      decide
    simp only [if_pos hK, if_neg hb, if_neg h35]
    apply heard_insert
    · exact h.ring
    · exact hroom
    · rw [hresult, decide_eq_true hK, Bool.or_true]
    · rfl
  · simp only [if_neg hK, if_neg hb]
    have hkeep : (if b = 35 then { s with bt := { s.bt with btState := .atMode } } else s) = s := by
      split_ifs
      · rw [← h.state]
      · rfl
    rw [hkeep]
    apply heard_insert
    · exact h.ring
    · exact hroom
    · rw [hresult, decide_eq_false hK, Bool.or_false]
      exact h.result
    · exact h.state

theorem Heard.ms (h : Heard bytes s) : Heard bytes (occur s .ms) := by
  rw [occur]
  split_ifs
  · exact ⟨h.ring, h.result, h.state⟩
  · exact h

theorem Heard.occurs (es : List Event) (h : Heard bytes s) (hstar : 42 ∉ rxBytes es)
    (hroom : (bytes ++ rxBytes es).length ≤ btRingbufferSize) : Heard (bytes ++ rxBytes es) (es.foldl occur s) := by
  induction es generalizing s bytes with
  | nil =>
    rw [rxBytes, List.filterMap_nil, List.append_nil]
    exact h
  | cons e es ih =>
    cases e with
    | rx b =>
      have hcons : rxBytes (.rx b :: es) = b :: rxBytes es := rfl
      rw [hcons, List.mem_cons, not_or] at hstar
      rw [hcons, List.length_append, List.length_cons] at hroom
      have hnext := ih (h.rx (Ne.symm hstar.1) (by omega)) hstar.2 (by
        rw [List.length_append, List.length_append, List.length_singleton]
        omega)
      rw [List.append_assoc] at hnext
      rw [hcons]
      exact hnext
    | ms => exact ih h.ms hstar hroom

theorem occur_responseLen (e : Event) : (occur s e).bt.responseLen = s.bt.responseLen := by
  cases e with
  | rx b =>
    rw [occur, btHc06IntEventHandler]
    simp only [ringBufferInsert]
    split_ifs <;> rfl
  | ms =>
    rw [occur]
    split_ifs <;> rfl

theorem occurs_responseLen (es : List Event) : (es.foldl occur s).bt.responseLen = s.bt.responseLen := by
  induction es generalizing s with
  | nil => rfl
  | cons e es ih => rw [List.foldl_cons, ih, occur_responseLen]

theorem rx_timer : (occur s (.rx b)).timer0 = s.timer0 ∧ (occur s (.rx b)).timer0Enabled = s.timer0Enabled := by
  rw [occur, btHc06IntEventHandler]
  simp only [ringBufferInsert]
  split_ifs <;> exact ⟨rfl, rfl⟩

theorem occurs_timer (es : List Event) (h : s.timer0Enabled = true) :
    (es.foldl occur s).timer0 = s.timer0 + msCount es ∧ (es.foldl occur s).timer0Enabled = true := by
  induction es generalizing s with
  | nil => exact ⟨rfl, h⟩
  | cons e es ih =>
    rw [List.foldl_cons]
    cases e with
    | rx b =>
      have hcount : msCount (.rx b :: es) = msCount es := rfl
      obtain ⟨htimer, henabled⟩ := @rx_timer s b
      rw [hcount, ← htimer]
      exact ih (henabled.trans h)
    | ms =>
      have hcount : msCount (.ms :: es) = msCount es + 1 := List.countP_cons_of_pos rfl
      have hms : occur s .ms = { s with timer0 := s.timer0 + 1 } := if_pos h
      rw [hcount, hms, Nat.add_comm (msCount es), ← Nat.add_assoc]
      exact ih h

/-- A command waits; `n` milliseconds went by since its start. -/
structure Waits (len : ℕ) (bytes : List UInt8) (n : ℕ) (s : State) : Prop extends Heard bytes s where
  timer : s.timer0 = n
  enabled : s.timer0Enabled = true
  responseLen : s.bt.responseLen = len

/-- The command waits in round `j`. -/
def WaitsAt (during : ℕ → List Event) (len j : ℕ) (s : State) : Prop :=
  s.rounds = j ∧ Waits len (received during j) (elapsed during j) s

theorem WaitsAt.poll (h : WaitsAt during len j s) (hstar : 42 ∉ received during (j + 1))
    (hroom : (received during (j + 1)).length ≤ btRingbufferSize) :
    WaitsAt during len (j + 1) { (during s.rounds).foldl occur s with rounds := s.rounds + 1 } := by
  obtain ⟨rfl, hw⟩ := h
  rw [received_succ] at hstar hroom
  have hheard := hw.toHeard.occurs (during s.rounds) (fun hmem => hstar (List.mem_append_right _ hmem)) hroom
  obtain ⟨htimer, henabled⟩ := occurs_timer (during s.rounds) hw.enabled
  refine ⟨rfl, ?_⟩
  rw [received_succ, elapsed_succ, ← hw.timer]
  exact ⟨⟨hheard.ring, hheard.result, hheard.state⟩, htimer, henabled, (occurs_responseLen _).trans hw.responseLen⟩

end waiting

section loops

/-- The state in which a command may start. -/
def Ready (s : State) : Prop := Heard [] s

theorem resultLoop_silent (hsilent : ∀ n, Silent (during n)) (htime : TimePasses during)
    (h : WaitsAt during len 0 s) :
    (Prog.loop (resultRound during) ()).Achieves s fun r t => r = false ∧ Ready t := by
  obtain ⟨m, hm⟩ := htime timeoutValue
  apply Prog.loop_achieves (I := fun d _ t => ∃ j, j + d = m ∧ WaitsAt during len j t)
  · rintro d ⟨⟩ t ⟨j, hd, hw⟩
    have hnext := hw.poll (by rw [received_silent hsilent]; exact List.not_mem_nil)
      (by rw [received_silent hsilent]; exact Nat.zero_le _)
    apply Prog.achieves_modify_bind
    apply Prog.achieves_get_bind
    have hheard := hnext.2.toHeard
    rw [received_silent hsilent] at hheard
    rw [hheard.result, decide_eq_false List.not_mem_nil, if_neg Bool.false_ne_true]
    by_cases hout : elapsed during (j + 1) ≥ timeoutValue
    · rw [hnext.2.timer, if_pos hout]
      apply Prog.achieves_modify_bind
      apply Prog.achieves_pure
      exact Or.inl ⟨false, rfl, rfl, ⟨hheard.ring, hheard.result, hheard.state⟩⟩
    · rw [hnext.2.timer, if_neg hout]
      apply Prog.achieves_pure
      have hlt : j + 1 < m := by
        by_contra hle
        exact hout (hm.trans (elapsed_mono (not_lt.mp hle)))
      exact Or.inr ⟨(), rfl, d - 1, by omega, j + 1, by omega, hnext⟩
  · exact ⟨0, Nat.zero_add m, h⟩

theorem resultLoop_inTime (ha : received during (m + 1) = a) (hK : 75 ∈ a) (hstar : 42 ∉ a)
    (hroom : a.length ≤ btRingbufferSize) (htime : elapsed during m < timeoutValue) (h : WaitsAt during len 0 s) :
    (Prog.loop (resultRound during) ()).Achieves s fun r t => r = true ∧ ∃ j ≤ m + 1, WaitsAt during len j t := by
  apply Prog.loop_achieves (I := fun d _ t => ∃ j, j + d = m ∧ WaitsAt during len j t)
  · rintro d ⟨⟩ t ⟨j, hd, hw⟩
    have hpre : received during (j + 1) <+: a := by
      rw [← ha]
      exact received_prefix (by omega)
    have hnext := hw.poll (fun hmem => hstar (hpre.subset hmem)) (hpre.length_le.trans hroom)
    apply Prog.achieves_modify_bind
    apply Prog.achieves_get_bind
    by_cases hmem : 75 ∈ received during (j + 1)
    · have hdone := hnext.2.result
      rw [decide_eq_true hmem] at hdone
      rw [hdone, if_pos rfl]
      apply Prog.achieves_pure
      exact Or.inl ⟨true, rfl, rfl, j + 1, by omega, hnext⟩
    · have hwait := hnext.2.result
      rw [decide_eq_false hmem] at hwait
      have hlt : j + 1 ≤ m := by
        by_contra hle
        have heq : j = m := by omega
        rw [heq, ha] at hmem
        exact hmem hK
      have hearly : ¬elapsed during (j + 1) ≥ timeoutValue := by
        have hmono := @elapsed_mono during _ _ hlt
        omega
      rw [hwait, if_neg Bool.false_ne_true, hnext.2.timer, if_neg hearly]
      apply Prog.achieves_pure
      exact Or.inr ⟨(), rfl, d - 1, by omega, j + 1, by omega, hnext⟩
  · exact ⟨0, Nat.zero_add m, h⟩

theorem countLoop_inTime (ha : received during (m + 1) = a) (hstar : 42 ∉ a) (hroom : a.length ≤ btRingbufferSize)
    (hlen : a.length = len) (hj : j ≤ m + 1) (h : WaitsAt during len j s) :
    (Prog.loop (countRound during) ()).Achieves s fun _ t => ∃ n, Waits len a n t := by
  apply Prog.loop_achieves (I := fun d _ t => ∃ j, j + d = m + 1 ∧ WaitsAt during len j t)
  · rintro d ⟨⟩ t ⟨j, hd, hw⟩
    have hpre : ∀ k ≤ m + 1, received during k <+: a := by
      intro k hk
      rw [← ha]
      exact received_prefix hk
    apply Prog.achieves_get_bind
    rw [hw.2.ring, hw.2.responseLen]
    by_cases hshort : (received during j).length < len
    · rw [if_pos hshort]
      have hlt : j + 1 ≤ m + 1 := by
        by_contra hle
        have heq : j = m + 1 := by omega
        rw [heq, ha, hlen] at hshort
        exact absurd hshort (lt_irrefl _)
      apply Prog.achieves_modify_bind
      apply Prog.achieves_pure
      have hnext := hw.poll (fun hmem => hstar ((hpre _ hlt).subset hmem)) ((hpre _ hlt).length_le.trans hroom)
      exact Or.inr ⟨(), rfl, d - 1, by omega, j + 1, by omega, hnext⟩
    · rw [if_neg hshort]
      apply Prog.achieves_pure
      have heq : received during j = a := (hpre j (by omega)).eq_of_length_le (by omega)
      have hdone := hw.2
      rw [heq] at hdone
      exact Or.inl ⟨(), rfl, _, hdone⟩
  · exact ⟨j, Nat.add_sub_of_le hj, h⟩

end loops

section commands

/-- The data buffer with a response in it. -/
def padded (a : List UInt8) : List UInt8 := a ++ List.replicate (btDataBuff - a.length) 0

theorem Ready.waitsAt (hs : Ready s) (hr : s.rounds = 0) {sent : List UInt8} : WaitsAt during s.bt.responseLen 0
    { s with sent := sent, timer0 := 0, timer0Enabled := true } :=
  ⟨hr, ⟨⟨hs.ring, hs.result, hs.state⟩, rfl, rfl, rfl⟩⟩

theorem parse_silent (hs : Ready s) (hr : s.rounds = 0) (hsilent : ∀ n, Silent (during n)) (htime : TimePasses during) :
    (parseHc06Command during).Achieves s fun r t => r = .message "Timeout..." ∧ Ready t := by
  apply Prog.achieves_get_bind
  apply Prog.achieves_modify_bind
  apply Prog.achieves_modify_bind
  apply (resultLoop_silent hsilent htime (hs.waitsAt hr)).bind
  rintro r t ⟨rfl, ht⟩
  exact Prog.achieves_pure ⟨rfl, ht⟩

/-- The response has the length that the code expects, begins as it should and does not end the AT mode. -/
structure Expected (len : ℕ) (a : List UInt8) : Prop where
  length : a.length = len
  ok : a.take 2 = text "OK"
  star : 42 ∉ a

theorem Expected.mem_K (h : Expected len a) : 75 ∈ a := by
  have hmem : (75 : UInt8) ∈ a.take 2 := by
    rw [h.ok]
    decide
  exact List.mem_of_mem_take hmem

theorem takeResponse_achieves {n : ℕ} (hs : Waits len a n s) (ha : Expected len a) :
    takeResponse.Achieves s fun r t => r = .dataBuffer (padded a) ∧ Ready t := by
  have hbuffer : a ++ (List.replicate btDataBuff (0 : UInt8)).drop a.length = padded a := by
    rw [List.drop_replicate, padded]
  have htake : s.btRb.take s.bt.responseLen = a := by
    rw [hs.ring, hs.responseLen, ← ha.length, List.take_length]
  have hdrop : s.btRb.drop s.bt.responseLen = [] := by
    rw [hs.ring, hs.responseLen, ← ha.length, List.drop_length]
  have hok : (padded a).take 2 = text "OK" := by
    have htwo := congrArg List.length ha.ok
    have hlen : (text "OK").length = 2 := rfl
    rw [List.length_take] at htwo
    rw [padded, List.take_append_of_le_length (by omega), ha.ok]
  apply Prog.achieves_modify_bind
  apply Prog.achieves_get_bind
  apply Prog.achieves_modify_bind
  apply Prog.achieves_get_bind
  dsimp only
  rw [htake, hdrop, hbuffer, if_pos hok]
  apply Prog.achieves_modify_bind
  exact Prog.achieves_pure ⟨rfl, rfl, (decide_eq_false List.not_mem_nil).symm, hs.state⟩

theorem parse_inTime (hs : Ready s) (hr : s.rounds = 0) (ha : Expected s.bt.responseLen a)
    (hroom : a.length ≤ btRingbufferSize) (h : InTime a during) :
    (parseHc06Command during).Achieves s fun r t => r = .dataBuffer (padded a) ∧ Ready t := by
  obtain ⟨m, hreceived, helapsed, -⟩ := h
  apply Prog.achieves_get_bind
  apply Prog.achieves_modify_bind
  apply Prog.achieves_modify_bind
  apply (resultLoop_inTime hreceived ha.mem_K ha.star hroom helapsed (hs.waitsAt hr)).bind
  rintro r t ⟨rfl, j, hj, ht⟩
  apply (countLoop_inTime hreceived ha.star hroom ha.length hj ht).bind
  rintro ⟨⟩ u ⟨n, hu⟩
  exact takeResponse_achieves hu ha

namespace Call

/-- The length that `bt_GetDataStruct` sets for the response. -/
def responseLen (c : Call) : ℕ := (c.cmdType.map fun br => (dataOf br).2.2).getD 0

/-- The arguments fit into the command buffer. -/
def Short : Call → Prop
  | getVersion => True
  | changeDisplayName name => name.length ≤ 16
  | changePin pin => pin.length ≤ 4
  | changeBaudrate baud => baud ≤ 1382400

theorem responseLen_le (c : Call) : c.responseLen ≤ btRingbufferSize := by
  rw [responseLen]
  cases c.cmdType with
  | none => exact Nat.zero_le _
  | some br => cases br <;> decide

theorem argument_achieves {Q : Result → State → Prop} {br : CmdType} {arg : List UInt8}
    (hfits : ((dataOf br).1 ++ arg).length < btDataBuff) (hs : Ready s) (hr : s.rounds = 0)
    (hparse : ∀ u, Ready u → u.rounds = 0 → u.bt.responseLen = (dataOf br).2.2 → (parseHc06Command during).Achieves u Q) :
    (do btGetDataStruct (some br); appendArgument arg; parseHc06Command during).Achieves s Q := by
  apply Prog.achieves_modify_bind
  refine Prog.Returns.achieves (Prog.returns_attempt.mpr (if_pos hfits)) ?_
  exact hparse _ ⟨hs.ring, hs.result, hs.state⟩ hr rfl

theorem exec_achieves {c : Call} {Q : Result → State → Prop} (hc : c.Short) (hs : Ready s) (hr : s.rounds = 0)
    (hparse : ∀ u, Ready u → u.rounds = 0 → u.bt.responseLen = c.responseLen → (parseHc06Command during).Achieves u Q) :
    (c.exec during).Achieves s Q := by
  have hmode : ¬s.bt.btState ≠ .atMode := not_not.mpr hs.state
  cases c with
  | getVersion =>
    apply Prog.achieves_get_bind
    rw [if_neg hmode]
    apply Prog.achieves_modify_bind
    apply Prog.achieves_modify_bind
    exact hparse _ ⟨hs.ring, hs.result, hs.state⟩ hr rfl
  | changeDisplayName name =>
    have hlen : name.length ≤ 16 := hc
    have hfits : ((dataOf .atname).1 ++ name).length < btDataBuff := by
      have hcmd : (dataOf .atname).1.length = 7 := rfl
      rw [List.length_append, hcmd, btDataBuff]
      omega
    rw [exec, btChangeDisplayName, if_neg (by omega)]
    apply Prog.achieves_get_bind
    rw [if_neg hmode]
    exact argument_achieves hfits hs hr hparse
  | changePin pin =>
    have hlen : pin.length ≤ 4 := hc
    have hfits : ((dataOf .atpin).1 ++ pin).length < btDataBuff := by
      have hcmd : (dataOf .atpin).1.length = 6 := rfl
      rw [List.length_append, hcmd, btDataBuff]
      omega
    apply Prog.achieves_get_bind
    rw [if_neg hmode, if_neg (by omega)]
    exact argument_achieves hfits hs hr hparse
  | changeBaudrate baud =>
    have hbaud : ¬baud > 1382400 := Int.not_lt.mpr hc
    apply Prog.achieves_get_bind
    rw [if_neg hmode, if_neg hbaud]
    apply Prog.achieves_modify_bind
    apply Prog.achieves_modify_bind
    cases hbr : getBaudrateType baud with
    | none =>
      refine hparse _ ⟨hs.ring, hs.result, hs.state⟩ hr ?_
      rw [responseLen, cmdType, hbr]
      rfl
    | some br =>
      refine hparse _ ⟨hs.ring, hs.result, hs.state⟩ hr ?_
      rw [responseLen, cmdType, hbr]
      rfl

theorem documented_expected {c : Call} (h : c.documented = some a) :
    Expected c.responseLen a ↔ c.cmdType ≠ some .b460800 := by
  have hall : ∀ br, br ≠ .b460800 → Expected (dataOf br).2.2 (dataOf br).2.1 := by
    intro br hbr
    cases br <;> first | exact absurd rfl hbr | exact ⟨rfl, rfl, by decide⟩
  cases c with
  | getVersion =>
    cases h
    exact iff_of_true (hall .atver (by decide)) (by decide)
  | changeDisplayName name =>
    cases h
    exact iff_of_true (hall .atname (by decide)) fun h => absurd (Option.some.inj h) (by decide)
  | changePin pin =>
    cases h
    exact iff_of_true (hall .atpin (by decide)) fun h => absurd (Option.some.inj h) (by decide)
  | changeBaudrate baud =>
    obtain ⟨br, hbr, rfl⟩ := Option.map_eq_some_iff.mp h
    rw [responseLen, cmdType, hbr]
    by_cases h460 : br = .b460800
    · rw [h460]
      exact iff_of_false (fun he => absurd he.length (by decide)) fun hne => hne rfl
    · rw [if_neg h460]
      exact iff_of_true (hall br h460) fun heq => h460 (Option.some.inj heq)

end Call

end commands

section run

namespace Exchange

/-- The result is the timeout text, or the response that came in for this command. -/
def Answered (ex : Exchange) (r : Result) : Prop :=
  r = .message "Timeout..." ∨ ∃ a, InTime a ex.during ∧ r = .dataBuffer (padded a)

/-- No late response comes in before the command, its argument fits into the buffer, and the module
is silent or its response in time is as the code expects it. -/
structure Proper (ex : Exchange) : Prop where
  before : Silent ex.before
  short : ex.call.Short
  time : TimePasses ex.during
  answer : (∀ n, Silent (ex.during n)) ∨ ∃ a, Expected ex.call.responseLen a ∧ InTime a ex.during

theorem run_achieves {ex : Exchange} (h : ex.Proper) (hs : Ready s) :
    ex.run.Achieves s fun r t => ex.Answered r ∧ Ready t := by
  have hheard : Heard [] (ex.before.foldl occur s) := by
    have hbefore := hs.occurs ex.before (by rw [h.before]; exact List.not_mem_nil) (by rw [h.before]; exact Nat.zero_le _)
    rwa [h.before] at hbefore
  have hready : Ready { ex.before.foldl occur s with rounds := 0 } := hheard.rounds 0
  apply Prog.achieves_modify_bind
  apply Call.exec_achieves h.short hready rfl
  intro u hu hr hlen
  rcases h.answer with hsilent | ⟨a, ha, hin⟩
  · exact (parse_silent hu hr hsilent h.time).imp fun r t hrt => ⟨Or.inl hrt.1, hrt.2⟩
  · have hroom : a.length ≤ btRingbufferSize := by
      rw [ha.length]
      exact ex.call.responseLen_le
    rw [← hlen] at ha
    exact (parse_inTime hu hr ha hroom hin).imp fun r t hrt => ⟨Or.inr ⟨a, hin, hrt.1⟩, hrt.2⟩

end Exchange

/-- Every call of the run returns, with its own response or with the timeout text. -/
def Pairs (run : List Exchange) (s : State) : Prop :=
  (runExchanges run).Achieves s fun rs _ => List.Forall₂ Exchange.Answered run rs

theorem pairs_of_proper {run : List Exchange} (h : ∀ ex ∈ run, ex.Proper) (hs : Ready s) : Pairs run s := by
  induction run generalizing s with
  | nil => exact Prog.achieves_pure .nil
  | cons ex run ih =>
    obtain ⟨hex, hrun⟩ := List.forall_mem_cons.mp h
    apply (Exchange.run_achieves hex hs).bind
    rintro r t ⟨hr, ht⟩
    apply (ih hrun ht).bind
    intro rs u hrs
    exact Prog.achieves_pure (.cons hr hrs)

/-- The driver in AT mode, with nothing received. -/
def start : State := ⟨⟨false, .atMode, [], [], List.replicate btDataBuff 0, 0, 0⟩, [], [], 0, false, [], 0⟩

def silence : ℕ → List Event := fun _ => [.ms]

/-- The bytes come in at once, and then nothing any more. -/
def atOnce (a : List UInt8) : ℕ → List Event
  | 0 => a.map .rx
  | _ + 1 => [.ms]

theorem elapsed_of_ms (h : ∀ n, msCount (during (n + 1)) = 1) (n : ℕ) : n ≤ elapsed during (n + 1) := by
  induction n with
  | zero => exact Nat.zero_le _
  | succ n ih =>
    rw [elapsed_succ, h]
    exact Nat.succ_le_succ ih

theorem silence_passes : TimePasses silence := fun ms => ⟨ms + 1, elapsed_of_ms (fun _ => rfl) ms⟩

theorem atOnce_passes : TimePasses (atOnce a) := fun ms => ⟨ms + 1, elapsed_of_ms (fun _ => rfl) ms⟩

theorem rxBytes_map (a : List UInt8) : rxBytes (a.map .rx) = a := by
  rw [rxBytes, List.filterMap_map]
  exact List.filterMap_some

theorem atOnce_inTime : InTime a (atOnce a) := by
  refine ⟨0, ?_, ?_, fun n hn => ?_⟩
  · rw [received_succ]
    exact rxBytes_map a
  · have hzero : elapsed (atOnce a) 0 = 0 := rfl
    rw [hzero]
    decide
  · cases n with
    | zero => exact absurd hn (lt_irrefl 0)
    | succ n => rfl

def silentPin : Exchange := ⟨[], .changePin (text "1234"), silence⟩

def answeredVersion : Exchange := ⟨[], .getVersion, atOnce (text "OKLinvorV1.8")⟩

/-- The version is asked for when the late response to a PIN command is there. -/
def lateVersion : Exchange := ⟨(text "OKsetpin").map .rx, .getVersion, silence⟩

theorem silentPin_proper : silentPin.Proper := by
  have hpin : (text "1234").length ≤ 4 := by decide
  have hsilent : ∀ n, Silent (silence n) := fun _ => rfl
  exact ⟨rfl, hpin, silence_passes, Or.inl hsilent⟩

theorem start_ready : Ready start := ⟨rfl, rfl, rfl⟩

theorem pairs_version_after_silence : Pairs [silentPin, answeredVersion] start := by
  apply pairs_of_proper
  · have hversion : Expected Call.getVersion.responseLen (text "OKLinvorV1.8") := ⟨rfl, rfl, by decide⟩
    intro ex hex
    rcases List.mem_cons.mp hex with rfl | hex
    · exact silentPin_proper
    · rw [List.mem_singleton.mp hex]
      exact ⟨rfl, trivial, atOnce_passes, Or.inr ⟨_, hversion, atOnce_inTime⟩⟩
  · exact start_ready

/-- A state in which the late response to a PIN command is there, and the version is asked for. -/
structure Stale (s : State) : Prop extends Heard (text "OKsetpin") s where
  responseLen : s.bt.responseLen = 12

theorem Stale.poll (h : Stale s) : Stale { (silence s.rounds).foldl occur s with rounds := s.rounds + 1 } := by
  have hms := h.toHeard.ms
  exact ⟨⟨hms.ring, hms.result, hms.state⟩, (occur_responseLen .ms).trans h.responseLen⟩

theorem resultLoop_stale (h : Stale s) {r : Bool} (hr : (Prog.loop (resultRound silence) ()).Returns s r t) :
    r = true ∧ Stale t := by
  have hpoll := h.poll
  have hK : (75 : UInt8) ∈ text "OKsetpin" := by decide
  have hround : (resultRound silence ()).Returns s (.inr true)
      { (silence s.rounds).foldl occur s with rounds := s.rounds + 1 } := by
    apply Prog.modify_bind_returns.mpr
    apply Prog.get_bind_returns.mpr
    rw [hpoll.result, decide_eq_true hK, if_pos rfl]
    exact Prog.returns_pure.mpr ⟨rfl, rfl⟩
  obtain ⟨rfl, rfl⟩ := (Prog.loop_inr hround).unique hr
  exact ⟨rfl, hpoll⟩

theorem countLoop_stale (h : Stale s) : ¬(Prog.loop (countRound silence) ()).Terminates s := by
  apply Prog.loop_diverges (I := fun _ t => Stale t) _ h
  rintro ⟨⟩ u z v hu hr
  have hr := Prog.get_bind_returns.mp hr
  have hshort : (text "OKsetpin").length < 12 := by decide
  rw [hu.ring, hu.responseLen, if_pos hshort] at hr
  have hr := Prog.modify_bind_returns.mp hr
  obtain ⟨rfl, rfl⟩ := Prog.returns_pure.mp hr
  exact ⟨(), rfl, hu.poll⟩

/-- With the late response to another command in the ring buffer and no other one to come, the version is
waited for without an end. -/
theorem version_diverges (hs : Heard (text "OKsetpin") s) : ¬(btGetVersion silence).Terminates s := by
  rintro ⟨r, t, hr⟩
  have hr := Prog.get_bind_returns.mp hr
  rw [if_neg (not_not.mpr hs.state)] at hr
  have hr := Prog.modify_bind_returns.mp hr
  have hr := Prog.modify_bind_returns.mp hr
  have hr := Prog.get_bind_returns.mp hr
  have hr := Prog.modify_bind_returns.mp hr
  have hr := Prog.modify_bind_returns.mp hr
  obtain ⟨b, u, hloop, hr⟩ := Prog.returns_bind.mp hr
  have hstale := fun h => resultLoop_stale h hloop
  obtain ⟨rfl, hu⟩ := hstale ⟨⟨hs.ring, hs.result, hs.state⟩, rfl⟩
  obtain ⟨_, v, hcount, -⟩ := Prog.returns_bind.mp hr
  exact countLoop_stale hu hcount.terminates

theorem lateVersion_diverges (hs : Ready s) : ¬lateVersion.run.Terminates s := by
  rintro ⟨r, t, hr⟩
  have hbytes : rxBytes lateVersion.before = text "OKsetpin" := rxBytes_map _
  have hheard := hs.occurs lateVersion.before (by rw [hbytes]; decide) (by rw [hbytes]; decide)
  rw [hbytes, List.nil_append] at hheard
  have hexec : lateVersion.call.exec lateVersion.during = btGetVersion silence := rfl
  rw [Exchange.run, Prog.modify_bind_returns, hexec] at hr
  exact version_diverges (hheard.rounds 0) hr.terminates

theorem late_response_not_paired : ¬Pairs [silentPin, lateVersion] start := by
  rintro ⟨rs, t, hr, -⟩
  obtain ⟨r, u, hfirst, hr⟩ := Prog.returns_bind.mp hr
  obtain ⟨rs', v, hrest, -⟩ := Prog.returns_bind.mp hr
  obtain ⟨r', w, hsecond, -⟩ := Prog.returns_bind.mp hrest
  obtain ⟨r'', u', hr'', -, hready⟩ := Exchange.run_achieves silentPin_proper start_ready
  obtain ⟨-, rfl⟩ := hr''.unique hfirst
  exact lateVersion_diverges hready hsecond.terminates

end run

end Lpc1788Libraries.Bluetooth

import Lpc1788Libraries.WiFi.EspReception

namespace Lpc1788Libraries.WiFi

open Lpc1788Libraries.Support BoundedProgram

/-- The text `+IPD,n,size,ip,port:` in front of the data of a packet. -/
structure PacketHeader (size : ℕ) where
  digits : List UInt8
  ip : List UInt8
  port : List UInt8
  digits_num : ∀ x ∈ digits, charIsNum x = true
  digits_ne : digits ≠ []
  digits_le : digits.length ≤ 4
  value : (parseDigits 0 digits).1 = size
  ip_chars : ∀ x ∈ ip, charIsNum x = true ∨ x = 0x2e
  ip_le : ip.length ≤ 15
  port_num : ∀ x ∈ port, charIsNum x = true
  port_le : port.length ≤ 5

variable {p : Platform} {n m : Fin 5} {e : Esp8266} {a : Reception} {size : ℕ}

theorem lineOf_eq_take {l : List UInt8} {d : UInt8} {k : ℕ} : lineOf d k l = l.take (lineOf d k l).length := by
  induction k generalizing l with
  | zero => simp [lineOf]
  | succ k ih =>
    cases l with
    | nil => simp [lineOf]
    | cons x l =>
      simp only [lineOf]
      split
      · simp
      · rw [List.length_cons, List.take_succ_cons, ← ih]

theorem length_lineOf_le {l : List UInt8} {d : UInt8} {k : ℕ} :
    (lineOf d k l).length ≤ k ∧ (lineOf d k l).length ≤ l.length := by
  induction k generalizing l with
  | zero => simp [lineOf]
  | succ k ih =>
    cases l with
    | nil => simp [lineOf]
    | cons x l =>
      simp only [lineOf]
      split
      · simp
      · have := @ih l
        simp only [List.length_cons]
        omega

theorem lineOf_append {l l' : List UInt8} {d : UInt8} {k : ℕ} (h : d ∈ l ∨ k ≤ l.length) :
    lineOf d k (l ++ l') = lineOf d k l := by
  induction k generalizing l with
  | zero => rfl
  | succ k ih =>
    cases l with
    | nil => simp at h
    | cons x l =>
      simp only [List.cons_append, lineOf]
      by_cases hx : x = d
      · simp [hx]
      · rw [if_neg hx, if_neg hx, ih]
        rcases h with h | h
        · exact .inl ((List.mem_cons.mp h).resolve_left (Ne.symm hx))
        · exact .inr (Nat.le_of_succ_le_succ h)

theorem lineOf_prefix {l l' : List UInt8} {d : UInt8} {k : ℕ} (hd : d ∉ l) :
    lineOf d (l.length + k) (l ++ l') = l ++ lineOf d k l' := by
  induction l with
  | nil => simp
  | cons x l ih =>
    have hx : x ≠ d := fun h => hd (h ▸ List.mem_cons_self)
    rw [List.length_cons, Nat.add_right_comm, List.cons_append, List.cons_append]
    simp only [lineOf, hx, if_false]
    rw [ih fun h => hd (List.mem_cons_of_mem _ h)]

theorem parseDigits_append {l l' : List UInt8} {sum : ℤ} (hl : ∀ x ∈ l, charIsNum x = true)
    (hl' : ∀ x, l'.head? = some x → charIsNum x = false) :
    parseDigits sum (l ++ l') = ((parseDigits sum l).1, l.length) := by
  induction l generalizing sum with
  | nil =>
    cases l' with
    | nil => rfl
    | cons x l' => simp [parseDigits, hl' x rfl]
  | cons x l ih =>
    have hx := hl x List.mem_cons_self
    simp [parseDigits, hx, ih fun y hy => hl y (List.mem_cons_of_mem _ hy)]

namespace PacketHeader

variable (h : PacketHeader size) (n) (payload : List UInt8)

def text : List UInt8 :=
  ascii "+IPD," ++ digit n :: 0x2c :: (h.digits ++ 0x2c :: (h.ip ++ 0x2c :: (h.port ++ [0x3a])))

/-- The part of the payload that is in one line with the header. -/
def firstPart : List UInt8 := lineOf 0x0a (receivedSize - 1 - (h.text n).length) payload

def firstLine : List UInt8 := h.text n ++ h.firstPart n payload

variable {h n payload}

theorem length_text : (h.text n).length = 10 + h.digits.length + h.ip.length + h.port.length := by
  have : (ascii "+IPD,").length = 5 := by decide
  simp only [text, List.length_append, List.length_cons, List.length_nil, this]
  omega

theorem text_eq : h.text n = 0x2b :: 0x49 :: 0x50 :: 0x44 :: 0x2c :: digit n :: 0x2c ::
    (h.digits ++ 0x2c :: (h.ip ++ 0x2c :: (h.port ++ [0x3a]))) := by
  have : ascii "+IPD," = [0x2b, 0x49, 0x50, 0x44, 0x2c] := by decide
  rw [text, this]
  rfl

theorem text_colon : ∃ l, h.text n = l ++ [0x3a] ∧ 0x3a ∉ l ∧ 0x0a ∉ l := by
  have num : ∀ x, charIsNum x = true → x ≠ 0x3a ∧ x ≠ 0x0a := by
    intro x hx
    constructor <;> rintro rfl <;> simp [charIsNum] at hx
  have hdigit : digit n ≠ 0x3a ∧ digit n ≠ 0x0a := by
    revert n
    decide
  have hdigits : 0x3a ∉ h.digits ∧ 0x0a ∉ h.digits :=
    ⟨fun hx => (num _ (h.digits_num _ hx)).1 rfl, fun hx => (num _ (h.digits_num _ hx)).2 rfl⟩
  have hport : 0x3a ∉ h.port ∧ 0x0a ∉ h.port :=
    ⟨fun hx => (num _ (h.port_num _ hx)).1 rfl, fun hx => (num _ (h.port_num _ hx)).2 rfl⟩
  have hip : 0x3a ∉ h.ip ∧ 0x0a ∉ h.ip := by
    constructor <;> intro hx <;> rcases h.ip_chars _ hx with hc | hc
    · exact (num _ hc).1 rfl
    · exact absurd hc (by decide)
    · exact (num _ hc).2 rfl
    · exact absurd hc (by decide)
  refine ⟨0x2b :: 0x49 :: 0x50 :: 0x44 :: 0x2c :: digit n :: 0x2c ::
    (h.digits ++ 0x2c :: (h.ip ++ 0x2c :: h.port)), ?_, ?_, ?_⟩
  · rw [text_eq]
    simp
  · simp [hdigits, hport, hip, hdigit.1.symm]
  · simp [hdigits, hport, hip, hdigit.2.symm]

theorem lineFeed_not_mem_text : 0x0a ∉ h.text n := by
  obtain ⟨l, hl, -, hn⟩ := h.text_colon (n := n)
  rw [hl]
  simp [hn]

theorem length_text_le : (h.text n).length ≤ 34 := by
  have h1 := h.digits_le
  have h2 := h.ip_le
  have h3 := h.port_le
  rw [length_text]
  omega

theorem length_firstPart_le : (h.firstPart n payload).length ≤ payload.length := length_lineOf_le.2

theorem firstPart_eq_take : h.firstPart n payload = payload.take (h.firstPart n payload).length :=
  lineOf_eq_take

end PacketHeader

theorem strEq_cons {x : UInt8} {l : List UInt8} {pattern : String} (hx : x ≠ 0)
    (hp : (ascii pattern).head? ≠ some x) : strEq (x :: l) pattern = false := by
  have hcut : cString (x :: l) = x :: cString l := List.takeWhile_cons_of_pos (by simpa using hx)
  unfold strEq
  apply decide_eq_false
  rw [hcut]
  intro heq
  rw [← heq] at hp
  exact hp rfl

theorem connectionOf_digit : connectionOf (digit n) = some n := by
  revert n
  decide

theorem char2Num_digit : char2Num (digit n) = UInt8.ofNat n := by
  revert n
  decide

variable {h : PacketHeader size} {part payload : List UInt8}

theorem parse_header (n : Fin 5) (h : PacketHeader size) (part : List UInt8) :
    strStarts (h.text n ++ part) "+IPD," = true ∧ (h.text n ++ part).getD 5 0 = digit n ∧
      (h.text n ++ part).findIdx? (· = 0x3a) = some ((h.text n).length - 1) ∧
      (parseNumber ((h.text n ++ part).drop 7)).1 = size := by
  refine ⟨?_, ?_, ?_, ?_⟩
  · have hascii : ascii "+IPD," = [0x2b, 0x49, 0x50, 0x44, 0x2c] := by decide
    rw [strStarts, hascii, h.text_eq]
    simp [cString]
  · rw [h.text_eq]
    rfl
  · obtain ⟨l, hl, hcolon, -⟩ := h.text_colon (n := n)
    have hskip : l.findIdx? (fun x => decide (x = 0x3a)) = none := by
      rw [List.findIdx?_eq_none_iff]
      intro x hx
      simpa using fun heq : x = 0x3a => hcolon (heq ▸ hx)
    rw [hl, List.append_assoc, List.findIdx?_append, hskip]
    simp [List.findIdx?_cons]
  · obtain ⟨x, l, hd⟩ : ∃ x l, h.digits = x :: l := List.exists_cons_of_ne_nil h.digits_ne
    have hx : x ≠ 0x2d := by
      have := h.digits_num x (by rw [hd]; exact List.mem_cons_self)
      rintro rfl
      simp [charIsNum] at this
    have hdrop : (h.text n ++ part).drop 7 =
        h.digits ++ 0x2c :: (h.ip ++ 0x2c :: (h.port ++ 0x3a :: part)) := by
      rw [h.text_eq]
      simp
    let rest := 0x2c :: (h.ip ++ 0x2c :: (h.port ++ 0x3a :: part))
    have hsize : parseDigits 0 (h.digits ++ rest) = ((parseDigits 0 h.digits).1, h.digits.length) :=
      parseDigits_append h.digits_num (by simp [rest, charIsNum])
    rw [hdrop]
    rw [hd, List.cons_append] at hsize ⊢
    simp only [parseNumber, hx, if_false]
    rw [hsize, ← hd, h.value]

/-- What the reception is after the header line, with the data that came in it. -/
def Reception.started (a : Reception) (n : Fin 5) (size header : ℕ) (part : List UInt8) : Reception :=
  { a with
    bytesReceived := size
    ipd := ⟨decide (header < size), part.length, part.length, UInt8.ofNat n, true⟩
    data := copyInto a.data 0 part
    dataSize := if size ≤ header then header else a.dataSize
    callData := if size ≤ header then true else a.callData }

theorem parseIpd_header (e : Esp8266) (n : Fin 5) (h : PacketHeader size) (part : List UInt8)
    (hsize : size ≤ connectionBufferSize) (hpart : part.length ≤ size) :
    ∃ e', parseIpd e (h.text n ++ part) true = some e' ∧ e'.activeCommand = e.activeCommand ∧
      reception n e' = (reception n e).started n size (h.text n).length part := by
  obtain ⟨h1, h2, h3, h4⟩ := parse_header n h part
  have hlen := h.length_text (n := n)
  have hmod : ((size : ℤ) % 0x100000000).toNat = size := by
    unfold connectionBufferSize at hsize
    omega
  have hpos : (h.text n).length - 1 + 1 = (h.text n).length := by omega
  have hrest : (h.text n ++ part).length - (h.text n).length = part.length := by
    rw [List.length_append]
    omega
  have hshort : part.length % 0x10000 = part.length := by
    unfold connectionBufferSize at hsize
    omega
  have hdrop : ((h.text n ++ part).drop (h.text n).length).take part.length = part := by
    rw [List.drop_left, List.take_length]
  simp only [parseIpd, h1, if_true, h2, connectionOf_digit, h3, h4, hmod, hpos, hrest,
    Nat.not_lt.mpr hpart, if_false, hdrop, hshort, char2Num_digit]
  refine ⟨_, rfl, rfl, ?_⟩
  simp [reception, Reception.started, Esp8266.setConnection]

/-- The packets that the library receives as they are. Its test for the end of the packet compares
the length of the data with the length of the header, a payload without a line feed takes the bytes
behind it into its line, and the line is read as a response, too. -/
structure Receivable (h : PacketHeader size) (n : Fin 5) (payload : List UInt8) : Prop where
  long : (h.text n).length < size ∨ (h.text n).length = size ∧ h.firstPart n payload = payload
  ends : 0x0a ∈ payload ∨ receivedSize - 1 ≤ (h.text n).length + size
  made : endsWith (h.firstLine n payload) ",CONNECT\r\n" = true →
    (connectionOf (byteBefore (h.firstLine n payload) 10)).isSome
  closed : endsWith (h.firstLine n payload) ",CLOSED\r\n" = false
  failed : (decide (16 < (h.firstLine n payload).length) && strContains ((h.firstLine n payload).drop
    ((h.firstLine n payload).length - 15)) ",CONNECT FAIL\r\n") = true →
    ∃ m ≠ n, connectionOf (byteBefore (h.firstLine n payload) 15) = some m

theorem reception_parseConnection (hc : e.activeCommand = .idle) (hr : Receivable h n payload)
    (hact : (e.connection n).active = true) :
    ∃ e', parseConnection e (h.firstLine n payload) = some e' ∧ e'.activeCommand = .idle ∧
      reception n e' = reception n e := by
  simp only [parseConnection, hr.closed, Bool.false_eq_true, if_false]
  split_ifs with h1 h2 h3
  · obtain ⟨m, hm⟩ := Option.isSome_iff_exists.mp (hr.made h1)
    rw [hm, Option.map_some]
    refine ⟨_, rfl, ?_⟩
    have hidle : (e.setConnection m fun conn =>
        { conn with active := true, number := char2Num (byteBefore (h.firstLine n payload) 10) }).activeCommand =
          .idle := hc
    simp only [connectionMade, hidle, reduceCtorEq, if_false]
    by_cases hmn : n = m
    · subst hmn
      split <;> refine ⟨hc, ?_⟩ <;>
        simp [reception, Esp8266.call, Esp8266.setConnection, deliveredTo, parsedLines, hact]
    · split <;> refine ⟨hc, ?_⟩ <;>
        simp [reception, Esp8266.call, Esp8266.setConnection, deliveredTo, parsedLines, hmn]
  · exact ⟨e, rfl, hc, rfl⟩
  · obtain ⟨m, hmn, hm⟩ := hr.failed h3
    rw [hm, Option.map_some]
    refine ⟨_, rfl, ?_⟩
    simp [connectionFailed, Esp8266.resetConnection, Esp8266.setConnection, reception, hmn.symm, hc]
  · exact ⟨e, rfl, hc, rfl⟩

theorem parseReceived_firstLine (hc : e.activeCommand = .idle) (hact : (e.connection n).active = true)
    (hcall : (e.connection n).callDataReceived = false) (hsize : size ≤ connectionBufferSize)
    (hpay : payload.length = size) (hr : Receivable h n payload) :
    ∃ e', parseReceived p e (h.firstLine n payload) true = some e' ∧ e'.activeCommand = .idle ∧
      reception n e' =
        { (reception n e).started n size (h.text n).length (h.firstPart n payload) with
          parsed := h.firstLine n payload :: parsedLines e.log } := by
  let e₁ := noteReceived e (h.firstLine n payload) true
  obtain ⟨l, hl⟩ : ∃ l, h.firstLine n payload = 0x2b :: l := ⟨_, by
    rw [PacketHeader.firstLine, h.text_eq]
    rfl⟩
  have other : ∀ pattern, (ascii pattern).head? ≠ some 0x2b →
      strEq (h.firstLine n payload) pattern = false := by
    intro pattern hp
    rw [hl]
    exact strEq_cons (by decide) hp
  have hb : ¬ h.firstLine n payload = ascii "\r\n" := by
    rw [hl]
    intro heq
    have := congrArg List.head? heq
    simp only [List.head?_cons] at this
    exact absurd this (by decide)
  have hput : hasToWait p (noteReceived e (h.firstLine n payload) true) (h.firstLine n payload) true = false := by
    have hc₁ : (noteReceived e (h.firstLine n payload) true).activeCommand = .idle := hc
    simp [hasToWait, hc₁]
  have h₁ : reception n e₁ = { reception n e with parsed := h.firstLine n payload :: parsedLines e.log } :=
    reception_noteReceived
  let e₂ := callConnectionCallbacks e₁
  have h₂ : reception n e₂ = reception n e₁ :=
    (reception_callbacks (e := e₁) hc).trans (Reception.fire_of_not_pending hcall)
  let e₃ := parseSendOk e₂ (h.firstLine n payload)
  have h₃ : reception n e₃ = reception n e₁ :=
    (reception_parseSendOk ((congrArg Reception.command h₂).trans hc)).trans h₂
  obtain ⟨e₄, he₄, hc₄, h₄⟩ := reception_parseConnection (e := e₃)
    ((congrArg Reception.command h₃).trans hc) hr ((congrArg Reception.active h₃).trans hact)
  obtain ⟨e₅, he₅, hc₅, h₅⟩ := parseIpd_header e₄ n h (h.firstPart n payload) hsize
    (hpay ▸ h.length_firstPart_le)
  have hidle₅ : e₅.activeCommand = .idle := hc₅.trans hc₄
  refine ⟨e₅, ?_, hidle₅, ?_⟩
  · have hcmd : parseCommand p e₅ (h.firstLine n payload) = some e₅ := by
      simp [parseCommand, hidle₅]
    have hstatus : parseStatus e₅ (h.firstLine n payload) = e₅ := by
      simp [parseStatus, other "OK\r\n" (by decide), other "ERROR\r\n" (by decide),
        other "busy p...\r\n" (by decide), other "SEND OK\r\n" (by decide)]
    have hready : parseReady e₁ (h.firstLine n payload) = e₁ := by
      simp [parseReady, other "ready\r\n" (by decide), other "wdt reset\r\n" (by decide)]
    have hwifi : parseWifi e₂ (h.firstLine n payload) = e₂ := by
      simp [parseWifi, other "WIFI CONNECTED\r\n" (by decide),
        other "WIFI DISCONNECT\r\n" (by decide), other "WIFI GOT IP\r\n" (by decide),
        other "DHCP TIMEOUT" (by decide)]
    have hline : parseLine p e₁ (h.firstLine n payload) true = some e₅ := by
      have he₅' : parseIpd e₄ (h.firstLine n payload) true = some e₅ := he₅
      simp only [parseLine, hready]
      rw [hwifi, he₄, Option.bind_some, he₅', Option.bind_some, hcmd, Option.map_some, hstatus]
    simp only [parseReceived, hb, if_false, hput, Bool.false_eq_true]
    exact hline
  · rw [h₅, h₄, h₃, h₁]
    rfl

end Lpc1788Libraries.WiFi

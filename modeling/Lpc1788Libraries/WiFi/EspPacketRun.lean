import Lpc1788Libraries.WiFi.EspPacket

namespace Lpc1788Libraries.WiFi

open Lpc1788Libraries.Support BoundedProgram

/-- No command is active, and no line waits in the temporary buffer. -/
structure Between (a : Reception) : Prop where
  idle : a.command = .idle
  wrapper : a.wrapper = false
  usart_valid : a.usart.Valid
  usart_size : a.usart.size = 1024
  usart_delimiter : a.usart.stringDelimiter = 0x0a
  tmp_valid : a.tmp.Valid
  tmp_size : a.tmp.size = 512
  tmp_delimiter : a.tmp.stringDelimiter = 0x0a
  tmp_empty : a.tmp.contents = []

theorem Between.congr {a c : Reception} (h : Between a) (h1 : c.command = .idle) (h2 : c.wrapper = false)
    (h3 : c.usart = a.usart) (h4 : c.tmp = a.tmp) : Between c := by
  refine ⟨h1, h2, ?_, ?_, ?_, ?_, ?_, ?_, ?_⟩
  · rw [h3]
    exact h.usart_valid
  · rw [h3]
    exact h.usart_size
  · rw [h3]
    exact h.usart_delimiter
  · rw [h4]
    exact h.tmp_valid
  · rw [h4]
    exact h.tmp_size
  · rw [h4]
    exact h.tmp_delimiter
  · rw [h4]
    exact h.tmp_empty

section packet

variable {p : Platform} {size : ℕ}

/-- How far the reception of a packet with the lines after it has come, when the bytes `future` are
still to be received. -/
inductive Progress (h : PacketHeader size) (n : Fin 5) (payload : List UInt8) (ls : List (List UInt8))
    (old oldLines : List (List UInt8)) (future : List UInt8) (a : Reception) : ℕ → Prop
  | waiting (inIPD : a.ipd.inIPD = false) (active : a.active = true) (call : a.callData = false)
      (bytes : a.usart.contents ++ future = h.text n ++ (payload ++ ls.flatten))
      (delivered : a.delivered = old) (parsed : a.parsed = oldLines) :
      Progress h n payload ls old oldLines future a 0
  | inside (j : ℕ) (le : j ≤ size) (ipd : a.ipd = ⟨true, j, j, UInt8.ofNat n, true⟩)
      (received : a.bytesReceived = size) (active : a.active = true) (call : a.callData = false)
      (data : copyFrom a.data 0 j = payload.take j)
      (bytes : a.usart.contents ++ future = payload.drop j ++ ls.flatten)
      (delivered : a.delivered = old) (parsed : a.parsed = h.firstLine n payload :: oldLines) :
      Progress h n payload ls old oldLines future a 1
  | complete (done rest : List (List UInt8)) (split : ls = done ++ rest) (inIPD : a.ipd.inIPD = false)
      (bytes : a.usart.contents ++ future = rest.flatten) (delivers : Delivers payload old a)
      (parsed : a.parsed = done.reverse ++ h.firstLine n payload :: oldLines) :
      Progress h n payload ls old oldLines future a 2

variable {h : PacketHeader size} {n : Fin 5} {payload : List UInt8} {ls : List (List UInt8)}
  {old oldLines : List (List UInt8)} {future : List UInt8} {e : Esp8266} {k : ℕ}

theorem copyFrom_copyInto {mem : ℕ → UInt8} {l : List UInt8} {i : ℕ} :
    copyFrom (copyInto mem i l) 0 (i + l.length) = copyFrom mem 0 i ++ l := by
  apply List.ext_getElem?
  intro j
  by_cases hj : j < i
  · rw [getElem?_copyFrom (by omega), List.getElem?_append_left (by rwa [length_copyFrom]),
      getElem?_copyFrom hj, copyInto_outside (.inl (by omega))]
  · rw [List.getElem?_append_right (by rw [length_copyFrom]; omega), length_copyFrom]
    by_cases hl : j - i < l.length
    · rw [getElem?_copyFrom (by omega), List.getElem?_eq_getElem hl]
      have hin : copyInto mem i l (i + (j - i)) = _ := copyInto_inside (List.getElem?_eq_getElem hl)
      rw [show 0 + j = i + (j - i) by omega, hin]
    · rw [List.getElem?_eq_none (by rw [length_copyFrom]; omega), List.getElem?_eq_none (by omega)]

theorem lineOf_firstLine (hr : Receivable h n payload) (hpay : payload.length = size) {c rest : List UInt8}
    (hc : c ++ future = h.text n ++ (payload ++ rest)) (hl : 0x0a ∈ c ∨ receivedSize ≤ c.length) :
    lineOf 0x0a (receivedSize - 1) c = h.firstLine n payload ∧
      c.drop (h.firstLine n payload).length ++ future =
        payload.drop (h.firstPart n payload).length ++ rest := by
  have hlen := h.length_text_le (n := n)
  have hcut : (h.text n).length + (receivedSize - 1 - (h.text n).length) = receivedSize - 1 := by
    unfold receivedSize
    omega
  have hline : lineOf 0x0a (receivedSize - 1) c = h.firstLine n payload := by
    calc lineOf 0x0a (receivedSize - 1) c = lineOf 0x0a (receivedSize - 1) (c ++ future) := by
          refine (lineOf_append ?_).symm
          exact hl.imp id (Nat.le_trans (Nat.sub_le _ _))
      _ = h.text n ++ lineOf 0x0a (receivedSize - 1 - (h.text n).length) (payload ++ rest) := by
          rw [hc]
          nth_rewrite 1 [← hcut]
          exact lineOf_prefix h.lineFeed_not_mem_text
      _ = h.firstLine n payload := by
          rw [lineOf_append]
          · rfl
          · refine hr.ends.imp id fun hle => ?_
            rw [hpay]
            omega
  refine ⟨hline, ?_⟩
  have hshort : (h.firstLine n payload).length ≤ c.length := by
    rw [← hline]
    exact length_lineOf_le.2
  have hpart : (h.firstPart n payload).length ≤ payload.length := h.length_firstPart_le
  rw [← List.drop_append_of_le_length hshort, hc, PacketHeader.firstLine, List.length_append,
    List.drop_append, List.drop_of_length_le (by omega), List.nil_append, Nat.add_sub_cancel_left,
    List.drop_append_of_le_length hpart]

theorem progress_firstLine (hb : Between (reception n e)) (hs : size ≤ connectionBufferSize)
    (hpay : payload.length = size) (hr : Receivable h n payload)
    (hp : Progress h n payload ls old oldLines future (reception n e) 0) {r : Buffer} (hv : r.Valid)
    (hrs : r.size = 1024) (hrd : r.stringDelimiter = 0x0a)
    (hrc : r.contents ++ future = payload.drop (h.firstPart n payload).length ++ ls.flatten) :
    ∃ e', parseReceived p { e with usartBuffer := r } (h.firstLine n payload) true = some e' ∧
      Between (reception n e') ∧ e'.usartBuffer = r ∧
      ∃ k, Progress h n payload ls old oldLines future (reception n e') k := by
  generalize hk : 0 = k at hp
  cases hp with
  | inside => cases hk
  | complete => cases hk
  | waiting inIPD active call bytes delivered parsed =>
    let e₀ := { e with usartBuffer := r }
    obtain ⟨e', he', hc', hrec⟩ := parseReceived_firstLine (p := p) (e := e₀) hb.idle active call hs hpay hr
    have hsame : copyFrom (copyInto e.connectionData 0 (h.firstPart n payload)) 0
        (h.firstPart n payload).length = h.firstPart n payload := by
      have hcopy : copyFrom (copyInto e.connectionData 0 (h.firstPart n payload)) 0
          (0 + (h.firstPart n payload).length) = _ := copyFrom_copyInto
      rwa [Nat.zero_add] at hcopy
    have husart : e'.usartBuffer = r := congrArg Reception.usart hrec
    have hb₀ : Between (reception n e₀) := { hb with
      usart_valid := hv, usart_size := hrs, usart_delimiter := hrd }
    have hactive : (reception n e').active = true := (congrArg Reception.active hrec).trans active
    have hdata : (reception n e').data = copyInto e.connectionData 0 (h.firstPart n payload) :=
      congrArg Reception.data hrec
    have hipd : (reception n e').ipd = ⟨decide ((h.text n).length < size), (h.firstPart n payload).length,
      (h.firstPart n payload).length, UInt8.ofNat n, true⟩ := congrArg Reception.ipd hrec
    have hcall : (reception n e').callData = if size ≤ (h.text n).length then true else false := by
      refine (congrArg Reception.callData hrec).trans ?_
      have : (reception n e₀).callData = false := call
      simp only [Reception.started, this]
    have hsize : (reception n e').dataSize =
        if size ≤ (h.text n).length then (h.text n).length else (reception n e).dataSize :=
      congrArg Reception.dataSize hrec
    have hdel : (reception n e').delivered = old := (congrArg Reception.delivered hrec).trans delivered
    have hparsed : (reception n e').parsed = h.firstLine n payload :: oldLines := by
      rw [← parsed]
      exact congrArg Reception.parsed hrec
    have hrecv : (reception n e').bytesReceived = size := congrArg Reception.bytesReceived hrec
    have htmp : e'.tmpBuffer = e.tmpBuffer := congrArg Reception.tmp hrec
    refine ⟨e', he', hb₀.congr hc' ?_ husart htmp, husart, ?_⟩
    · exact (congrArg Reception.wrapper hrec).trans hb.wrapper
    rcases hr.long with hlong | ⟨heq, hwhole⟩
    · refine ⟨1, .inside (h.firstPart n payload).length (hpay ▸ h.length_firstPart_le) ?_ hrecv hactive ?_ ?_ ?_
        hdel hparsed⟩
      · rw [hipd, decide_eq_true hlong]
      · rw [hcall, if_neg (by omega)]
      · rw [hdata, hsame]
        exact h.firstPart_eq_take
      · exact (congrArg (fun b : Buffer => b.contents ++ future) husart).trans hrc
    · refine ⟨2, .complete [] ls rfl ?_ ?_ (.inr ⟨?_, hactive, ?_, hdel⟩) hparsed⟩
      · rw [hipd]
        simp [heq]
      · rw [hwhole, List.drop_length, List.nil_append] at hrc
        exact (congrArg (fun b : Buffer => b.contents ++ future) husart).trans hrc
      · rw [hcall, if_pos (by omega)]
      · rw [hwhole, hpay] at hsame
        rw [hdata, hsize, if_pos (by omega), heq, hwhole]
        exact hsame

theorem Progress.congr {a c : Reception} (hp : Progress h n payload ls old oldLines future a k)
    (h1 : c.active = a.active) (h2 : c.callData = a.callData) (h3 : c.dataSize = a.dataSize)
    (h4 : c.bytesReceived = a.bytesReceived) (h5 : c.ipd = a.ipd) (h6 : c.data = a.data)
    (h7 : c.usart = a.usart) (h8 : c.delivered = a.delivered) (h9 : c.parsed = a.parsed) :
    Progress h n payload ls old oldLines future c k := by
  cases hp with
  | waiting inIPD active call bytes delivered parsed =>
    exact .waiting (h5 ▸ inIPD) (h1.trans active) (h2.trans call) (h7 ▸ bytes) (h8.trans delivered)
      (h9.trans parsed)
  | inside j le ipd received active call data bytes delivered parsed =>
    exact .inside j le (h5.trans ipd) (h4.trans received) (h1.trans active) (h2.trans call) (h6 ▸ data)
      (h7 ▸ bytes) (h8.trans delivered) (h9.trans parsed)
  | complete done rest split inIPD bytes delivers parsed =>
    refine .complete done rest split (h5 ▸ inIPD) (h7 ▸ bytes) ?_ (h9.trans parsed)
    unfold Delivers at delivers ⊢
    rw [h1, h2, h3, h6, h8]
    exact delivers

variable (hs : size ≤ connectionBufferSize) (hpay : payload.length = size) (hr : Receivable h n payload)
  (hls : ∀ l ∈ ls, IsResponse l) (hne : ls ≠ [])

include hs hpay hr in
theorem usartRound_waiting (hb : Between (reception n e))
    (hp : Progress h n payload ls old oldLines future (reception n e) 0)
    (hl : 0x0a ∈ e.usartBuffer.contents ∨ receivedSize ≤ e.usartBuffer.contents.length) :
    ∃ e' k, (usartRound p ()).Returns e (.inl ()) e' ∧ Between (reception n e') ∧
      Progress h n payload ls old oldLines future (reception n e') k ∧
      e'.usartBuffer.contents.length < e.usartBuffer.contents.length := by
  have hipd : e.ipd.inIPD = false := by
    generalize hk : 0 = k at hp
    cases hp with
    | waiting inIPD => exact inIPD
    | inside => cases hk
    | complete => cases hk
  have hbytes : e.usartBuffer.contents ++ future = h.text n ++ (payload ++ ls.flatten) := by
    generalize hk : 0 = k at hp
    cases hp with
    | waiting _ _ _ bytes => exact bytes
    | inside => cases hk
    | complete => cases hk
  have hv : e.usartBuffer.Valid := hb.usart_valid
  have hsize : e.usartBuffer.size = 1024 := hb.usart_size
  have hdel : e.usartBuffer.stringDelimiter = 0x0a := hb.usart_delimiter
  obtain ⟨hline, hrest⟩ := lineOf_firstLine hr hpay hbytes hl
  have hpos : 0 < (h.firstLine n payload).length := by
    have := h.length_text (n := n)
    rw [PacketHeader.firstLine, List.length_append]
    omega
  have hnonempty : e.usartBuffer.contents ≠ [] := by
    intro hc
    rw [hc] at hl
    rcases hl with hl | hl
    · simp at hl
    · exact absurd hl (by decide)
  obtain ⟨r1, r2, r3, r4, r5⟩ := bufferReadString_line hv hnonempty (by rwa [hdel])
  rw [hdel, hline] at r1 r5
  obtain ⟨e', he', hb', hbuf, k, hp'⟩ := progress_firstLine (p := p) hb hs hpay hr hp r2 (r3.trans hsize)
    (r4.trans hdel) (by rw [r5, hrest])
  refine ⟨e', k, ?_, hb', hp', ?_⟩
  · have hline' : h.firstLine n payload ≠ [] := List.ne_nil_of_length_pos hpos
    simp only [usartRound, Prog.returns_attempt, hipd, r1, Bool.false_eq_true, if_false, hline', he',
      Option.map_some]
  · have hlen : (h.firstLine n payload).length ≤ e.usartBuffer.contents.length := by
      rw [← hline]
      exact length_lineOf_le.2
    rw [hbuf, r5, List.length_drop]
    omega

include hls in
theorem usartRound_over (hb : Between (reception n e))
    (hp : Progress h n payload ls old oldLines future (reception n e) 2)
    (hl : 0x0a ∈ e.usartBuffer.contents) :
    ∃ e', (usartRound p ()).Returns e (.inl ()) e' ∧ Between (reception n e') ∧
      Progress h n payload ls old oldLines future (reception n e') 2 ∧
      e'.usartBuffer.contents.length < e.usartBuffer.contents.length := by
  generalize hk : 2 = k at hp
  cases hp with
  | waiting => cases hk
  | inside => cases hk
  | complete done rest split inIPD bytes delivers parsed =>
    have hipd : e.ipd.inIPD = false := inIPD
    have hbytes : e.usartBuffer.contents ++ future = rest.flatten := bytes
    obtain ⟨l, rest, rfl⟩ : ∃ l rest', rest = l :: rest' := by
      cases rest with
      | nil =>
        have := (List.append_eq_nil_iff.mp hbytes).1
        simp [this] at hl
      | cons l rest => exact ⟨l, rest, rfl⟩
    have hresp : IsResponse l := hls l (by simp [split])
    obtain ⟨d, hc, hfut⟩ := hresp.isLine.prefix_of_mem (hbytes.trans List.flatten_cons) hl
    have hv : e.usartBuffer.Valid := hb.usart_valid
    have hdel : e.usartBuffer.stringDelimiter = 0x0a := hb.usart_delimiter
    obtain ⟨r1, r2, r3, r4, r5⟩ := readString_line hv hdel hresp.isLine hc
    obtain ⟨e', he', c1, c2, c3, husart, c5, c6, c7⟩ := parseReceived_response (p := p) (n := n) (b := true)
      (e := { e with usartBuffer := (bufferReadString e.usartBuffer receivedSize).1 })
      hb.idle hb.wrapper hresp delivers
    have c4 : e'.usartBuffer = (bufferReadString e.usartBuffer receivedSize).1 := husart
    have hline : l ≠ [] := by
      obtain ⟨body, rfl, -, -⟩ := hresp.isLine
      simp
    refine ⟨e', ?_, ?_, .complete (done ++ [l]) rest ?_ ?_ ?_ c7 ?_, ?_⟩
    · simp only [usartRound, Prog.returns_attempt, hipd, r1, Bool.false_eq_true, if_false, hline, he',
        Option.map_some]
    · have hb₀ : Between (reception n
          { e with usartBuffer := (bufferReadString e.usartBuffer receivedSize).1 }) := { hb with
        usart_valid := r2, usart_size := r3.trans hb.usart_size, usart_delimiter := r4 }
      exact hb₀.congr c1 c2 c4 c5
    · rw [split]
      simp
    · exact (congrArg Ipd.inIPD c3).trans hipd
    · calc e'.usartBuffer.contents ++ future = d ++ future := by rw [c4, r5]
        _ = rest.flatten := hfut
    · have hparsed : parsedLines e.log = done.reverse ++ h.firstLine n payload :: oldLines := parsed
      refine c6.trans ?_
      rw [hparsed]
      simp
    · have := List.length_pos_of_ne_nil hline
      rw [c4, r5, hc, List.length_append]
      omega

include hs hpay hr hls in
theorem usartLoop_progress (hb : Between (reception n e))
    (hp : Progress h n payload ls old oldLines future (reception n e) k) :
    ∃ e' k', (Prog.loop (usartRound p) ()).Returns e () e' ∧ Between (reception n e') ∧
      Progress h n payload ls old oldLines future (reception n e') k' ∧ k ≤ k' ∧
      (k' ≠ 1 → 0x0a ∉ e'.usartBuffer.contents) := by
  let I : ℕ → Unit → Esp8266 → Prop := fun i _ e' => e'.usartBuffer.contents.length = i ∧
    Between (reception n e') ∧ ∃ k', Progress h n payload ls old oldLines future (reception n e') k' ∧ k ≤ k'
  let Q : Unit → Esp8266 → Prop := fun _ e' => Between (reception n e') ∧ ∃ k',
    Progress h n payload ls old oldLines future (reception n e') k' ∧ k ≤ k' ∧
      (k' ≠ 1 → 0x0a ∉ e'.usartBuffer.contents)
  have step : ∀ i x e₁, I i x e₁ →
      (∃ a t, (usartRound p x).Returns e₁ (.inr a) t ∧ Q a t) ∨
        ∃ y t, (usartRound p x).Returns e₁ (.inl y) t ∧ ∃ j < i, I j y t := by
    rintro i _ e₁ ⟨rfl, hb₁, k₁, hp₁, hk₁⟩
    have hp₁' := hp₁
    cases hp₁ with
    | inside j _ ipd =>
      left
      have hipd : e₁.ipd = ⟨true, j, j, UInt8.ofNat n, true⟩ := ipd
      refine ⟨(), e₁, ?_, hb₁, 1, hp₁', hk₁, fun hne => absurd rfl hne⟩
      simp only [usartRound, Prog.returns_attempt, hipd, if_true]
    | waiting inIPD _ _ bytes =>
      by_cases hl : 0x0a ∈ e₁.usartBuffer.contents ∨ receivedSize ≤ e₁.usartBuffer.contents.length
      · right
        obtain ⟨e', k', hret, hb', hp', hlt⟩ := usartRound_waiting (p := p) hs hpay hr hb₁ hp₁' hl
        exact ⟨(), e', hret, _, hlt, rfl, hb', k', hp', by omega⟩
      · left
        obtain ⟨hlf, hshort⟩ := not_or.mp hl
        have hnone : bufferReadString e₁.usartBuffer receivedSize = (e₁.usartBuffer, []) := by
          apply readString_partial hb₁.usart_valid hb₁.usart_delimiter _ hlf (Nat.not_le.mp hshort)
          rw [hb₁.usart_size]
          decide
        have hipd : e₁.ipd.inIPD = false := inIPD
        refine ⟨(), e₁, ?_, hb₁, 0, hp₁', hk₁, fun _ => hlf⟩
        simp only [usartRound, Prog.returns_attempt, hipd, hnone, Bool.false_eq_true, if_false, if_true]
    | complete done rest split inIPD bytes =>
      by_cases hl : 0x0a ∈ e₁.usartBuffer.contents
      · right
        obtain ⟨e', hret, hb', hp', hlt⟩ := usartRound_over (p := p) hls hb₁ hp₁' hl
        exact ⟨(), e', hret, _, hlt, rfl, hb', 2, hp', hk₁⟩
      · left
        have hbytes : e₁.usartBuffer.contents ++ future = rest.flatten := bytes
        have hshort := short_of_no_lineFeed hbytes
          (fun l hl => (hls l (by simp [split, hl])).isLine) hl
        have hnone : bufferReadString e₁.usartBuffer receivedSize = (e₁.usartBuffer, []) := by
          apply readString_partial hb₁.usart_valid hb₁.usart_delimiter _ hl hshort
          rw [hb₁.usart_size]
          decide
        have hipd : e₁.ipd.inIPD = false := inIPD
        refine ⟨(), e₁, ?_, hb₁, 2, hp₁', hk₁, fun _ => hl⟩
        simp only [usartRound, Prog.returns_attempt, hipd, hnone, Bool.false_eq_true, if_false, if_true]
  obtain ⟨_, e', hret, hb', k', hp', hk', hlf⟩ := Prog.loop_total (I := I) (Q := Q) step (x := ())
    (s := e) ⟨rfl, hb, k, hp, Nat.le_refl k⟩
  exact ⟨e', k', hret, hb', hp', hk', hlf⟩

theorem tmpLoop_empty (hb : Between (reception n e)) : (Prog.loop (tmpRound p) ()).Returns e () e := by
  have hc : e.activeCommand = .idle := hb.idle
  have hnone : bufferReadString e.tmpBuffer receivedSize = (e.tmpBuffer, []) := by
    have hempty : e.tmpBuffer.contents = [] := hb.tmp_empty
    apply readString_partial hb.tmp_valid hb.tmp_delimiter
    · rw [hb.tmp_size]
      decide
    · simp [reception, hempty]
    · simp [reception, hempty, receivedSize]
  apply Prog.loop_inr
  cases hipd : e.ipd.inIPD with
  | true => simp [tmpRound, hipd]
  | false =>
    have hgate : (e.ipd.inIPD || decide (e.activeCommand ≠ .idle)) = false := by simp [hipd, hc]
    simp only [tmpRound, Prog.returns_attempt, hgate, hnone, Bool.false_eq_true, if_false, if_true]

theorem ipdRound_inside (hb : Between (reception n e)) (hs : size ≤ connectionBufferSize)
    (hpay : payload.length = size) {j : ℕ} (hj : j < size)
    (hipd : e.ipd = ⟨true, j, j, UInt8.ofNat n, true⟩) (hrecv : (e.connection n).bytesReceived = size)
    (hdata : copyFrom e.connectionData 0 j = payload.take j)
    (hbytes : e.usartBuffer.contents ++ future = payload.drop j ++ ls.flatten)
    (hne : e.usartBuffer.contents ≠ []) :
    ∃ e', (ipdRound n ()).Returns e (.inl ()) e' ∧ Between (reception n e') ∧
      reception n e' = { reception n e with
        ipd := ⟨true, j + 1, j + 1, UInt8.ofNat n, true⟩, data := e'.connectionData, usart := e'.usartBuffer } ∧
      copyFrom e'.connectionData 0 (j + 1) = payload.take (j + 1) ∧
      e'.usartBuffer.contents ++ future = payload.drop (j + 1) ++ ls.flatten := by
  have hv : e.usartBuffer.Valid := hb.usart_valid
  have hlt : j < payload.length := by omega
  obtain ⟨x, l, hc⟩ := List.exists_cons_of_ne_nil hne
  have hdrop : payload.drop j = payload[j] :: payload.drop (j + 1) := List.drop_eq_getElem_cons hlt
  rw [hc, hdrop, List.cons_append, List.cons_append, List.cons.injEq] at hbytes
  obtain ⟨hx, hl⟩ := hbytes
  have hread : (bufferRead e.usartBuffer 1).2 = [x] := by
    rw [bufferRead_data hv, hc]
    rfl
  have hcontents : (bufferRead e.usartBuffer 1).1.contents = l := by
    rw [bufferRead_contents hv, hc]
    rfl
  have hfull : 0 < bufferGetFull e.usartBuffer := by
    rw [← length_contents, hc]
    simp
  have hsmall : (j + 1) % 0x10000 = j + 1 := by
    unfold connectionBufferSize at hs
    omega
  let e' : Esp8266 := { e with
    usartBuffer := (bufferRead e.usartBuffer 1).1
    connectionData := copyInto e.connectionData j [x]
    ipd := ⟨true, j + 1, j + 1, UInt8.ofNat n, true⟩ }
  refine ⟨e', ?_, ?_, rfl, ?_, ?_⟩
  · have hbuf : e.ipdBuffer = e.usartBuffer := by simp [Esp8266.ipdBuffer, hipd]
    have hset : ∀ b, e.setIpdBuffer b = { e with usartBuffer := b } := by
      intro b
      simp [Esp8266.setIpdBuffer, hipd]
    have hptr : e.ipd.inPtr = j := by rw [hipd]
    have hroom : j < connectionBufferSize := by omega
    simp only [ipdRound, Prog.returns_attempt, hbuf, hptr, hrecv, hj, hfull, and_self, if_true, hroom, hset,
      hread]
    simp [e', hipd, hsmall]
  · exact { hb with
      usart_valid := bufferRead_valid hv
      usart_size := (bufferRead_size hv).trans hb.usart_size
      usart_delimiter := (bufferRead_delimiter hv).trans hb.usart_delimiter }
  · have hstep : copyFrom (copyInto e.connectionData j [x]) 0 (j + [x].length) = _ := copyFrom_copyInto
    rw [List.length_singleton] at hstep
    rw [hstep, hdata, hx, List.take_add_one, List.getElem?_eq_getElem hlt]
    rfl
  · change (bufferRead e.usartBuffer 1).1.contents ++ future = _
    rw [hcontents, hl]

variable (hs : size ≤ connectionBufferSize) (hpay : payload.length = size)

include hs hpay in
theorem updateIpd_progress (hb : Between (reception n e))
    (hp : Progress h n payload ls old oldLines future (reception n e) k) :
    ∃ e' k', updateIpd.Returns e () e' ∧ Between (reception n e') ∧
      Progress h n payload ls old oldLines future (reception n e') k' ∧ k ≤ k' ∧
      (k ≠ 1 → e' = e) ∧ (k = 1 → future = [] → k' = 2) ∧
      (k' = 1 → ∃ j < size, e'.ipd.inPtr = j) := by
  have hp₀ := hp
  cases hp with
  | waiting inIPD =>
    have hipd : e.ipd.inIPD = false := inIPD
    refine ⟨e, 0, ?_, hb, hp₀, Nat.le_refl 0, fun _ => rfl, by simp, by simp⟩
    simp [updateIpd, getEsp, hipd]
  | complete _ _ _ inIPD =>
    have hipd : e.ipd.inIPD = false := inIPD
    refine ⟨e, 2, ?_, hb, hp₀, Nat.le_refl 2, fun _ => rfl, by simp, by simp⟩
    simp [updateIpd, getEsp, hipd]
  | inside j le ipd received active call data bytes delivered parsed =>
    let I : ℕ → Unit → Esp8266 → Prop := fun i _ e' => Between (reception n e') ∧ ∃ j ≤ size, i = size - j ∧
      reception n e' = { reception n e with
        ipd := ⟨true, j, j, UInt8.ofNat n, true⟩, data := e'.connectionData, usart := e'.usartBuffer } ∧
      copyFrom e'.connectionData 0 j = payload.take j ∧
      e'.usartBuffer.contents ++ future = payload.drop j ++ ls.flatten
    let Q : Unit → Esp8266 → Prop := fun _ e' => Between (reception n e') ∧ ∃ j ≤ size,
      reception n e' = { reception n e with
        ipd := ⟨true, j, j, UInt8.ofNat n, true⟩, data := e'.connectionData, usart := e'.usartBuffer } ∧
      copyFrom e'.connectionData 0 j = payload.take j ∧
      e'.usartBuffer.contents ++ future = payload.drop j ++ ls.flatten ∧
      (j < size → e'.usartBuffer.contents = [])
    have step : ∀ i x e₁, I i x e₁ →
        (∃ a t, (ipdRound n x).Returns e₁ (.inr a) t ∧ Q a t) ∨
          ∃ y t, (ipdRound n x).Returns e₁ (.inl y) t ∧ ∃ l < i, I l y t := by
      rintro i _ e₁ ⟨hb₁, j, hj, rfl, hsame, hdata, hbytes⟩
      have hipd : e₁.ipd = ⟨true, j, j, UInt8.ofNat n, true⟩ := congrArg Reception.ipd hsame
      have hrecv : (e₁.connection n).bytesReceived = size := (congrArg Reception.bytesReceived hsame).trans received
      by_cases hgo : j < size ∧ e₁.usartBuffer.contents ≠ []
      · right
        obtain ⟨e', hret, hb', hsame', hdata', hbytes'⟩ :=
          ipdRound_inside hb₁ hs hpay hgo.1 hipd hrecv hdata hbytes hgo.2
        refine ⟨(), e', hret, size - (j + 1), by omega, hb', j + 1, hgo.1, rfl, ?_, hdata', hbytes'⟩
        rw [hsame', hsame]
      · left
        refine ⟨(), e₁, ?_, hb₁, j, hj, hsame, hdata, hbytes, fun hlt => ?_⟩
        · have hstop : ¬ (e₁.ipd.inPtr < (e₁.connection n).bytesReceived ∧ 0 < bufferGetFull e₁.ipdBuffer) := by
            have hbuf : e₁.ipdBuffer = e₁.usartBuffer := by simp [Esp8266.ipdBuffer, hipd]
            rw [hbuf, ← length_contents, hipd, hrecv]
            rintro ⟨h1, h2⟩
            exact hgo ⟨h1, List.ne_nil_of_length_pos h2⟩
          simp only [ipdRound, Prog.returns_attempt, hstop, if_false]
        · by_contra hc
          exact hgo ⟨hlt, hc⟩
    obtain ⟨_, e₁, hret, hb₁, j₁, hj₁, hsame, hdata, hbytes, hempty⟩ :=
      Prog.loop_total (I := I) (Q := Q) step (x := ()) (s := e)
        ⟨hb, j, le, rfl, by rw [← ipd]; rfl, data, bytes⟩
    have hipd₁ : e₁.ipd = ⟨true, j₁, j₁, UInt8.ofNat n, true⟩ := congrArg Reception.ipd hsame
    have hrecv₁ : (e₁.connection n).bytesReceived = size := (congrArg Reception.bytesReceived hsame).trans received
    have hnum : (UInt8.ofNat n).toNat = n := by
      rw [UInt8.toNat_ofNat']
      omega
    have hupdate : updateIpd.Returns e () (ipdDone e₁ n) := by
      have hipd : e.ipd = ⟨true, j, j, UInt8.ofNat n, true⟩ := ipd
      have hfin : (⟨(UInt8.ofNat n).toNat, by omega⟩ : Fin 5) = n := Fin.ext hnum
      simp only [updateIpd, getEsp, Prog.get_bind_returns, hipd, if_true]
      rw [dif_pos (by omega), hfin]
      apply hret.bind
      simp [setEsp]
    have hactive : (e₁.connection n).active = true := (congrArg Reception.active hsame).trans active
    have hcall : (e₁.connection n).callDataReceived = false := (congrArg Reception.callData hsame).trans call
    have hold : deliveredTo n e₁.log = old := (congrArg Reception.delivered hsame).trans delivered
    have hparsed : parsedLines e₁.log = h.firstLine n payload :: oldLines :=
      (congrArg Reception.parsed hsame).trans parsed
    by_cases hlt : j₁ < size
    · -- the buffer is empty before the packet is complete
      have hdone : ipdDone e₁ n = e₁ := by
        unfold ipdDone
        rw [if_neg (by rw [hrecv₁, hipd₁]; exact Nat.not_le.mpr hlt)]
      rw [hdone] at hupdate
      refine ⟨e₁, 1, hupdate, hb₁, ?_, Nat.le_refl 1, by simp, ?_, fun _ => ⟨j₁, hlt, by rw [hipd₁]⟩⟩
      · exact .inside j₁ hj₁ hipd₁ hrecv₁ hactive hcall hdata hbytes hold hparsed
      · intro _ hfut
        rw [hempty hlt, hfut] at hbytes
        have := congrArg List.length hbytes
        simp only [List.nil_append, List.length_nil, List.length_append, List.length_drop] at this
        omega
    · obtain rfl : j₁ = size := by omega
      have hdone : reception n (ipdDone e₁ n) = { reception n e₁ with
          ipd := ⟨false, j₁, j₁, UInt8.ofNat n, true⟩, dataSize := j₁, callData := true } := by
        unfold ipdDone
        rw [if_pos (by rw [hrecv₁, hipd₁])]
        simp [reception, Esp8266.setConnection, hipd₁]
      refine ⟨ipdDone e₁ n, 2, hupdate, hb₁.congr ?_ ?_ ?_ ?_, ?_, by omega, by simp, fun _ _ => rfl, by simp⟩
      · rw [hdone]
        exact hb₁.idle
      · rw [hdone]
        exact hb₁.wrapper
      · rw [hdone]
      · rw [hdone]
      · rw [hdone]
        refine .complete [] ls rfl rfl ?_ (.inr ⟨rfl, hactive, ?_, hold⟩) hparsed
        · rw [← hpay, List.drop_length, List.nil_append] at hbytes
          exact hbytes
        · rw [← hpay, List.take_length] at hdata
          rw [← hpay]
          exact hdata

variable (hr : Receivable h n payload) (hls : ∀ l ∈ ls, IsResponse l) (hne : ls ≠ [])

/-- Nothing waits for the callbacks. -/
def NotPending (n : Fin 5) (e : Esp8266) : Prop := (e.connection n).callDataReceived = false

include hs hpay hr hls hne in
theorem update_progress (hb : Between (reception n e))
    (hp : Progress h n payload ls old oldLines future (reception n e) k) :
    ∃ e' k', (espCall p .update).Returns e () e' ∧ Between (reception n e') ∧
      Progress h n payload ls old oldLines future (reception n e') k' ∧ k ≤ k' ∧ NotPending n e' ∧
      (k' = 1 → ∃ j < size, e'.ipd.inPtr = j) ∧ (future = [] → k' = 2) ∧
      (future = [] → k = 2 → e'.usartBuffer.contents = []) := by
  have hidle : e.activeCommand = .idle := hb.idle
  let e₀ := checkTimeout e
  have h₀ : reception n e₀ = reception n e := by
    simp only [e₀, checkTimeout]
    split_ifs <;> simp_all [reception]
  have hb₀ : Between (reception n e₀) := h₀ ▸ hb
  have hp₀ : Progress h n payload ls old oldLines future (reception n e₀) k := h₀ ▸ hp
  have hw : e₀.waitForWrapper = false := hb₀.wrapper
  have hc : e₀.activeCommand = .idle := hb₀.idle
  have hwrap : (checkWrapper p).Returns e₀ () e₀ := by
    simp [checkWrapper, getEsp, hw]
  have huart : checkUart.Returns e₀ () e₀ := by
    simp [checkUart, getEsp, hc]
  obtain ⟨e₁, k₁, hr₁, hb₁, hp₁, hk₁, hlf⟩ := usartLoop_progress (p := p) hs hpay hr hls hb₀ hp₀
  have htmp := tmpLoop_empty (p := p) hb₁
  obtain ⟨e₂, k₂, hr₂, hb₂, hp₂, hk₂, hsame, hfull, hpart⟩ := updateIpd_progress hs hpay hb₁ hp₁
  let e₃ := { callConnectionCallbacks e₂ with result := .ok }
  have h₃ : reception n e₃ = (reception n e₂).fire := reception_callbacks hb₂.idle
  obtain ⟨f1, f2, f3, f4, f5, f6, f7, f8, f9⟩ := (reception n e₂).fire_same
  rw [← h₃] at f1 f2 f3 f4 f5 f6 f7 f8 f9
  have hb₃ : Between (reception n e₃) := hb₂.congr (f1.trans hb₂.idle) (f2.trans hb₂.wrapper) f5 f6
  have hp₃ : Progress h n payload ls old oldLines future (reception n e₃) k₂ ∧ NotPending n e₃ := by
    cases hp₂ with
    | waiting inIPD active call bytes delivered parsed =>
      rw [Reception.fire_of_not_pending call] at h₃
      rw [h₃]
      exact ⟨.waiting inIPD active call bytes delivered parsed, (congrArg Reception.callData h₃).trans call⟩
    | inside j le ipd received active call data bytes delivered parsed =>
      rw [Reception.fire_of_not_pending call] at h₃
      rw [h₃]
      exact ⟨.inside j le ipd received active call data bytes delivered parsed,
        (congrArg Reception.callData h₃).trans call⟩
    | complete done rest split inIPD bytes delivers parsed =>
      obtain ⟨g1, g2⟩ := delivers.fire
      rw [← h₃] at g1 g2
      exact ⟨.complete done rest split (f3 ▸ inIPD) (f5 ▸ bytes) (.inl ⟨g1, g2⟩) (f7.trans parsed), g1⟩
  have hrun : (espCall p .update).Returns e () e₃ := by
    refine Prog.Returns.bind (a := .ok) (t := e₃) ?_ (Prog.returns_pure.mpr ⟨rfl, rfl⟩)
    unfold esp8266Update
    simp only [setEsp, Prog.modify_bind_returns]
    apply hwrap.bind
    apply huart.bind
    apply hr₁.bind
    apply htmp.bind
    apply hr₂.bind
    simp [e₃]
  have husart₃ : e₃.usartBuffer = e₂.usartBuffer := f5
  have hend : future = [] → k₁ ≠ 0 := by
    rintro hfut rfl
    generalize hk : 0 = k₁ at hp₁
    cases hp₁ with
    | inside => cases hk
    | complete => cases hk
    | waiting _ _ _ bytes =>
      have hbytes : e₁.usartBuffer.contents = h.text n ++ (payload ++ ls.flatten) := by
        rw [hfut, List.append_nil] at bytes
        exact bytes
      obtain ⟨l, rest, rfl⟩ := List.exists_cons_of_ne_nil hne
      obtain ⟨body, rfl, -, -⟩ := (hls l List.mem_cons_self).isLine
      apply hlf (by omega)
      rw [hbytes]
      simp
  refine ⟨e₃, k₂, hrun, hb₃, hp₃.1, by omega, hp₃.2, ?_, ?_, ?_⟩
  · intro hk
    obtain ⟨j, hj, hptr⟩ := hpart hk
    exact ⟨j, hj, (congrArg Ipd.inPtr f3).trans hptr⟩
  · intro hfut
    have hpos := hend hfut
    have : k₁ = 1 ∨ k₁ = 2 := by
      cases hp₁ <;> simp_all
    rcases this with h1 | h2
    · exact hfull h1 hfut
    · have : k₂ = 0 ∨ k₂ = 1 ∨ k₂ = 2 := by
        cases hp₂ <;> simp
      omega
  · rintro hfut rfl
    have h2 : k₁ = 2 := by
      have : k₁ = 0 ∨ k₁ = 1 ∨ k₁ = 2 := by
        cases hp₁ <;> simp
      omega
    subst h2
    have he : e₂ = e₁ := hsame (by decide)
    have hno := hlf (by decide)
    rw [husart₃, he]
    generalize hk : 2 = k at hp₁
    cases hp₁ with
    | waiting => cases hk
    | inside => cases hk
    | complete done rest split _ bytes =>
      have hbytes : e₁.usartBuffer.contents = rest.flatten := by
        rw [hfut, List.append_nil] at bytes
        exact bytes
      cases rest with
      | nil => exact hbytes
      | cons l rest =>
        obtain ⟨body, rfl, -, -⟩ := (hls l (by simp [split])).isLine
        rw [hbytes] at hno
        simp at hno

/-- The buffer of the USART has room for everything that the calls receive. -/
def NoOverflow (p : Platform) : List EspCall → Esp8266 → Prop
  | [], _ => True
  | call :: calls, e => call.received.length ≤ bufferGetFree e.usartBuffer ∧
      ∀ e', (espCall p call).Returns e () e' → NoOverflow p calls e'

/-- A packet that is on its way between two calls. -/
structure Receiving (h : PacketHeader size) (n : Fin 5) (payload : List UInt8) (ls old oldLines : List (List UInt8))
    (future : List UInt8) (k : ℕ) (e : Esp8266) : Prop where
  between : Between (reception n e)
  progress : Progress h n payload ls old oldLines future (reception n e) k
  settled : NotPending n e
  incomplete : k = 1 → ∃ j < size, e.ipd.inPtr = j

include hs hpay hr hls hne in
theorem call_receiving {call : EspCall}
    (hrec : Receiving h n payload ls old oldLines (call.received ++ future) k e)
    (hfit : call.received.length ≤ bufferGetFree e.usartBuffer) :
    ∃ e' k', (espCall p call).Returns e () e' ∧ Receiving h n payload ls old oldLines future k' e' ∧ k ≤ k' := by
  cases call with
  | dataReceived data =>
    have hv : e.usartBuffer.Valid := hrec.between.usart_valid
    have hc : (bufferWrite e.usartBuffer data).1.contents = e.usartBuffer.contents ++ data := by
      have hroom : data.length ≤ bufferGetFree e.usartBuffer := hfit
      rw [bufferWrite_contents hv, List.take_of_length_le hroom]
    have hbytes : ∀ l, e.usartBuffer.contents ++ (data ++ future) = l →
        (bufferWrite e.usartBuffer data).1.contents ++ future = l := by
      rintro l rfl
      rw [hc, List.append_assoc]
    refine ⟨esp8266DataReceived e data, k, by simp [espCall, setEsp], ⟨?_, ?_, hrec.settled, hrec.incomplete⟩,
      Nat.le_refl k⟩
    · exact { hrec.between with
        usart_valid := bufferWrite_valid hv
        usart_size := (bufferWrite_size hv).trans hrec.between.usart_size
        usart_delimiter := (bufferWrite_delimiter hv).trans hrec.between.usart_delimiter }
    · cases hrec.progress with
      | waiting inIPD active call bytes delivered parsed =>
        exact .waiting inIPD active call (hbytes _ bytes) delivered parsed
      | inside j le ipd received active call data bytes delivered parsed =>
        exact .inside j le ipd received active call data (hbytes _ bytes) delivered parsed
      | complete done rest split inIPD bytes delivers parsed =>
        exact .complete done rest split inIPD (hbytes _ bytes) delivers parsed
  | timeUpdate timeIncrease =>
    exact ⟨esp8266TimeUpdate e timeIncrease, k, by simp [espCall, setEsp],
      ⟨hrec.between, hrec.progress, hrec.settled, hrec.incomplete⟩, Nat.le_refl k⟩
  | update =>
    obtain ⟨e', k', hret, hb', hp', hk', hnp, hpart, -, -⟩ :=
      update_progress (p := p) hs hpay hr hls hne hrec.between hrec.progress
    exact ⟨e', k', hret, ⟨hb', hp', hnp, hpart⟩, hk'⟩

include hs hpay hr hls hne in
theorem calls_receiving {calls : List EspCall}
    (hrec : Receiving h n payload ls old oldLines (receivedBytes calls ++ future) k e)
    (hno : NoOverflow p calls e) :
    ∃ e' k', (espCalls p calls).Returns e () e' ∧ Receiving h n payload ls old oldLines future k' e' := by
  induction calls generalizing e k with
  | nil => exact ⟨e, k, Prog.returns_pure.mpr ⟨rfl, rfl⟩, hrec⟩
  | cons call calls ih =>
    have hbytes : receivedBytes (call :: calls) ++ future = call.received ++ (receivedBytes calls ++ future) := by
      simp [receivedBytes]
    rw [hbytes] at hrec
    obtain ⟨e₁, k₁, hr₁, hrec₁, -⟩ := call_receiving (p := p) hs hpay hr hls hne hrec hno.1
    obtain ⟨e₂, k₂, hr₂, hrec₂⟩ := ih hrec₁ (hno.2 e₁ hr₁)
    refine ⟨e₂, k₂, ?_, hrec₂⟩
    simp only [espCalls]
    exact hr₁.bind hr₂

theorem NoOverflow.left {calls calls' : List EspCall} (hno : NoOverflow p (calls ++ calls') e) :
    NoOverflow p calls e := by
  induction calls generalizing e with
  | nil => trivial
  | cons call calls ih => exact ⟨hno.1, fun e' he' => ih (hno.2 e' he')⟩

end packet

/-- The library with a connection that a client has opened. -/
def openEsp : Esp8266 := { connectedEsp with
  connection := fun _ => { Connection.zero with active := true, client := true } }

theorem openEsp_ready : Ready openEsp := { connectedEsp_ready with }

def quietPlatform : Platform := ⟨[], false, fun _ => []⟩

def request : List UInt8 := ascii "GET / HTTP/1.1\r\nHost: lamp\r\n\r\n"

def requestHeader : PacketHeader request.length where
  digits := ascii "30"
  ip := ascii "10.0.0.2"
  port := ascii "80"
  digits_num := by decide +kernel
  digits_ne := by decide +kernel
  digits_le := by decide +kernel
  value := by decide +kernel
  ip_chars := by decide +kernel
  ip_le := by decide +kernel
  port_num := by decide +kernel
  port_le := by decide +kernel

end Lpc1788Libraries.WiFi

import Lpc1788Libraries.Enc28j60.Banks

namespace Lpc1788Libraries.Enc28j60

open Lpc1788Libraries.Support

variable {hw : Hardware} {polls : ℕ} {a d l r β : UInt8} {v : ℕ}

namespace Bus

section parts

theorem coherent_of_at {α : Type} {p : BusM α} (h : ∀ β, Ensures (At β) p fun _ => At β) :
    Ensures Coherent p fun _ => Coherent := by
  intro b hb
  obtain ⟨hlogged, hat⟩ := h b.enc.enc28j60Bank b ⟨hb, rfl⟩
  exact ⟨hlogged, fun x hx => (hat x hx).1⟩

theorem selects_of_ne (ha : a &&& addrMask ≠ econ1) : Call.Selects a d := fun h => absurd h ha

theorem read_coherent : Ensures Coherent (enc28j60Read hw a) fun _ => Coherent :=
  read_ensures.imp (fun _ hb => hb.ready) fun _ _ hb => hb.1

theorem write_coherent (h : Call.Selects a d) : Ensures Coherent (enc28j60Write hw a d) fun _ => Coherent :=
  (write_ensures h).imp (fun _ hb => hb.ready) fun _ _ hb => hb.1

theorem coherent_pure {α : Type} (x : α) : Ensures Coherent (pure x) fun _ => Coherent :=
  Waiting.ensures_pure (fun _ hb => hb.logged) fun _ hb => hb

theorem writeWord_ready (hl : l &&& addrMask ≠ econ1) (hr : r &&& addrMask ≠ econ1) :
    Ensures (Ready l) (writeWord hw l r v) fun _ => Coherent := by
  apply (write_ensures (selects_of_ne hl)).bind
  intro _
  exact (write_coherent (selects_of_ne hr)).imp (fun _ hb => hb.1) fun _ _ hb => hb

theorem writeWord_coherent (hl : l &&& addrMask ≠ econ1) (hr : r &&& addrMask ≠ econ1) :
    Ensures Coherent (writeWord hw l r v) fun _ => Coherent :=
  (writeWord_ready hl hr).imp (fun _ hb => hb.ready) fun _ _ hb => hb

theorem setPointer_coherent (n : Bus → ℕ) : Ensures Coherent
    (Waiting.modify fun b => { b with enc := { b.enc with nextPacketPtr := n b } }) fun _ => Coherent :=
  Waiting.ensures_modify (fun _ hb => hb.logged) fun _ hb => hb

end parts

section functions

theorem phyWait_coherent : Ensures Coherent (Waiting.waitWhile (phyBusy hw) (pure ()) polls) fun _ => Coherent := by
  apply Waiting.ensures_waitWhile
  · exact fun _ hb => hb.logged
  · exact Waiting.Ensures.bind read_coherent fun _ => coherent_pure _
  · exact coherent_pure ()

theorem phyWrite_coherent {data : UInt16} :
    Ensures Coherent (enc28j60PhyWrite hw polls a data) fun _ => Coherent := by
  apply (write_coherent (selects_of_ne (by decide))).bind
  intro _
  apply (write_coherent (selects_of_ne (by decide))).bind
  intro _
  apply (write_coherent (selects_of_ne (by decide))).bind
  exact fun _ => phyWait_coherent

theorem phyRead_coherent : Ensures Coherent (enc28j60PhyRead hw polls a) fun _ => Coherent := by
  apply (write_coherent (selects_of_ne (by decide))).bind
  intro _
  apply (write_coherent (selects_of_ne (by decide))).bind
  intro _
  apply Waiting.Ensures.bind phyWait_coherent
  intro _
  apply (write_coherent (selects_of_ne (by decide))).bind
  intro _
  apply Waiting.Ensures.bind read_coherent
  intro _
  apply Waiting.Ensures.bind read_coherent
  exact fun _ => coherent_pure _

theorem getOUI_coherent : Ensures Coherent (enc28j60GetOUI hw polls) fun _ => Coherent := by
  apply Waiting.Ensures.bind phyRead_coherent
  intro _
  apply Waiting.Ensures.bind phyRead_coherent
  intro _
  apply Waiting.Ensures.bind read_coherent
  exact fun _ => coherent_pure _

/-- After the soft reset the driver may still have another bank in mind. -/
def Reset (b : Bus) : Prop := b.Logged ∧ bankOf b.enc.chip.econ1 = 0

theorem softReset_ensures : Ensures Coherent (softReset hw) fun _ => Reset := by
  apply command_ensures
  · exact fun _ hb => hb.logged
  · exact fun _ _ _ h => absurd h (Option.some_ne_none _).symm
  · exact fun _ _ _ hlogged _ hchip => ⟨hlogged, hchip.trans bankOf_zero⟩

theorem Reset.ready {b : Bus} (h : b.Reset) (ha : a &&& bankMask = 0) : b.Ready a :=
  ⟨h.1, fun heq => h.2.trans (ha.symm.trans heq)⟩

theorem initReceive_ensures : Ensures Reset (initReceive hw) fun _ => Coherent := by
  have hpointer : Ensures Reset (Waiting.modify fun b => { b with enc := { b.enc with nextPacketPtr := rxstartInit } })
      fun _ => Reset := Waiting.ensures_modify (fun _ hb => hb.1) fun _ hb => hb
  have hfirst : Ensures Reset (writeWord hw erxstl erxsth rxstartInit) fun _ => Coherent :=
    (writeWord_ready (by decide) (by decide)).imp (fun _ hb => hb.ready rfl) fun _ _ hb => hb
  apply hpointer.bind
  intro _
  apply hfirst.bind
  intro _
  apply (writeWord_coherent (by decide) (by decide)).bind
  intro _
  apply (writeWord_coherent (by decide) (by decide)).bind
  intro _
  apply (writeWord_coherent (by decide) (by decide)).bind
  exact fun _ => writeWord_coherent (by decide) (by decide)

theorem initFilter_coherent : Ensures Coherent (initFilter hw) fun _ => Coherent := by
  apply (write_coherent (selects_of_ne (by decide))).bind
  intro _
  apply (write_coherent (selects_of_ne (by decide))).bind
  intro _
  apply (write_coherent (selects_of_ne (by decide))).bind
  intro _
  apply (write_coherent (selects_of_ne (by decide))).bind
  exact fun _ => write_coherent (selects_of_ne (by decide))

theorem initMac_coherent : Ensures Coherent (initMac hw) fun _ => Coherent := by
  have hmacon2 : Ensures Coherent (enc28j60Write hw macon2 0x00) fun _ => At 0x40 :=
    (write_ensures (selects_of_ne (by decide))).imp (fun _ hb => hb.ready) fun _ _ hb => hb
  have hmacon3 : Ensures (At 0x40) (enc28j60WriteOp hw .bitFieldSet macon3
      (macon3Padcfg0 ||| macon3Txcrcen ||| macon3Frmlnen)) fun _ => Coherent := by
    have hop : Ensures (At 0x40) (enc28j60WriteOp hw .bitFieldSet macon3
        (macon3Padcfg0 ||| macon3Txcrcen ||| macon3Frmlnen)) fun _ => At 0x40 :=
      writeOp_ensures (fun _ => rfl) fun c => by rw [write_econ1_of_ne (by decide)]
    exact hop.imp (fun _ hb => hb) fun _ _ hb => hb.1
  apply (write_coherent (selects_of_ne (by decide))).bind
  intro _
  apply hmacon2.bind
  intro _
  apply hmacon3.bind
  intro _
  apply (write_coherent (selects_of_ne (by decide))).bind
  intro _
  apply (write_coherent (selects_of_ne (by decide))).bind
  intro _
  apply (write_coherent (selects_of_ne (by decide))).bind
  exact fun _ => writeWord_coherent (by decide) (by decide)

theorem initAddress_coherent {oui : UInt32} : Ensures Coherent (initAddress hw oui) fun _ => Coherent := by
  apply (write_coherent (selects_of_ne (by decide))).bind
  intro _
  apply (write_coherent (selects_of_ne (by decide))).bind
  intro _
  apply (write_coherent (selects_of_ne (by decide))).bind
  intro _
  apply (write_coherent (selects_of_ne (by decide))).bind
  intro _
  apply (write_coherent (selects_of_ne (by decide))).bind
  exact fun _ => write_coherent (selects_of_ne (by decide))

theorem econ1Set_coherent (hd : bankOf d = 0) :
    Ensures Coherent (enc28j60WriteOp hw .bitFieldSet econ1 d) fun _ => Coherent := by
  apply coherent_of_at
  intro β
  apply writeOp_ensures
  · exact fun h => absurd h (by decide)
  · intro c
    rw [write_econ1_set, bankOf_set hd]

theorem econ1Clear_coherent (hd : ~~~d &&& (econ1Bsel1 ||| econ1Bsel0) = econ1Bsel1 ||| econ1Bsel0) :
    Ensures Coherent (enc28j60WriteOp hw .bitFieldClr econ1 d) fun _ => Coherent := by
  apply coherent_of_at
  intro β
  apply writeOp_ensures
  · exact fun h => absurd h (by decide)
  · intro c
    rw [write_econ1_clear, bankOf_clear hd]

theorem commonSet_coherent (ha : ¬a &&& addrMask < 0x1b) (hne : a &&& addrMask ≠ econ1) :
    Ensures Coherent (enc28j60WriteOp hw .bitFieldSet a d) fun _ => Coherent := by
  apply coherent_of_at
  intro β
  apply writeOp_ensures
  · exact fun h => absurd h ha
  · intro c
    rw [write_econ1_of_ne hne]

theorem init_coherent : Ensures Coherent (enc28j60Init hw polls) fun _ => Coherent := by
  have hbank : Ensures Coherent (enc28j60SetBank hw econ1) fun _ => Coherent :=
    setBank_ensures.imp (fun _ hb => hb.ready) fun _ _ hb => hb.1
  apply Waiting.Ensures.bind getOUI_coherent
  intro _
  apply Waiting.Ensures.bind softReset_ensures
  intro _
  apply Waiting.Ensures.bind initReceive_ensures
  intro _
  apply Waiting.Ensures.bind initFilter_coherent
  intro _
  apply Waiting.Ensures.bind initMac_coherent
  intro _
  apply Waiting.Ensures.bind initAddress_coherent
  intro _
  apply Waiting.Ensures.bind phyWrite_coherent
  intro _
  apply hbank.bind
  intro _
  apply (commonSet_coherent (by decide) (by decide)).bind
  exact fun _ => econ1Set_coherent rfl

theorem packetSend_coherent {packet : List UInt8} :
    Ensures Coherent (enc28j60PacketSend hw polls packet) fun _ => Coherent := by
  have hbuffer : ∀ data, Ensures Coherent (enc28j60WriteBuffer hw data) fun _ => Coherent := by
    intro data
    apply coherent_of_at
    intro β
    apply quiet_ensures
    intro s
    refine ⟨rfl, ?_⟩
    change (data.foldl Chip.writeByte s.chip).econ1 = s.chip.econ1
    generalize s.chip = c
    induction data generalizing c with
    | nil => rfl
    | cons x data ih => exact ih (c.writeByte x)
  have hwait : Ensures Coherent (Waiting.waitWhile (transmitBusy hw) (resetTransmit hw) polls) fun _ => Coherent := by
    apply Waiting.ensures_waitWhile
    · exact fun _ hb => hb.logged
    · have hread : Ensures Coherent (readCtrlReg hw econ1) fun _ => Coherent :=
        coherent_of_at fun β => readCtrlReg_ensures fun h => absurd h (by decide)
      exact hread.bind fun _ => coherent_pure _
    · exact (econ1Set_coherent rfl).bind fun _ => econ1Clear_coherent rfl
  apply hwait.bind
  intro _
  apply (writeWord_coherent (by decide) (by decide)).bind
  intro _
  apply (writeWord_coherent (by decide) (by decide)).bind
  intro _
  apply (hbuffer _).bind
  intro _
  apply (hbuffer _).bind
  exact fun _ => econ1Set_coherent rfl

theorem readWord_coherent : Ensures Coherent (readWord hw) fun _ => Coherent := by
  have hread : Ensures Coherent (readBufMem hw) fun _ => Coherent := coherent_of_at fun β => readBufMem_ensures
  apply hread.bind
  intro _
  apply hread.bind
  exact fun _ => coherent_pure _

theorem writeWord_look {s : Bus} (hs : s.Coherent) (hl : l &&& addrMask ≠ econ1) (hr : r &&& addrMask ≠ econ1) :
    Ensures (fun t => t = s) (writeWord hw l r v) fun _ => Coherent :=
  (writeWord_coherent hl hr).imp (fun t ht => by rw [ht]; exact hs) fun _ _ hb => hb

theorem releaseFrame_coherent : Ensures Coherent (releaseFrame hw) fun _ => Coherent := by
  have hlast : Ensures Coherent (enc28j60WriteOp hw .bitFieldSet econ2 econ2Pktdec) fun _ => Coherent :=
    commonSet_coherent (by decide) (by decide)
  apply Waiting.ensures_get_bind
  intro s hs
  apply (writeWord_look hs (by decide) (by decide)).bind
  intro _
  apply Waiting.ensures_get_bind
  intro s hs
  apply Waiting.ensures_ite
  · exact fun _ => (writeWord_look hs (by decide) (by decide)).bind fun _ => hlast
  · exact fun _ => (writeWord_look hs (by decide) (by decide)).bind fun _ => hlast

theorem packetReceive_coherent {maxlen : ℕ} :
    Ensures Coherent (enc28j60PacketReceive hw maxlen) fun _ => Coherent := by
  have hbuffer : ∀ len, Ensures Coherent (enc28j60ReadBuffer hw len) fun _ => Coherent := by
    intro len
    apply coherent_of_at
    intro β
    apply quiet_ensures
    intro s
    change (readBufferLoop len s).1.enc28j60Bank = _ ∧ (readBufferLoop len s).1.chip.econ1 = _
    induction len generalizing s with
    | zero => exact ⟨rfl, rfl⟩
    | succ len ih => exact ih { s with chip := (s.chip.read .readBufMem 0).1 }
  apply Waiting.Ensures.bind read_coherent
  intro count
  apply Waiting.ensures_ite
  · exact fun _ => coherent_pure _
  intro _
  apply Waiting.ensures_get_bind
  intro s hs
  apply (writeWord_look hs (by decide) (by decide)).bind
  intro _
  apply Waiting.Ensures.bind readWord_coherent
  intro next
  apply (setPointer_coherent fun _ => next).bind
  intro _
  apply Waiting.Ensures.bind readWord_coherent
  intro len
  apply Waiting.Ensures.bind readWord_coherent
  intro rxstat
  apply Waiting.ensures_ite
  · intro _
    exact Waiting.Ensures.bind releaseFrame_coherent fun _ => coherent_pure _
  · intro _
    apply (hbuffer _).bind
    intro _
    exact Waiting.Ensures.bind releaseFrame_coherent fun _ => coherent_pure _

end functions

section run

/-- No call writes bank bits into ECON1 behind the driver's back. -/
def Call.Keeps : Call → Prop
  | write address data => Call.Selects address data
  | _ => True

theorem exec_coherent {c : Call} (h : c.Keeps) : Ensures Coherent (c.exec hw polls) fun _ => Coherent := by
  cases c with
  | init => exact init_coherent
  | read address => exact Waiting.Ensures.bind read_coherent fun _ => coherent_pure _
  | write address data => exact write_coherent h
  | phyRead address => exact Waiting.Ensures.bind phyRead_coherent fun _ => coherent_pure _
  | phyWrite address data => exact phyWrite_coherent
  | clkout clk => exact write_coherent (selects_of_ne (by decide))
  | getOUI => exact Waiting.Ensures.bind getOUI_coherent fun _ => coherent_pure _
  | linkup => exact (Waiting.Ensures.bind phyRead_coherent fun _ => coherent_pure _).bind fun _ => coherent_pure _
  | packetSend packet => exact packetSend_coherent
  | packetReceive maxlen => exact Waiting.Ensures.bind packetReceive_coherent fun _ => coherent_pure _

theorem execCalls_coherent {calls : List Call} (h : ∀ c ∈ calls, c.Keeps) :
    Ensures Coherent (execCalls hw polls calls) fun _ => Coherent := by
  induction calls with
  | nil => exact coherent_pure ()
  | cons c calls ih =>
    obtain ⟨hc, hcalls⟩ := List.forall_mem_cons.mp h
    exact (exec_coherent hc).bind fun _ => ih hcalls

/-- The state at power-up: the device is in the first bank, and so is the driver's variable. -/
def powerUp (c : Chip) : Bus := ⟨⟨{ c with econ1 := 0 }, 0, 0⟩, [], 0⟩

theorem powerUp_coherent (c : Chip) : (powerUp c).Coherent := ⟨fun _ hx => absurd hx List.not_mem_nil, bankOf_zero⟩

/-- Whatever the hardware does and however long the loops wait, every register command of a run gets
to the device in the bank of its register. -/
theorem execCalls_right (hw : Hardware) (polls : ℕ) (c : Chip) (calls : List Call) (h : ∀ c ∈ calls, c.Keeps) :
    ∀ x ∈ (execCalls hw polls calls (powerUp c)).2.accesses, x.Right :=
  (execCalls_coherent h _ (powerUp_coherent c)).1

/-- The hardware that does nothing by itself. -/
def idle : Hardware := ⟨fun _ c => c, fun _ _ => rfl⟩

def blank : Chip := ⟨0, ⟨0, 0, 0, 0, 0, 0, fun _ => 0⟩, fun _ => 0⟩

/-- After a read from the last bank, the next write is one to the first bank again. -/
theorem execCalls_erdptl_right : Access.Right ⟨erdptl, bankOf 0x00⟩ := by
  apply execCalls_right idle 1 blank [.write econ1 0x04, .read mistat, .write erdptl 0x12]
  · intro c hc
    simp only [List.mem_cons, List.not_mem_nil, or_false] at hc
    rcases hc with rfl | rfl | rfl
    · exact fun _ => by decide
    · exact trivial
    · exact fun h => absurd h (by decide)
  · have hlog : (execCalls idle 1 [.write econ1 0x04, .read mistat, .write erdptl 0x12] (powerUp blank)).2.accesses.head? =
        some ⟨erdptl, bankOf 0x00⟩ := by decide +kernel
    exact List.mem_of_mem_head? hlog

/-- A write of ECON1 changes the bank without the driver's notice. -/
theorem write_econ1_not_right :
    ¬∀ x ∈ (execCalls idle 0 [.write econ1 0x03, .write erdptl 0x00] (powerUp blank)).2.accesses, x.Right := by
  intro h
  have hmem : (⟨erdptl, 0x60⟩ : Access) ∈
      (execCalls idle 0 [.write econ1 0x03, .write erdptl 0x00] (powerUp blank)).2.accesses := List.mem_cons_self
  exact absurd (h _ hmem (by decide)) (by decide)

end run

section idle

open Waiting

theorem command_follows {α : Type} {f : Enc → Enc × α} {register : Option UInt8} :
    Follows Bus.enc (command idle f register) f := fun _ => ⟨rfl, rfl⟩

theorem setBank_follows : Follows Bus.enc (enc28j60SetBank idle a) fun s => (Enc28j60.enc28j60SetBank s a, ()) := by
  intro b
  dsimp only
  rw [Enc28j60.enc28j60SetBank]
  by_cases hne : a &&& bankMask ≠ b.enc.enc28j60Bank
  · rw [if_pos hne]
    have hswitch : enc28j60SetBank idle a b = (do
        enc28j60WriteOp idle .bitFieldClr econ1 (econ1Bsel1 ||| econ1Bsel0)
        enc28j60WriteOp idle .bitFieldSet econ1 ((a &&& bankMask) >>> 5)
        Waiting.modify fun b => { b with enc := { b.enc with enc28j60Bank := a &&& bankMask } } : BusM Unit) b :=
      congrFun (if_pos hne) b
    rw [hswitch]
    exact ⟨rfl, rfl⟩
  · rw [if_neg hne]
    have hstay : enc28j60SetBank idle a b = (pure () : BusM Unit) b := congrFun (if_neg hne) b
    rw [hstay]
    exact ⟨rfl, rfl⟩

theorem read_follows : Follows Bus.enc (enc28j60Read idle a) fun s => Enc28j60.enc28j60Read s a :=
  Follows.bind setBank_follows fun _ => command_follows

theorem write_follows : Follows Bus.enc (enc28j60Write idle a d) fun s => (Enc28j60.enc28j60Write s a d, ()) :=
  Follows.bind setBank_follows fun _ => command_follows

theorem writeWord_follows : Follows Bus.enc (writeWord idle l r v) fun s => (Enc28j60.writeWord s l r v, ()) :=
  Follows.bind write_follows fun _ => write_follows

theorem readWord_follows : Follows Bus.enc (readWord idle) Enc28j60.readWord :=
  Follows.bind command_follows fun _ => Follows.bind command_follows fun _ => follows_pure _

theorem releaseFrame_follows : Follows Bus.enc (releaseFrame idle) fun s => (Enc28j60.releaseFrame s, ()) := by
  have hwrite : ∀ n : ℕ, Follows Bus.enc (writeWord idle erxrdptl erxrdpth n)
      fun s => (Enc28j60.writeWord s erxrdptl erxrdpth n, ()) := fun n => writeWord_follows
  have hend : ∀ n : ℕ, Follows Bus.enc (do
      writeWord idle erxrdptl erxrdpth n
      enc28j60WriteOp idle .bitFieldSet econ2 econ2Pktdec) fun s => (Enc28j60.enc28j60WriteOp
        (Enc28j60.writeWord s erxrdptl erxrdpth n) .bitFieldSet econ2 econ2Pktdec, ()) := fun n =>
    (hwrite n).bind fun _ => command_follows
  have hafter : Follows Bus.enc (do
      let b ← Waiting.get
      if (b.enc.nextPacketPtr : ℤ) - 1 < rxstartInit ∨ rxstopInit < (b.enc.nextPacketPtr : ℤ) - 1 then
        writeWord idle erxrdptl erxrdpth rxstopInit
      else writeWord idle erxrdptl erxrdpth (b.enc.nextPacketPtr - 1)
      enc28j60WriteOp idle .bitFieldSet econ2 econ2Pktdec) fun s => (Enc28j60.enc28j60WriteOp
        (if (s.nextPacketPtr : ℤ) - 1 < rxstartInit ∨ rxstopInit < (s.nextPacketPtr : ℤ) - 1 then
          Enc28j60.writeWord s erxrdptl erxrdpth rxstopInit
        else Enc28j60.writeWord s erxrdptl erxrdpth (s.nextPacketPtr - 1)) .bitFieldSet econ2 econ2Pktdec, ()) := by
    intro b
    by_cases h : (b.enc.nextPacketPtr : ℤ) - 1 < rxstartInit ∨ rxstopInit < (b.enc.nextPacketPtr : ℤ) - 1
    · have hstop := hend rxstopInit b
      simp only [Waiting.bind_some (show Waiting.get b = (some b, b) from rfl), if_pos h] at hstop ⊢
      exact hstop
    · have hback := hend (b.enc.nextPacketPtr - 1) b
      simp only [Waiting.bind_some (show Waiting.get b = (some b, b) from rfl), if_neg h] at hback ⊢
      exact hback
  exact fun b => ((hwrite b.enc.nextPacketPtr).bind fun _ => hafter) b

theorem copyFrame_follows (len rxstat : ℕ) : Follows Bus.enc (do
    if rxstat &&& 0x80 = 0 then
      releaseFrame idle
      pure (0, [])
    else
      let bytes ← enc28j60ReadBuffer idle len
      releaseFrame idle
      pure (len, bytes)) fun s =>
        if rxstat &&& 0x80 = 0 then (Enc28j60.releaseFrame s, 0, [])
        else
          let r := Enc28j60.enc28j60ReadBuffer s len
          (Enc28j60.releaseFrame r.1, len, r.2) := by
  by_cases h : rxstat &&& 0x80 = 0
  · simp only [if_pos h]
    exact Follows.bind releaseFrame_follows fun _ => follows_pure _
  · simp only [if_neg h]
    exact Follows.bind command_follows fun bytes => Follows.bind releaseFrame_follows fun _ => follows_pure (len, bytes)

theorem packetReceive_follows {maxlen : ℕ} : Follows Bus.enc (enc28j60PacketReceive idle maxlen)
    fun s => Enc28j60.enc28j60PacketReceive s maxlen := by
  have hpointer : ∀ next : ℕ, Follows Bus.enc (Waiting.modify fun b => { b with enc := { b.enc with nextPacketPtr := next } })
      fun s => ({ s with nextPacketPtr := next }, ()) := fun next => follows_modify fun _ => rfl
  have hframe := Follows.bind readWord_follows fun next => (hpointer next).bind fun _ => Follows.bind readWord_follows fun length =>
    Follows.bind readWord_follows fun rxstat => copyFrame_follows
      (if (maxlen : ℤ) - 1 < ((length + 0x10000 - 4) % 0x10000 : ℕ) then (maxlen + 0xffff) % 0x10000
        else (length + 0x10000 - 4) % 0x10000) rxstat
  have hwrite : ∀ n : ℕ, Follows Bus.enc (writeWord idle erdptl erdpth n)
      fun s => (Enc28j60.writeWord s erdptl erdpth n, ()) := fun n => writeWord_follows
  intro b
  obtain ⟨hcount, henc⟩ := read_follows (a := epktcnt) b
  rcases hread : enc28j60Read idle epktcnt b with ⟨count, t⟩
  rw [hread] at hcount henc
  have henc : t.enc = (Enc28j60.enc28j60Read b.enc epktcnt).1 := henc
  rw [enc28j60PacketReceive, bind_some (hread.trans (congrArg (·, t) hcount))]
  dsimp only
  rw [Enc28j60.enc28j60PacketReceive]
  by_cases h : (Enc28j60.enc28j60Read b.enc epktcnt).2 = 0
  · simp only [if_pos h]
    rw [← henc]
    exact follows_pure (0, []) t
  · simp only [if_neg h]
    rw [← henc]
    exact ((hwrite t.enc.nextPacketPtr).bind fun _ => hframe) t

end idle

end Bus

end Lpc1788Libraries.Enc28j60

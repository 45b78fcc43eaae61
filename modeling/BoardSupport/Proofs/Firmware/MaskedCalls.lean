import BoardSupport.Proofs.Csr.Interleaved
import BoardSupport.Proofs.Csr.Sections
import BoardSupport.Proofs.Firmware.TrapPath
import BoardSupport.Proofs.Uart.Transfers

/-!
# Calls that share the console and the handler with traps

The foreground and the trap handler both use the console and the installed handler, and
the lock on each is only ever taken with interrupts masked. For every call of the
firmware that uses them (`Call`), on any devices and with traps at any point where
interrupts are enabled (`Call.Underway`): it uses them with interrupts masked, finds the
enable as it was once it has returned and between two polls for input, and sends a text
or a log record in one masked stretch (`calls_hold_locks_masked`).

`Call.guards` finds the stages of each call, `Call.behaves_sends` where its text stands
among its exchanges. Both are read off the call's program; the traps come in afterwards
through `Happens`.
-/

namespace BoardSupport.Firmware

open Program Stage
open Fifo (Moves)
open Session (logged)

/-! ## Calls -/

/-- A call that uses the console or the installed handler. -/
inductive Call
  | init (config : Uart.Config)
  | print (text : String)
  | printLine (text : String)
  | record (record : LogRecord)
  | inputPending
  | readLine (buffer : List UInt8)
  | install (uptime : Uptime)
  | uptimeSeconds

namespace Call

def perform : Call → Program Unit
  | .init config => initConsole config
  | .print text => Firmware.print text
  | .printLine text => Firmware.printLine text
  | .record r => Program.report r.level r.target (pure r.message)
  | .inputPending => do let _ ← Firmware.inputPending
  | .readLine buffer => do let _ ← Firmware.readLine buffer
  | .install uptime => Firmware.install uptime
  | .uptimeSeconds => do let _ ← Firmware.uptimeSeconds

/-- The bytes that the call sends in one go: a text, or a log record with its line end. -/
def sends : Call → Option (List UInt8)
  | .print text => some text.toUTF8.toList
  | .record r => some (r.line ++ lineEnd).toUTF8.toList
  | _ => none

/-- The log filters asked have let the call's record through. -/
def Heard : Call → List Exchange → Prop
  | .record r, trace => ∀ filter, ⟨.logFilter, filter⟩ ∈ trace → filter.admits r.level = true
  | _, _ => True

/-- From the machine `m` the call has got to where `y` is left of it, with these events. -/
structure Underway {δ : Type} (bus : Bus δ) (call : Call) (m : Machine δ)
    (events : List (Event δ)) (left : Machine δ) (y : Program Unit) : Prop where
  path : ∃ n, Path n (logged call.perform) (ownTrace events) y
  happens : Happens bus events m left

end Call

/-! ## The stages of a call -/

section Guards

variable {α : Type} {st : Stage}

theorem guarded_of_at {b : Block} {r : Request} (h : r.At b) : r.Guarded b := by
  cases r with
  | load b' offset => exact h
  | store b' offset value => exact h
  | _ => exact h.elim

theorem guarded_of_sends {b : Block} {r : Request} (h : r.Sends b) :
    r.Guarded b ∧ r ≠ b.pollRx := by
  rcases h with rfl | ⟨value, rfl⟩
  · refine ⟨rfl, fun hpoll => ?_⟩
    have hoffset : (Fifo.Register.status .tx).offset = (Fifo.Register.status .rx).offset :=
      (Request.load.inj hpoll).2
    exact absurd hoffset (by decide)
  · exact ⟨rfl, nofun⟩

theorem guards_withConsole {use : Uart → Program α} (hst : st.Resting)
    (huse : ∀ enabled, Guards console.block (use console) (.inside enabled false)
      fun _ left => ∃ polled, left = .inside enabled polled) :
    Guards console.block (withConsole use) st fun _ left => left.Resting := by
  refine (Guards.criticalSection hst huse).bind fun result mid hmid => ?_
  cases result with
  | ok v => exact .done hmid
  | error e => exact .done hmid

theorem guards_print (hst : st.Resting) (text : String) :
    Guards console.block (print text) st fun _ left => left.Resting := by
  refine (guards_withConsole hst fun enabled => ?_).bind fun _ mid hmid => .done hmid
  exact (Guards.inside ((console.asks_writeBlock _).mono fun _ => guarded_of_sends)).mono
    fun _ left hleft => ⟨false, hleft⟩

theorem guards_printLine (hst : st.Resting) (text : String) :
    Guards console.block (printLine text) st fun _ left => left.Resting :=
  (guards_print hst text).bind fun _ _ hmid => guards_print hmid lineEnd

theorem guards_initConsole (hst : st.Resting) (config : Uart.Config) :
    Guards console.block (initConsole config) st fun _ left => left.Resting := by
  refine (guards_withConsole hst fun enabled => ?_).bind fun _ mid hmid => ?_
  · refine (Guards.inside ?_).mono fun _ left hleft => ⟨false, hleft⟩
    exact (Asks.request ⟨rfl, nofun⟩).bind fun _ => Asks.request ⟨rfl, nofun⟩
  · exact .request fun _ => ⟨mid, .setFilter _ hmid, hmid⟩

/-- The one poll of a section. -/
theorem guards_rxEmpty (enabled : Bool) :
    Guards console.block (console.hasFlag .rx .empty) (.inside enabled false)
      fun _ left => left = .inside enabled true := by
  have hread : Guards console.block (console.readWord (.status .rx)) (.inside enabled false)
      fun _ left => left = .inside enabled true :=
    .request fun word => ⟨_, .poll enabled word, rfl⟩
  exact (hread.bind fun _ _ hmid => .done hmid).bind fun _ _ hmid => .done hmid

theorem guards_inputPending (hst : st.Resting) :
    Guards console.block inputPending st fun _ left => left.Resting := by
  refine (guards_withConsole hst fun enabled => ?_).bind fun _ mid hmid => .done hmid
  exact (guards_rxEmpty enabled).bind fun _ mid hmid => .done ⟨true, hmid⟩

theorem guards_tryReadByte (enabled : Bool) :
    Guards console.block console.tryReadByte (.inside enabled false)
      fun _ left => left = .inside enabled true := by
  refine (guards_rxEmpty enabled).bind fun empty mid hmid => ?_
  subst hmid
  cases empty with
  | true => exact .done rfl
  | false =>
      refine Guards.inside ((Asks.request ⟨rfl, fun hpoll => ?_⟩).bind fun _ => .done _)
      have hoffset : Fifo.Register.data.offset = (Fifo.Register.status .rx).offset :=
        (Request.load.inj hpoll).2
      exact absurd hoffset (by decide)

/-- A wait for input goes through a section for each poll. -/
theorem guards_readConsoleByte (hst : st.Resting) :
    Guards console.block readConsoleByte st fun _ left => left.Resting := by
  refine Guards.poll (I := Stage.Resting) (fun st hst => ?_) hst
  refine (guards_withConsole hst fun enabled => ?_).bind fun received mid hmid => ?_
  · exact (guards_tryReadByte enabled).mono fun _ left hleft => ⟨true, hleft⟩
  · refine .done ?_
    cases received.join with
    | none => exact hmid
    | some byte => exact hmid

theorem guards_readLine (hst : st.Resting) (buffer : List UInt8) :
    Guards console.block (readLine buffer) st fun _ left => left.Resting := by
  show Guards console.block (Uart.fillLine readConsoleByte buffer) st _
  induction buffer generalizing st with
  | nil => exact .done hst
  | cons slot rest ih =>
      refine (guards_readConsoleByte hst).bind fun byte mid hmid => ?_
      by_cases hend : byte = Uart.carriageReturn
      · rw [if_pos hend]
        exact .done hmid
      · rw [if_neg hend]
        exact (ih hmid).bind fun _ mid hmid => .done hmid

theorem guards_report (hst : st.Resting) (record : LogRecord) :
    Guards console.block (logged (Program.report record.level record.target (pure record.message)))
      st fun _ left => left.Resting := by
  rw [Program.report, bind_eq, logged_bind]
  have hfilter : Guards console.block (logged (request .logFilter)) st fun _ left => left.Resting :=
    .request fun filter => ⟨st, .askFilter filter hst, hst⟩
  refine hfilter.bind fun filter mid hmid => ?_
  cases hheard : filter.admits record.level with
  | false => exact .done hmid
  | true =>
      exact (guards_print hmid (record.line ++ lineEnd)).bind fun _ _ hleft => .done hleft

theorem guards_install (hst : st.Resting) (uptime : Uptime) :
    Guards console.block (logged (install uptime)) st fun _ left => left.Resting := by
  have hset : Asks (fun r => r.Guarded console.block ∧ r ≠ console.block.pollRx)
      (request (.setHandlerSlot (some uptime))) := Asks.request ⟨trivial, nofun⟩
  rw [install, bind_eq, logged_bind, logged_criticalSection]
  refine (Guards.criticalSection hst fun enabled => ?_).bind fun result mid hmid => ?_
  · exact (Guards.inside hset).mono fun _ left hleft => ⟨false, hleft⟩
  · cases result with
    | ok u => exact .done hmid
    | error e => exact guards_report hmid ⟨.error, .firmwareTrap, "trap handler not installed"⟩

theorem logged_ofExcept (result : Except Fault α) :
    logged (Program.ofExcept result) = Program.ofExcept result := by
  cases result with
  | ok v => rfl
  | error c => rfl

/-- Working out the seconds may fail, and then the call does not come back. -/
theorem guards_uptimeSeconds (hst : st.Resting) :
    Guards console.block (logged uptimeSeconds) st fun _ left => left.Resting := by
  rw [uptimeSeconds, bind_eq, logged_bind, logged_criticalSection]
  refine (Guards.criticalSection hst fun enabled => ?_).bind fun result mid hmid => ?_
  · rw [bind_eq, logged_bind]
    have hslot : Guards console.block (logged (request .handlerSlot)) (.inside enabled false)
        fun _ left => left = .inside enabled false :=
      .request fun slot => ⟨_, .use enabled false slot trivial nofun, rfl⟩
    refine hslot.bind fun slot mid hmid => ?_
    cases slot with
    | none => exact .done ⟨false, hmid⟩
    | some uptime =>
        rw [logged_ofExcept]
        exact .ofExcept _ fun _ => ⟨false, hmid⟩
  · cases result with
    | ok s => exact .done hmid
    | error e => exact .done hmid

end Guards

/-- Every call uses what it shares in sections only, and comes back to rest. -/
theorem Call.guards (call : Call) :
    Guards console.block (logged call.perform) .outside fun _ left => left.Resting := by
  have hst : Stage.outside.Resting := trivial
  cases call with
  | init config =>
      exact logged_eq (asks_initConsole config) ▸ guards_initConsole hst config
  | print text => exact logged_eq (asks_print text) ▸ guards_print hst text
  | printLine text =>
      exact logged_eq (asks_printLine text) ▸ guards_printLine hst text
  | record r => exact guards_report hst r
  | inputPending =>
      rw [Call.perform, bind_eq, logged_bind, logged_eq asks_inputPending]
      exact (guards_inputPending hst).bind fun _ _ hmid => .done hmid
  | readLine buffer =>
      rw [Call.perform, bind_eq, logged_bind, logged_eq (asks_readLine buffer)]
      exact (guards_readLine hst buffer).bind fun _ _ hmid => .done hmid
  | install uptime => exact guards_install hst uptime
  | uptimeSeconds =>
      rw [Call.perform, bind_eq, logged_bind]
      exact (guards_uptimeSeconds hst).bind fun _ _ hmid => .done hmid

/-! ## The text of a call -/

/-- The trace sends the beginning of the bytes, with nothing else that devices see. -/
def Sending (bytes : List UInt8) (trace : List Exchange) : Prop :=
  ∃ sent, sent <+: bytes ∧ Wrapped (Moves console.block sent []) trace

/-- At the end of the call the bytes are sent, or what kept them back can be seen:
interrupts could not be masked, or the record was filtered. -/
def Call.Settled (call : Call) (bytes : List UInt8) (trace : List Exchange) : Prop :=
  Wrapped (Moves console.block bytes []) trace ∨
    Sending bytes trace ∧ (MaskRefused trace ∨ ¬ call.Heard trace)

section Sending

variable {call : Call} {bytes : List UInt8} {trace : List Exchange} {e : Exchange}

theorem sending_nil : Sending bytes [] := ⟨[], List.nil_prefix, .of_body .nil⟩

theorem Sending.cons (he : e.request.isAccess = false) (h : Sending bytes trace) :
    Sending bytes (e :: trace) := by
  obtain ⟨sent, hsent, h⟩ := h
  exact ⟨sent, hsent, h.cons he⟩

/-- A text is sent in one section. -/
theorem behaves_print (call : Call) (text : String) :
    Behaves (print text) (Sending text.toUTF8.toList) fun _ =>
      call.Settled text.toUTF8.toList := by
  have hsending (trace : List Exchange)
      (h : Wrapped (fun t => ∃ sent, sent <+: text.toUTF8.toList ∧ Moves console.block sent [] t)
        trace) : Sending text.toUTF8.toList trace := by
    obtain ⟨head, body, tail, heq, ⟨sent, hsent, hbody⟩, hhead, htail⟩ := h
    exact ⟨sent, hsent, head, body, tail, heq, hbody, hhead, htail⟩
  have hsection := Interrupts.behaves_section ⟨[], List.nil_prefix, .nil⟩
    (console.behaves_writeBlock text.toUTF8.toList) fun _ t ht => ⟨_, List.prefix_rfl, ht⟩
  have hsettled : Behaves (Interrupts.criticalSection (console.writeText text))
      (Sending text.toUTF8.toList) fun _ => call.Settled text.toUTF8.toList := by
    refine hsection.mono hsending fun _ t ht => ?_
    rcases ht with ⟨_, hsent⟩ | ⟨hpart, hrefused⟩
    · exact Or.inl hsent
    · exact Or.inr ⟨hsending t hpart, Or.inl hrefused⟩
  rw [print, withConsole, bind_eq, bind_eq, bind_assoc]
  refine hsettled.bind (fun _ h => h) fun result t ht => ?_
  rw [← List.append_nil t] at ht
  cases result with
  | ok v => exact .done ht
  | error e => exact .done ht

/-- A record is sent in one section, once it was let through. -/
theorem behaves_report (record : LogRecord) (h : (Call.record record).sends = some bytes) :
    Behaves (logged (Program.report record.level record.target (pure record.message)))
      (Sending bytes) fun _ => (Call.record record).Settled bytes := by
  have hfilter : Behaves (logged (request .logFilter)) (Sending bytes) fun filter t =>
      t = [⟨.logFilter, filter⟩] := .request sending_nil fun _ => rfl
  rw [Program.report, bind_eq, logged_bind]
  refine hfilter.bind (fun _ h => h) ?_
  rintro filter _ rfl
  cases hheard : filter.admits record.level with
  | false =>
      refine .done (Or.inr ⟨sending_nil.cons rfl, Or.inr fun h => ?_⟩)
      rw [h filter List.mem_cons_self] at hheard
      cases hheard
  | true =>
      cases h
      have hprint : Behaves (logged (request (.log record)))
          (Sending (record.line ++ lineEnd).toUTF8.toList) fun _ =>
            (Call.record record).Settled (record.line ++ lineEnd).toUTF8.toList :=
        (behaves_print (.record record) (record.line ++ lineEnd)).map fun _ t ht => ht
      refine hprint.mono (fun t ht => ht.cons rfl) fun _ t ht => ?_
      rcases ht with hsent | ⟨hpart, ⟨op, error, hrefused⟩ | hunheard⟩
      · exact Or.inl (hsent.cons rfl)
      · exact Or.inr ⟨hpart.cons rfl, Or.inl ⟨op, error, List.mem_cons_of_mem _ hrefused⟩⟩
      · refine Or.inr ⟨hpart.cons rfl, Or.inr fun h => hunheard fun filter hmem => ?_⟩
        exact h filter (List.mem_cons_of_mem _ hmem)

theorem Call.behaves_sends (h : call.sends = some bytes) :
    Behaves (logged call.perform) (Sending bytes) fun _ => call.Settled bytes := by
  cases call with
  | print text =>
      cases h
      exact logged_eq (asks_print text) ▸ behaves_print (.print text) text
  | record r => exact behaves_report r h
  | _ => cases h

end Sending

section Underway

variable {δ : Type} {bus : Bus δ} {call : Call} {m left : Machine δ} {events : List (Event δ)}
  {y : Program Unit} {bytes : List UInt8}

/-- The call has sent the beginning of its text, and all of it when it has returned. -/
theorem Call.Underway.exists_sent (h : call.Underway bus m events left y)
    (hsends : call.sends = some bytes) :
    ∃ sent, sent <+: bytes ∧ Wrapped (Moves console.block sent []) (ownTrace events) ∧
      (y = .done () → m.csrs.refusal .mstatus = none → call.Heard (ownTrace events) →
        sent = bytes) := by
  obtain ⟨n, hpath⟩ := h.path
  have hx := Call.behaves_sends hsends n (ownTrace events) y hpath
  cases y with
  | done u =>
      rcases hx with hsent | ⟨⟨sent, hprefix, hsent⟩, hwhy⟩
      · exact ⟨bytes, List.prefix_rfl, hsent, fun _ _ _ => rfl⟩
      · refine ⟨sent, hprefix, hsent, fun _ hr hheard => ?_⟩
        rcases hwhy with ⟨op, error, hrefused⟩ | hunheard
        · exact absurd hrefused (h.happens.not_refused hr)
        · exact absurd hheard hunheard
  | fault c => exact hx.elim
  | ask r k =>
      obtain ⟨sent, hprefix, hsent⟩ := hx
      exact ⟨sent, hprefix, hsent, nofun⟩
  | loop g turn next =>
      obtain ⟨sent, hprefix, hsent⟩ := hx
      exact ⟨sent, hprefix, hsent, nofun⟩

/-- The bytes are sent without a break: the call writes them in one stretch of its own
exchanges, with interrupts masked all along, and devices see nothing else of it. -/
def Unbroken (sent : List UInt8) (events : List (Event δ)) : Prop :=
  ∃ before stretch after, events = before ++ stretch ++ after ∧
    (∀ event ∈ stretch, ∃ m e, event = .own m e ∧ m.interruptsEnabled = false) ∧
    (stretch.flatMap Event.exchanges).filterMap (Exchange.wroteTo? console.block .data)
      = sent.map UInt8.toUInt32 ∧
    Unseen (ownTrace before) ∧ Unseen (ownTrace after)

namespace Call.Underway

theorem exists_follows (h : call.Underway bus m events left y) :
    ∃ st, Follows console.block .outside (ownTrace events) st ∧ (y = .done () → st.Resting) := by
  obtain ⟨n, hpath⟩ := h.path
  obtain ⟨st, hf, hrest⟩ := call.guards n _ y hpath
  exact ⟨st, hf, hrest ()⟩

theorem unbroken (h : call.Underway bus m events left y) {sent : List UInt8}
    (hsent : Wrapped (Moves console.block sent []) (ownTrace events)) : Unbroken sent events := by
  obtain ⟨st, hf, -⟩ := h.exists_follows
  obtain ⟨head, body, tail, hown, hbody, hhead, htail⟩ := hsent
  have hat : ∀ e ∈ body, e.request.At console.block := by
    intro e he
    rcases hbody.handshake.accesses e he with ⟨side, word, rfl⟩ | ⟨word, rfl⟩ | ⟨value, rfl⟩
    · rfl
    · rfl
    · rfl
  have hstart : Stage.outside.Agrees m m := rfl
  obtain ⟨before, stretch, after, rfl, rfl, rfl, rfl, hall⟩ := h.happens.exists_stretch hown
    (fun e he => (hat e he).isAccess)
    fun m' e hmem he => h.happens.disabled hf hstart hmem (guarded_of_at (hat e he))
  refine ⟨before, stretch, after, rfl, hall, ?_, hhead, htail⟩
  rw [flatMap_exchanges hall]
  exact hbody.wroteTo

end Call.Underway

/-- **The firmware's locks are only held with interrupts masked.** For every call, on any
devices, from any CSRs, and with traps wherever interrupts are enabled, at every point and
also if it never returns:

* the console and the installed handler are used with interrupts disabled, and a trap
  finds the call outside of its sections;
* once the call has returned, the enable is as it was, and with it all of the CSRs that
  the traps have left alone: all of them if there was no trap;
* between two polls for input the enable is as it was at the start;
* the bytes of a text or of a log record are sent without a break, from the first one on,
  and all of them once the call has returned, if interrupts can be masked and the record
  is not filtered. -/
theorem calls_hold_locks_masked (h : call.Underway bus m events left y) :
    (∀ m' e, .own m' e ∈ events → e.request.Guarded console.block →
      m'.interruptsEnabled = false) ∧
    (∀ before m' exchanges resumed after,
      events = before ++ .trap m' exchanges resumed :: after →
        ∃ st, Follows console.block .outside (ownTrace before) st ∧ ¬ st.Holding) ∧
    (y = .done () → left.interruptsEnabled = m.interruptsEnabled ∧
      ∀ (β : Type) (view : CsrUnit → β), Spared view events → view left.csrs = view m.csrs) ∧
    (∀ before m₁ e₁ between m₂ e₂ after,
      events = before ++ .own m₁ e₁ :: (between ++ .own m₂ e₂ :: after) →
        e₁.request = console.block.pollRx → e₂.request = console.block.pollRx →
          ∃ m' e, .own m' e ∈ between ∧ m'.interruptsEnabled = m.interruptsEnabled) ∧
    ∀ bytes, call.sends = some bytes → ∃ sent, sent <+: bytes ∧ Unbroken sent events ∧
      (y = .done () → m.csrs.refusal .mstatus = none → call.Heard (ownTrace events) →
        sent = bytes) := by
  obtain ⟨st, hf, hrest⟩ := h.exists_follows
  have hstart : Stage.outside.Agrees m m := rfl
  refine ⟨fun m' e => h.happens.disabled hf hstart, ?_, fun hy => ?_, ?_, fun bytes hbytes => ?_⟩
  · rintro before m' exchanges resumed after rfl
    exact h.happens.not_holding_of_trap hf hstart
  · obtain ⟨base, hbase, henabled, hview⟩ := h.happens.agrees hf hstart
    have hcsrs := hbase.resting (hrest hy)
    refine ⟨(Machine.interruptsEnabled_congr hcsrs).trans henabled, fun β view hspared => ?_⟩
    rw [hcsrs]
    exact hview β view hspared
  · rintro before m₁ e₁ between m₂ e₂ after rfl
    exact h.happens.enabled_between_polls hf hstart
  · obtain ⟨sent, hprefix, hsent, hall⟩ := h.exists_sent hbytes
    exact ⟨sent, hprefix, h.unbroken hsent, hall⟩

end Underway

/-- A handler writes to the console after a print has looked at the enable and before it
masks, and again when it has unmasked: its bytes stand on both sides of the text. -/
theorem calls_hold_locks_masked_interrupted :
    let m : Machine UartModel := Machine.setCsr { device := { loopback := false } } .mstatus 0x8
    ∃ events left, (Call.print "AB").Underway UartModel.bus m events left (.done ()) ∧
      left.device.sent.toList = [0x21, 0x41, 0x42, 0x3F] ∧ left.interruptsEnabled = true ∧
      Unbroken [0x41, 0x42] events := by
  have htext : "AB".toUTF8.toList = [0x41, 0x42] := by decide +kernel
  let own : List Exchange := [⟨.readCsr .mstatus, (0x8 : UInt32)⟩,
    ⟨.updateCsr .mstatus (.clearBits Csr.interruptEnable), .ok ()⟩,
    .read console.block (.status .tx) 0x20000, .wrote console.block .data 0x41,
    .read console.block (.status .tx) 0x20000, .wrote console.block .data 0x42,
    ⟨.updateCsr .mstatus (.setBits Csr.interruptEnable), .ok ()⟩]
  have hpath : ∃ n, Path n (print "AB") own (.done ()) := by
    have hwrite : console.writeText "AB" = console.writeBlock [0x41, 0x42] :=
      congrArg console.writeBlock htext
    rw [print, withConsole, hwrite]
    exact ⟨9, .ask _ (.ask _
      (.loop (.ask _ (.ask _ (.loop (.ask _ (.ask _ (.ask _ (.refl _)))))))))⟩
  have handle {m m' : Machine UartModel} (byte : UInt32)
      (h : Machine.platform UartModel.bus (.store console.block Fifo.Register.data.offset byte) m
        = .returned () m') :
      Answered (Machine.platform UartModel.bus) [.wrote console.block .data byte] m m' :=
    .cons h (.nil m')
  have hhappens : ∃ events left, Happens UartModel.bus events
        (Machine.setCsr { device := { loopback := false } } .mstatus 0x8) left ∧
      ownTrace events = own ∧ left.device.sent.toList = [0x21, 0x41, 0x42, 0x3F] ∧
      left.interruptsEnabled = true :=
    ⟨_, _, .own (e := ⟨.readCsr .mstatus, (0x8 : UInt32)⟩) rfl
      (.trap ⟨0x80000007, 0, 0⟩ 0x80 rfl (handle 0x21 rfl) rfl
      (.own (e := ⟨.updateCsr .mstatus (.clearBits Csr.interruptEnable), .ok ()⟩) rfl
      (.own (e := .read console.block (.status .tx) 0x20000) rfl
      (.own (e := .wrote console.block .data 0x41) rfl
      (.own (e := .read console.block (.status .tx) 0x20000) rfl
      (.own (e := .wrote console.block .data 0x42) rfl
      (.own (e := ⟨.updateCsr .mstatus (.setBits Csr.interruptEnable), .ok ()⟩) rfl
      (.trap ⟨0x80000007, 0, 0⟩ 0x80 rfl (handle 0x3F rfl) rfl (.nil _))))))))), rfl, rfl, rfl⟩
  intro m
  obtain ⟨events, left, hhappens, hown, hsent, hleft⟩ := hhappens
  have hcall : (Call.print "AB").Underway UartModel.bus m events left (.done ()) := by
    refine ⟨?_, hhappens⟩
    rw [hown, Call.perform, logged_eq (asks_print "AB")]
    exact hpath
  obtain ⟨-, -, -, -, hbytes⟩ := calls_hold_locks_masked hcall
  obtain ⟨sent, -, hunbroken, hall⟩ := hbytes _ rfl
  rw [hall rfl rfl trivial, htext] at hunbroken
  exact ⟨events, left, hcall, hsent, hleft, hunbroken⟩

end BoardSupport.Firmware

import BoardSupport.Proofs.Control.Updates
import BoardSupport.Proofs.Program.Requests
import BoardSupport.Proofs.Spi.Transfers

/-!
# The calls of the SPI driver, one at a time

Most calls ask for little: they read, they write bits of the control word through its
aliases, and of the status words they set watermark bits at most (`Mild`,
`asks_perform`). What is left are the calls that write the control word itself, and
transactions, which hold calls of their own. A statement about runs of all of them is
made of one about single calls and one about the ends of a transaction (`RunRule`).
-/

namespace BoardSupport

open Program
open Fifo (Flag Register Side)

namespace Spi

/-! ## Commands inside commands -/

mutual

/-- The command is one of `p`, or has one inside its transaction. -/
def Command.anywhere (p : Command → Bool) : Command → Bool
  | .withTransaction body => p (.withTransaction body) || anyCommand p body
  | c => p c

def anyCommand (p : Command → Bool) : List Command → Bool
  | [] => false
  | c :: rest => c.anywhere p || anyCommand p rest

end

def Command.isTransaction : Command → Bool
  | .withTransaction _ => true
  | _ => false

theorem Command.anywhere_of_single {c : Command} (hc : c.isTransaction = false)
    (p : Command → Bool) : c.anywhere p = p c := by
  cases c with
  | withTransaction body => cases hc
  | _ => rfl

/-- A property of the runs of single commands and one of the runs of lists of them that
follow how commands are put together. -/
structure RunRule {σ : Type} (s : Spi) (p : Platform σ)
    (I : Command → σ → Answer → σ → Prop) (J : List Command → σ → List Answer → σ → Prop) :
    Prop where
  single : ∀ {c m a m'}, c.isTransaction = false → Returns p (s.perform c) m a m' → I c m a m'
  transaction : ∀ {body as m m₁ m₂ m'}, Returns p s.beginTransaction m () m₁ → J body m₁ as m₂ →
    Returns p s.endTransaction m₂ () m' → I (.withTransaction body) m (.transaction as) m'
  nil : ∀ {m}, J [] m [] m
  cons : ∀ {c rest a as m m₁ m'}, I c m a m₁ → J rest m₁ as m' → J (c :: rest) m (a :: as) m'

section Runs

variable {σ : Type} {s : Spi} {p : Platform σ} {I : Command → σ → Answer → σ → Prop}
  {J : List Command → σ → List Answer → σ → Prop}

mutual

theorem RunRule.of_perform (h : RunRule s p I J) {m m' : σ} {a : Answer} :
    (c : Command) → Returns p (s.perform c) m a m' → I c m a m'
  | .withTransaction body, hret => by
    -- A transaction is its start, its body as a run of its own, and its end.
    obtain ⟨as, rfl, htransaction⟩ := returns_map.mp hret
    obtain ⟨_, m₁, hbegin, hbodyend⟩ := returns_bind.mp htransaction
    obtain ⟨bs, m₂, hbody, hended⟩ := returns_bind.mp hbodyend
    obtain ⟨_, rfl, hend⟩ := returns_map.mp hended
    exact h.transaction hbegin (h.of_performAll body hbody) hend
  | .init _, hret | .set _, hret | .get _, hret | .query _, hret | .setEnabled _ _, hret
  | .clearOverflow _, hret | .clearRxUnderflow, hret | .setWatermark _ _, hret | .flushRx, hret
  | .writeByte _, hret | .readByte, hret | .transferByte _, hret | .beginTransaction, hret
  | .endTransaction, hret | .writeBlock _, hret | .readBlock _, hret => h.single rfl hret

theorem RunRule.of_performAll (h : RunRule s p I J) {m m' : σ} {as : List Answer} :
    (commands : List Command) → Returns p (s.performAll commands) m as m' → J commands m as m'
  | [], hret => by
    obtain ⟨rfl, rfl⟩ := returns_done.mp hret
    exact h.nil
  | c :: rest, hret => by
    obtain ⟨a, m₁, hfirst, hothers⟩ := returns_bind.mp hret
    obtain ⟨bs, rfl, hrest⟩ := returns_map.mp hothers
    exact h.cons (h.of_perform c hfirst) (h.of_performAll rest hrest)

end

end Runs

/-! ## Setters -/

/-- The word that a setting hands to its field. -/
def Setting.word : Setting → UInt32
  | .outputs enabled => enabled.toUInt32
  | .role value => (value == .master).toUInt32
  | .mode value => value.code
  | .clockDivider exponent => exponent.toUInt32
  | .activeSlave slave => slave.toUInt32
  | .softwareSelect software => software.toUInt32
  | .pulseMode enabled => enabled.toUInt32
  | .select asserted => (!asserted).toUInt32

/-- A setter sets or clears one bit, or rewrites one field. -/
theorem change_cases (s : Spi) (setting : Setting) :
    (setting.field.width = 1 ∧ ∃ set : Bool, setting.word = set.toUInt32 ∧
      s.change setting = s.setControlBits setting.field set) ∨
    s.change setting = s.setControlField setting.field setting.word := by
  cases setting with
  | outputs _ | role _ | softwareSelect _ | pulseMode _ => exact Or.inl ⟨rfl, _, rfl, rfl⟩
  | select asserted => cases asserted <;> exact Or.inl ⟨rfl, _, rfl, rfl⟩
  | mode _ | clockDivider _ | activeSlave _ => exact Or.inr rfl

/-! ## What a call asks for -/

/-- A request that reads or logs, queues a byte, or writes few bits: of the control word
only bits in `S`, through its aliases; of a status word it sets watermark bits and clears
any but the enable bit, which it writes only if `switches`. -/
inductive Mild (S : Nat → Prop) (switches : Prop) : Request → Prop
  | load {b : Block} {offset : Nat} : Mild S switches (.load b offset)
  | queue {b : Block} {value : UInt32} : Mild S switches (.store b Register.data.offset value)
  | control {b : Block} {r : Register} {value : UInt32} (hr : r = .controlSet ∨ r = .controlClear)
      (hvalue : ∀ i, bitAt value i = true → S i) : Mild S switches (.store b r.offset value)
  | watermark {b : Block} {side : Side} {value : UInt32}
      (hvalue : ∀ i, bitAt value i = true → Fifo.watermarkField.Covers i) :
      Mild S switches (.store b (Register.statusSet side).offset value)
  | clear {b : Block} {side : Side} {value : UInt32} (hvalue : bitAt value 31 = false) :
      Mild S switches (.store b (Register.statusClear side).offset value)
  | switch {b : Block} {side : Side} {r : Register}
      (hr : r = .statusSet side ∨ r = .statusClear side) (h : switches) :
      Mild S switches (.store b r.offset enableMask)
  | logFilter : Mild S switches .logFilter
  | log {record : LogRecord} : Mild S switches (.log record)

/-- A call that does not write the control word itself and holds no other calls. -/
def Command.isMild : Command → Bool
  | .init _ | .withTransaction _ | .writeBlock _ | .readBlock _ => false
  | _ => true

/-- The fields of the control word that a call changes through the aliases. -/
def Command.fields : Command → List Field
  | .set setting => [setting.field]
  | .beginTransaction | .endTransaction => [softwareSelectField, selectLevelField]
  | _ => []

/-- The call may switch a side on or off. -/
def Command.switches : Command → Bool
  | .setEnabled _ _ | .beginTransaction => true
  | _ => false

section Asks

variable {S T : Nat → Prop} {switches switches' : Prop} (s : Spi)

theorem Mild.mono {r : Request} (h : Mild S switches r) (hST : ∀ i, S i → T i)
    (hsw : switches → switches') : Mild T switches' r := by
  cases h with
  | load => exact .load
  | queue => exact .queue
  | control hr hvalue => exact .control hr fun i hi => hST i (hvalue i hi)
  | watermark hvalue => exact .watermark hvalue
  | clear hvalue => exact .clear hvalue
  | switch hr h => exact .switch hr (hsw h)
  | logFilter => exact .logFilter
  | log => exact .log

theorem asks_readWord (r : Register) : Asks (Mild S switches) (s.readWord r) :=
  Asks.request .load

theorem asks_hasStatusBit (side : Side) (mask : UInt32) :
    Asks (Mild S switches) (s.hasStatusBit side mask) :=
  (s.asks_readWord _).bind fun _ => .done _

theorem asks_hasFlag (side : Side) (flag : Flag) : Asks (Mild S switches) (s.hasFlag side flag) :=
  ((s.asks_readWord _).bind fun _ => .done _).bind fun _ => .done _

theorem asks_waitTxReady : Asks (Mild S switches) s.waitTxReady :=
  Asks.waitUntil (s.asks_hasStatusBit .tx readyMask)

theorem asks_flushRx : Asks (Mild S switches) s.flushRx := by
  refine Asks.poll ((s.asks_hasFlag .rx .empty).bind fun empty => ?_)
  cases empty with
  | true => exact .done _
  | false => exact (s.asks_readWord .data).bind fun _ => .done _

theorem asks_writeByte (byte : UInt8) : Asks (Mild S switches) (s.writeByte byte) :=
  (Asks.waitUntil ((s.asks_hasFlag .tx .full).bind fun _ => .done _)).bind fun _ =>
    Asks.request .queue

theorem asks_readByte : Asks (Mild S switches) s.readByte :=
  (Asks.waitUntil ((s.asks_hasFlag .rx .empty).bind fun _ => .done _)).bind fun _ =>
    (s.asks_readWord .data).bind fun _ => .done _

theorem asks_setControlBits (f : Field) (set : Bool) :
    Asks (Mild f.Covers switches) (s.setControlBits f set) := by
  have hmask : ∀ i, bitAt f.mask i = true → f.Covers i := by
    intro i hi
    rw [Field.bitAt_mask] at hi
    exact of_decide_eq_true hi
  cases set with
  | true => exact Asks.request (.control (r := .controlSet) (Or.inl rfl) hmask)
  | false => exact Asks.request (.control (r := .controlClear) (Or.inr rfl) hmask)

theorem asks_setControlField (f : Field) (value : UInt32) :
    Asks (Mild f.Covers switches) (s.setControlField f value) := by
  have hclear : Asks (Mild f.Covers switches) (s.writeWord .controlClear f.mask) :=
    s.asks_setControlBits f false
  refine hclear.bind fun _ => Asks.request (.control (r := .controlSet) (Or.inl rfl) ?_)
  exact fun i hi => Field.covers_of_bitAt_put hi

theorem asks_change (setting : Setting) :
    Asks (Mild setting.field.Covers switches) (s.change setting) := by
  rcases s.change_cases setting with ⟨-, set, -, heq⟩ | heq
  · rw [heq]
    exact s.asks_setControlBits setting.field set
  · rw [heq]
    exact s.asks_setControlField setting.field setting.word

/-- The two select bits, written in any order. -/
theorem asks_select (f : Field) (hf : f ∈ [softwareSelectField, selectLevelField]) (set : Bool) :
    Asks (Mild (Covered [softwareSelectField, selectLevelField]) switches)
      (s.setControlBits f set) :=
  (s.asks_setControlBits f set).mono fun _ hr => hr.mono (fun _ hi => ⟨f, hf, hi⟩) id

theorem asks_enable (h : switches) (side : Side) : Asks (Mild S switches) (s.enable side) :=
  Asks.request (.switch (Or.inl rfl) h)

theorem asks_disable (h : switches) (side : Side) : Asks (Mild S switches) (s.disable side) :=
  Asks.request (.switch (Or.inr rfl) h)

theorem asks_beginTransaction (h : switches) :
    Asks (Mild (Covered [softwareSelectField, selectLevelField]) switches)
      s.beginTransaction := by
  refine s.asks_waitTxReady.bind fun _ => s.asks_flushRx.bind fun _ =>
    (s.asks_enable h .tx).bind fun _ => ?_
  exact (s.asks_select softwareSelectField (by simp) true).bind fun _ =>
    s.asks_select selectLevelField (by simp) false

theorem asks_endTransaction :
    Asks (Mild (Covered [softwareSelectField, selectLevelField]) switches) s.endTransaction := by
  refine s.asks_waitTxReady.bind fun _ => ?_
  exact (s.asks_select selectLevelField (by simp) true).bind fun _ =>
    s.asks_select softwareSelectField (by simp) false

theorem asks_setWatermark (side : Side) (level : UInt8) :
    Asks (Mild S switches) (s.setWatermark side level) := by
  have hclear : Asks (Mild S switches) (s.writeWord (.statusClear side) Fifo.watermarkField.mask) :=
    Asks.request (.clear (by decide))
  exact hclear.bind fun _ => Asks.request (.watermark fun _ hi => Field.covers_of_bitAt_put hi)

theorem asks_readControl (query : ControlQuery) :
    Asks (Mild S switches) (s.readControl query) := by
  have hword : Asks (Mild S switches) s.control := s.asks_readWord .control
  cases query with
  | isMaster | sckHz clockHz =>
      exact ((hword.bind fun _ => .done _).bind fun _ => .done _).bind fun _ => .done _
  | _ => exact (hword.bind fun _ => .done _).bind fun _ => .done _

theorem asks_readStatus (query : StatusQuery) : Asks (Mild S switches) (s.readStatus query) := by
  cases query with
  | status side => exact ((s.asks_readWord _).bind fun _ => .done _).bind fun _ => .done _
  | flag side flag => exact (s.asks_hasFlag side flag).bind fun _ => .done _
  | ready | underflow | enabled side => exact (s.asks_hasStatusBit _ _).bind fun _ => .done _

theorem asks_writeBytes (bytes : List UInt8) : Asks (Mild S switches) (s.writeBytes bytes) := by
  induction bytes with
  | nil => exact .done _
  | cons byte rest ih => exact (s.asks_writeByte byte).bind fun _ => ih

theorem asks_transferByte (byte : UInt8) : Asks (Mild S switches) (s.transferByte byte) :=
  (s.asks_writeByte byte).bind fun _ => s.asks_readByte

theorem asks_readBytes (count : Nat) : Asks (Mild S switches) (s.readBytes count) := by
  induction count with
  | zero => exact .done _
  | succ count ih => exact (s.asks_transferByte 0).bind fun _ => ih.bind fun _ => .done _

/-- A mild call changes at most its own fields of the control word. -/
theorem asks_perform {c : Command} (hc : c.isMild = true) :
    Asks (Mild (Covered c.fields) (c.switches = true)) (s.perform c) := by
  cases c with
  | set setting =>
      have hchange : Asks (Mild setting.field.Covers False) (s.change setting) :=
        s.asks_change setting
      refine (hchange.mono fun _ hr => ?_).bind fun _ => .done _
      exact hr.mono (fun _ hi => ⟨setting.field, List.mem_singleton_self _, hi⟩) False.elim
  | get query => exact s.asks_readControl query
  | query query => exact s.asks_readStatus query
  | setEnabled side on =>
      cases on with
      | true => exact (s.asks_enable rfl side).bind fun _ => .done _
      | false => exact (s.asks_disable rfl side).bind fun _ => .done _
  | clearOverflow side => exact (Asks.request (.clear (by decide))).bind fun _ => .done _
  | clearRxUnderflow => exact (Asks.request (.clear (by decide))).bind fun _ => .done _
  | setWatermark side level => exact (s.asks_setWatermark side level).bind fun _ => .done _
  | flushRx => exact s.asks_flushRx.bind fun _ => .done _
  | writeByte byte => exact (s.asks_writeByte byte).bind fun _ => .done _
  | readByte => exact s.asks_readByte.bind fun _ => .done _
  | transferByte byte => exact (s.asks_transferByte byte).bind fun _ => .done _
  | beginTransaction => exact (s.asks_beginTransaction rfl).bind fun _ => .done _
  | endTransaction => exact s.asks_endTransaction.bind fun _ => .done _
  | init _ | withTransaction _ | writeBlock _ | readBlock _ => cases hc

end Asks

/-! ## What a mild request does to the control word -/

section Control

variable {S : Nat → Prop} {switches : Prop} {m t : Machine SpiModel}

theorem control_of_load {b : Block} {offset : Nat} {word : UInt32}
    (h : SpiModel.platform (.load b offset) m = .returned word t) :
    t.device.control = m.device.control := by
  cases h
  obtain ⟨rx, polls, heq, -⟩ := m.device.exists_load_eq offset
  show (m.device.load offset).2.control = _
  rw [heq]

theorem Mild.touchesOnly {b : Block} {offset : Nat} {value : UInt32}
    (h : Mild S switches (.store b offset value)) : TouchesOnly S offset value := by
  cases h with
  | queue => exact trivial
  | control hr hvalue =>
      rcases hr with rfl | rfl
      · exact hvalue
      · exact hvalue
  | watermark hvalue => exact touchesOnly_statusSet _
  | clear hvalue => exact touchesOnly_statusClear _
  | switch hr h =>
      rcases hr with rfl | rfl
      · exact touchesOnly_statusSet _
      · exact touchesOnly_statusClear _

/-- Outside of `S` the control word stays as it is. -/
theorem Mild.agree {r : Request} {v : r.Reply} (hr : Mild S switches r)
    (h : SpiModel.platform r m = .returned v t) :
    AgreeOn (fun i => ¬ S i) t.device.control m.device.control := by
  cases r with
  | load b offset =>
      rw [control_of_load h]
      exact AgreeOn.refl _ _
  | store b offset value =>
      obtain ⟨d, hd, rfl⟩ := Machine.exists_of_platform_store h
      obtain ⟨d', hd', hcontrol⟩ := SpiModel.hasControlAliases b offset value m.device
      cases hd.symm.trans hd'
      show AgreeOn _ (SpiModel.control d) _
      rw [hcontrol]
      exact controlAfter_outside hr.touchesOnly _
  | logFilter | log record =>
      cases h
      exact AgreeOn.refl _ _
  | _ => cases hr

/-- A call that asks only for mild things, at every point of it. -/
theorem throughout_agree {α : Type} {x : Program α} (hx : Asks (Mild S switches) x)
    (m : Machine SpiModel) : Throughout SpiModel.platform x m fun m' =>
      AgreeOn (fun i => ¬ S i) m'.device.control m.device.control :=
  hx.throughout (fun _ _ _ _ hr hk h => (hr.agree h).trans hk) (AgreeOn.refl _ _)

end Control

end Spi

end BoardSupport

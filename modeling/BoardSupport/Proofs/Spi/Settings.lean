import BoardSupport.Proofs.Spi.Record
import BoardSupport.Proofs.Spi.Snapshot

/-!
# What the calls do to the control word

A call of the SPI driver does to the control word what it does to the record
(`Command.apply`, `settings_perform`): a setter replaces its own number, the ends of a
transaction those of the two select bits, and a block transfer none. No call but the one
that configures the controller ever changes a bit that is not software's, at any point of
it (`SparesHardware`). So a run refines the record, with the calls made inside
transactions (`control_refines_settings`).
-/

namespace BoardSupport.Spi

open Program

/-! ## The calls on the record -/

mutual

/-- What a call does to the record. -/
def Command.apply : Command → Settings → Settings
  | .init config, _ => config.settings
  | .set setting, r => r.put setting.component setting.number
  | .beginTransaction, r => r.opened
  | .endTransaction, r => r.closed
  | .withTransaction body, r => (applyAll body r.opened).closed
  | _, r => r

def applyAll : List Command → Settings → Settings
  | [], r => r
  | c :: rest, r => applyAll rest (c.apply r)

end

mutual

/-- Whatever a call is asked about the control word, also inside its transaction, is
answered with what the record then holds. -/
def Command.Follows : Command → Settings → Answer → Prop
  | .get query, r, answer => r.Shows query answer
  | .withTransaction body, r, .transaction answers => FollowsAll body r.opened answers
  | .withTransaction _, _, _ => False
  | _, _, _ => True

def FollowsAll : List Command → Settings → List Answer → Prop
  | [], _, [] => True
  | c :: rest, r, a :: as => c.Follows r a ∧ FollowsAll rest (c.apply r) as
  | _, _, _ => False

end

/-! ## Calls -/

section Calls

variable {s : Spi} {m m' : Machine SpiModel}

/-- A setter rewrites its field. -/
theorem control_of_change {setting : Setting}
    (h : Returns SpiModel.platform (s.change setting) m () m') :
    m'.device.control = setting.component.field.rewrite m.device.control setting.word := by
  rw [← setting.field_eq]
  rcases s.change_cases setting with ⟨hwidth, set, hset, heq⟩ | heq
  · rw [heq] at h
    obtain ⟨-, rfl⟩ := h.unique (s.returns_setControlBits setting.field set m)
    rw [hset]
    cases set with
    | true => exact (Field.rewrite_one hwidth _).symm
    | false => exact (Field.rewrite_zero _ _).symm
  · rw [heq] at h
    obtain ⟨_, m₁, hclear, hset⟩ := returns_bind.mp h
    obtain ⟨-, rfl⟩ := hclear.unique (s.returns_writeWord .controlClear setting.field.mask m)
    obtain ⟨-, rfl⟩ := hset.unique
      (s.returns_writeWord .controlSet (setting.field.put setting.word) _)
    rfl

/-- What asks for nothing of the control word leaves it as it is. -/
theorem control_of_mild {α : Type} {x : Program α} {v : α}
    (hx : Asks (Mild (fun _ => False) True) x) (h : Returns SpiModel.platform x m v m') :
    m'.device.control = m.device.control := by
  have hagree := (throughout_agree hx m).finish h
  exact eq_of_bitAt fun i _ => hagree i id

theorem control_of_beginTransaction (h : Returns SpiModel.platform s.beginTransaction m () m') :
    m'.device.control = openControl m.device.control := by
  obtain ⟨_, m₁, hwait, h⟩ := returns_bind.mp h
  obtain ⟨_, m₂, hflush, h⟩ := returns_bind.mp h
  obtain ⟨_, m₃, henable, h⟩ := returns_bind.mp h
  obtain ⟨_, m₄, hsoftware, hselect⟩ := returns_bind.mp h
  have hsame : m₃.device.control = m.device.control := by
    rw [control_of_mild (s.asks_enable trivial .tx) henable,
      control_of_mild s.asks_flushRx hflush, control_of_mild s.asks_waitTxReady hwait]
  obtain ⟨-, rfl⟩ := hsoftware.unique (s.returns_setControlBits softwareSelectField true m₃)
  obtain ⟨-, rfl⟩ := hselect.unique (s.returns_setControlBits selectLevelField false _)
  rw [← hsame]
  rfl

theorem control_of_endTransaction (h : Returns SpiModel.platform s.endTransaction m () m') :
    m'.device.control = closedControl m.device.control := by
  obtain ⟨_, m₁, hwait, h⟩ := returns_bind.mp h
  obtain ⟨_, m₂, hselect, hsoftware⟩ := returns_bind.mp h
  obtain ⟨-, rfl⟩ := hselect.unique (s.returns_setControlBits selectLevelField true m₁)
  obtain ⟨-, rfl⟩ := hsoftware.unique (s.returns_setControlBits softwareSelectField false _)
  rw [← control_of_mild s.asks_waitTxReady hwait]
  rfl

/-- A single call does to the control word what it does to the record. -/
theorem settings_perform {c : Command} {a : Answer} (hc : c.isTransaction = false)
    (h : Returns SpiModel.platform (s.perform c) m a m') :
    settings m'.device.control = c.apply (settings m.device.control) := by
  have hmild : c.isMild = true → c.fields = [] →
      settings m'.device.control = settings m.device.control := by
    -- Without fields of its own, a mild call touches no bit at all.
    intro hmild hfields
    refine congrArg settings (control_of_mild ((s.asks_perform hmild).mono fun r hr => ?_) h)
    rw [hfields] at hr
    exact hr.mono (fun _ ⟨_, hf, _⟩ => List.not_mem_nil hf) fun _ => trivial
  have hblock : c.isBlockTransfer = true →
      settings m'.device.control = settings m.device.control := fun hblock =>
    congrArg settings ((s.restoresControl_perform hblock).control_of_returns h)
  cases c with
  | init config =>
      have hinit := (s.returns_writeWord .control config.encode m).map fun _ => Answer.done
      obtain ⟨-, rfl⟩ := h.unique hinit
      exact settings_encode config
  | set setting =>
      obtain ⟨_, -, hchange⟩ := returns_map.mp h
      rw [control_of_change hchange, settings_rewrite, setting.toNat_word]
      rfl
  | beginTransaction =>
      obtain ⟨_, -, hbegin⟩ := returns_map.mp h
      rw [control_of_beginTransaction hbegin]
      exact settings_openControl _
  | endTransaction =>
      obtain ⟨_, -, hend⟩ := returns_map.mp h
      rw [control_of_endTransaction hend]
      exact settings_closedControl _
  | withTransaction body => cases hc
  | writeBlock _ | readBlock _ => exact hblock rfl
  | get _ | query _ | setEnabled _ _ | clearOverflow _ | clearRxUnderflow | setWatermark _ _
  | flushRx | writeByte _ | readByte | transferByte _ => exact hmild rfl rfl

theorem follows_perform {c : Command} {a : Answer} (hc : c.isTransaction = false)
    (h : Returns SpiModel.platform (s.perform c) m a m') :
    c.Follows (settings m.device.control) a := by
  cases c with
  | get query =>
      obtain ⟨rfl, -⟩ := h.unique (returns_readControl s m query)
      exact shows_reading m.device.control query
  | withTransaction body => cases hc
  | _ => exact trivial

end Calls

/-! ## Runs -/

/-- A run does to the control word what it does to the record, and what it is asked about
the word is answered from the record. -/
theorem runRule_settings (s : Spi) : RunRule s SpiModel.platform
    (fun c m a m' => settings m'.device.control = c.apply (settings m.device.control) ∧
      c.Follows (settings m.device.control) a)
    (fun commands m as m' =>
      settings m'.device.control = applyAll commands (settings m.device.control) ∧
        FollowsAll commands (settings m.device.control) as) where
  single hc h := ⟨settings_perform hc h, follows_perform hc h⟩
  transaction hbegin hbody hend := by
    obtain ⟨hsettings, hfollows⟩ := hbody
    rw [control_of_beginTransaction hbegin, settings_openControl] at hsettings hfollows
    refine ⟨?_, hfollows⟩
    rw [control_of_endTransaction hend, settings_closedControl, hsettings]
    rfl
  nil := ⟨rfl, trivial⟩
  cons hfirst hrest := by
    obtain ⟨hsettings, hfollows⟩ := hfirst
    rw [hsettings] at hrest
    exact ⟨hrest.1, hfollows, hrest.2⟩

/-! ## The bits of the hardware -/

/-- At every point of the program the bits that software does not write are as they were. -/
def SparesHardware {α : Type} (x : Program α) : Prop :=
  ∀ m, Throughout SpiModel.platform x m fun m' =>
    AgreeOn (fun i => ¬ Owned i) m'.device.control m.device.control

namespace SparesHardware

variable {α β : Type} {x : Program α} {f : α → Program β}

theorem done (v : α) : SparesHardware (.done v) := fun _ => Throughout.done (AgreeOn.refl _ _)

theorem bind (hx : SparesHardware x) (hf : ∀ v, SparesHardware (f v)) :
    SparesHardware (x.bind f) := by
  intro m
  refine (hx m).bind fun v t ht => (hf v t).mono fun u hu => ?_
  exact hu.trans ((hx m).finish ht)

theorem of_asks (hx : Asks (Mild Owned True) x) : SparesHardware x := throughout_agree hx

/-- The word that is written back is the one that was read. -/
theorem asMaster (s : Spi) (warning : String) (hx : SparesHardware x) :
    SparesHardware (s.asMaster warning x) := by
  intro m
  have hrestore : ∀ (result : Except DriverError α) (u : Machine SpiModel),
      AgreeOn (fun i => ¬ Owned i) u.device.control m.device.control →
      Throughout SpiModel.platform
        ((s.writeWord .control m.device.control).bind fun _ => .done result) u
        fun m' => AgreeOn (fun i => ¬ Owned i) m'.device.control m.device.control := by
    intro result u hu
    refine Throughout.ask hu fun _ t hstore => Throughout.done ?_
    rw [control_of_store hstore]
    exact AgreeOn.refl _ _
  have hmaster : SparesHardware s.isMaster :=
    of_asks (((s.asks_readWord .control).bind fun _ => .done _).bind fun _ => .done _)
  have hreport : SparesHardware (report .warn .spi (pure warning)) :=
    of_asks (Asks.report .logFilter (fun _ => .log) (.done _))
  -- The first request takes the snapshot, and both ways end by writing it back.
  refine Throughout.ask (AgreeOn.refl _ _) fun snapshot t hload => ?_
  cases hload
  refine (hmaster m).bind fun isMaster u hu => ?_
  have hagree := (hmaster m).finish hu
  cases isMaster with
  | true =>
      refine ((hx u).mono fun _ h => h.trans hagree).bind fun v w hw => hrestore (.ok v) w ?_
      exact ((hx u).finish hw).trans hagree
  | false =>
      refine ((hreport u).mono fun _ h => h.trans hagree).bind fun _ w hw =>
        hrestore (.error .unsupported) w ?_
      exact ((hreport u).finish hw).trans hagree

end SparesHardware

/-- The call that configures the controller. -/
def Command.isInit : Command → Bool
  | .init _ => true
  | _ => false

section Hardware

variable (s : Spi)

theorem owned_of_select {i : Nat} (h : Covered [softwareSelectField, selectLevelField] i) :
    Owned i := by
  obtain ⟨f, hf, hi⟩ := h
  simp only [List.mem_cons, List.not_mem_nil, or_false] at hf
  rcases hf with rfl | rfl
  · exact ⟨.softwareSelect, hi⟩
  · exact ⟨.selectLevel, hi⟩

theorem sparesHardware_beginTransaction : SparesHardware s.beginTransaction :=
  .of_asks ((s.asks_beginTransaction trivial).mono fun _ hr =>
    hr.mono (fun _ => owned_of_select) id)

theorem sparesHardware_endTransaction : SparesHardware s.endTransaction :=
  .of_asks (s.asks_endTransaction.mono fun _ hr => hr.mono (fun _ => owned_of_select) id)

theorem sparesHardware_mild {c : Command} (hc : c.isMild = true) :
    SparesHardware (s.perform c) := by
  have howned : ∀ i, Covered c.fields i → Owned i := by
    intro i hi
    cases c with
    | set setting =>
        obtain ⟨f, hf, hi⟩ := hi
        rw [List.mem_singleton.mp hf, setting.field_eq] at hi
        exact ⟨setting.component, hi⟩
    | beginTransaction | endTransaction => exact owned_of_select hi
    | _ =>
        obtain ⟨f, hf, -⟩ := hi
        exact absurd hf List.not_mem_nil
  exact .of_asks ((s.asks_perform hc).mono fun _ hr => hr.mono howned fun _ => trivial)

theorem sparesHardware_block {c : Command} (hc : c.isBlockTransfer = true) :
    SparesHardware (s.perform c) := by
  have henable : SparesHardware (s.enable .rx) := .of_asks (s.asks_enable trivial .rx)
  cases c with
  | writeBlock bytes =>
      have hbody := s.sparesHardware_beginTransaction.bind fun _ =>
        (SparesHardware.of_asks (s.asks_disable trivial .rx)).bind fun _ =>
        (SparesHardware.of_asks (s.asks_writeBytes bytes)).bind fun _ =>
        s.sparesHardware_endTransaction.bind fun _ => henable
      exact (hbody.asMaster s _).bind fun _ => .done _
  | readBlock buffer =>
      have hbody := s.sparesHardware_beginTransaction.bind fun _ =>
        henable.bind fun _ =>
        (SparesHardware.of_asks (s.asks_readBytes buffer.length)).bind fun bytes =>
        s.sparesHardware_endTransaction.bind fun _ => .done bytes
      refine ((hbody.asMaster s _).bind fun result => ?_).bind fun _ => .done _
      cases result with
      | ok bytes => exact .done _
      | error e => exact .done _
  | _ => cases hc

mutual

theorem sparesHardware_perform : (c : Command) → c.anywhere Command.isInit = false →
    SparesHardware (s.perform c)
  | .withTransaction body, h => by
    have hbody := sparesHardware_performAll body h
    refine SparesHardware.bind ?_ fun _ => .done _
    refine s.sparesHardware_beginTransaction.bind fun _ => hbody.bind fun answers => ?_
    exact s.sparesHardware_endTransaction.bind fun _ => .done answers
  | .init _, h => nomatch h
  | .writeBlock _, _ | .readBlock _, _ => s.sparesHardware_block rfl
  | .set _, _ | .get _, _ | .query _, _ | .setEnabled _ _, _ | .clearOverflow _, _
  | .clearRxUnderflow, _ | .setWatermark _ _, _ | .flushRx, _ | .writeByte _, _ | .readByte, _
  | .transferByte _, _ | .beginTransaction, _ | .endTransaction, _ => s.sparesHardware_mild rfl

theorem sparesHardware_performAll : (commands : List Command) →
    anyCommand Command.isInit commands = false → SparesHardware (s.performAll commands)
  | [], _ => .done _
  | c :: rest, h => by
    have hboth : c.anywhere Command.isInit = false ∧ anyCommand Command.isInit rest = false :=
      Bool.or_eq_false_iff.mp h
    refine (sparesHardware_perform c hboth.1).bind fun a => ?_
    exact (sparesHardware_performAll rest hboth.2).bind fun answers => .done (a :: answers)

end

end Hardware

/-- When the role is fixed, what the getters say of it rests on the bits of the hardware. -/
theorem reading_of_agree {v w : UInt32} (h : AgreeOn (fun i => ¬ Owned i) v w)
    (hfixed : configFixedField.isSet w = true) {query : ControlQuery}
    (hquery : query ∈ [.role, .isMaster, .resetRole]) : reading v query = reading w query := by
  have hhardware := settings_of_agree h
  have hsame : configFixedField.isSet v = configFixedField.isSet w := hhardware.1
  have hrole : effectiveRole v = effectiveRole w := by
    rw [← role_settings, ← role_settings, Settings.role, Settings.role, hhardware.2]
    show (if configFixedField.isSet v then _ else _) = if configFixedField.isSet w then _ else _
    rw [hsame, hfixed]
    rfl
  simp only [List.mem_cons, List.not_mem_nil, or_false] at hquery
  rcases hquery with rfl | rfl | rfl
  · exact congrArg Answer.role hrole
  · exact congrArg (fun role => Answer.flag (role == Role.master)) hrole
  · exact congrArg Answer.role hhardware.2

/-! ## All together -/

/-- **The control word refines a record.** Whatever the controller holds at first, any
sequence of calls that returns makes of the word what it makes of the record, and every
getter, in the sequence or after it, gives what the record then holds. Unless a call
configures the controller anew, no point of the sequence finds a bit changed that
software does not write, so the role never changes where it is fixed. Configuring gives
the record of the configuration. -/
theorem control_refines_settings (s : Spi) {m m' : Machine SpiModel} {commands : List Command}
    {answers : List Answer}
    (h : Returns SpiModel.platform (s.performAll commands) m answers m') :
    settings m'.device.control = applyAll commands (settings m.device.control) ∧
    FollowsAll commands (settings m.device.control) answers ∧
    (∀ query, ∃ answer, Returns SpiModel.platform (s.readControl query) m' answer m' ∧
      (settings m'.device.control).Shows query answer) ∧
    (anyCommand Command.isInit commands = false →
      Throughout SpiModel.platform (s.performAll commands) m (fun m₁ =>
        AgreeOn (fun i => ¬ Owned i) m₁.device.control m.device.control) ∧
      (configFixedField.isSet m.device.control = true →
        ∀ query ∈ [.role, .isMaster, .resetRole], ∃ answer,
          Throughout SpiModel.platform (s.performAll commands) m fun m₁ =>
            Returns SpiModel.platform (s.readControl query) m₁ answer m₁)) ∧
    ∀ config, ∃ m₁, Returns SpiModel.platform (s.perform (.init config)) m' .done m₁ ∧
      settings m₁.device.control = config.settings ∧
      ∀ query, ∃ answer, Returns SpiModel.platform (s.readControl query) m₁ answer m₁ ∧
        config.settings.Shows query answer := by
  obtain ⟨hsettings, hfollows⟩ := (runRule_settings s).of_performAll commands h
  refine ⟨hsettings, hfollows, ?_, ?_, ?_⟩
  · intro query
    exact ⟨_, returns_readControl s m' query, shows_reading _ query⟩
  · intro hinit
    have hspares := s.sparesHardware_performAll commands hinit m
    refine ⟨hspares, fun hfixed query hquery => ⟨reading m.device.control query, ?_⟩⟩
    refine hspares.mono fun m₁ hagree => ?_
    rw [← reading_of_agree hagree hfixed hquery]
    exact returns_readControl s m₁ query
  · intro config
    have hinit := (s.returns_writeWord .control config.encode m').map fun _ => Answer.done
    refine ⟨_, hinit, settings_encode config, fun query => ⟨_, returns_readControl s _ query, ?_⟩⟩
    rw [← settings_encode]
    exact shows_reading config.encode query

/-- Oversized numbers, a transaction with a getter inside, and a block, on a controller
whose role is fixed. -/
theorem control_refines_settings_fixed :
    let s : Spi := ⟨MemoryMap.full.spi0⟩
    let m : Machine SpiModel := { device := { control := 0x1301000 } }
    let commands : List Command := [.set (.clockDivider 0xFF), .set (.role .slave),
      .withTransaction [.set (.activeSlave 6), .get .selectAsserted], .writeBlock [0x9F],
      .get (.sckHz 50000000)]
    anyCommand Command.isInit commands = false ∧ configFixedField.isSet m.device.control = true ∧
    ∃ m', Returns SpiModel.platform (s.performAll commands) m
        [.done, .done, .transaction [.done, .flag true], .sent (.ok ()), .hertz 762] m' ∧
      (settings m'.device.control).part .activeSlave = 2 ∧
      (settings m'.device.control).role = .master := by
  have hrun : ∃ m', Returns SpiModel.platform (performAll ⟨MemoryMap.full.spi0⟩
      [.set (.clockDivider 0xFF), .set (.role .slave),
        .withTransaction [.set (.activeSlave 6), .get .selectAsserted], .writeBlock [0x9F],
        .get (.sckHz 50000000)]) { device := { control := 0x1301000 } }
      [.done, .done, .transaction [.done, .flag true], .sent (.ok ()), .hertz 762] m' := ⟨_, 1, rfl⟩
  intro s m commands
  obtain ⟨m', h⟩ := hrun
  obtain ⟨hsettings, -⟩ := control_refines_settings s h
  refine ⟨rfl, by decide, m', h, ?_, ?_⟩
  · rw [hsettings]
    decide
  · rw [hsettings]
    decide

end BoardSupport.Spi

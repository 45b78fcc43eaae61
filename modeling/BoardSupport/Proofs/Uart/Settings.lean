import BoardSupport.Proofs.Register.Values
import BoardSupport.Proofs.Uart.Calls

/-!
# The line settings as a record

The control word of the UART holds five numbers side by side (`Component`, `record`).
Configuring it, whole or by parts, does to these numbers what it would do to the entries
of a record: a setter replaces its own (`Change.apply`), also while it is under way, and
nothing but the control word changes; the getters then give the entries back, and refuse
exactly the encodings that are reserved (`settings_refine_record`).
-/

namespace BoardSupport.Uart

open Program
open UartModel (SameButControl)

/-! ## Components -/

/-- What the control word is made of. -/
inductive Component
  | dataBits | parity | stopBits | flowControl | cyclesPerBit
  deriving DecidableEq, Repr

namespace Component

def field : Component → Field
  | .dataBits => dataBitsField
  | .parity => parityField
  | .stopBits => stopBitsField
  | .flowControl => flowControlField
  | .cyclesPerBit => cyclesPerBitField

theorem apart {part other : Component} (h : part ≠ other) : part.field.Apart other.field := by
  cases part <;> cases other <;> first
    | exact absurd rfl h
    | decide

/-- The numbers that mean nothing. -/
def Reserved : Component → Nat → Prop
  | .dataBits, number => 5 ≤ number
  | .parity, number => number = 3
  | .stopBits, number => number = 3
  | .flowControl, _ => False
  | .cyclesPerBit, _ => False

instance : (part : Component) → (number : Nat) → Decidable (part.Reserved number)
  | .dataBits, number => inferInstanceAs (Decidable (5 ≤ number))
  | .parity, number => inferInstanceAs (Decidable (number = 3))
  | .stopBits, number => inferInstanceAs (Decidable (number = 3))
  | .flowControl, _ => inferInstanceAs (Decidable False)
  | .cyclesPerBit, _ => inferInstanceAs (Decidable False)

/-- What is kept of a number: of a divisor the low 24 bits, and every encoding. -/
def keep : Component → Nat → Nat
  | .cyclesPerBit, number => number % 2 ^ 24
  | _, number => number

end Component

/-- A number for each component. -/
abbrev Record := Component → Nat

/-- The record in a control word. -/
def record (control : UInt32) : Record := fun part => part.field.value control

/-- The number that a configuration has for each component. -/
def Config.number (config : Config) : Component → Nat
  | .dataBits => config.dataBits.code.toNat
  | .parity => config.parity.code.toNat
  | .stopBits => config.stopBits.code.toNat
  | .flowControl => config.flowControl.code.toNat
  | .cyclesPerBit => config.cyclesPerBit.toNat

def Setting.component : Setting → Component
  | .dataBits _ => .dataBits
  | .parity _ => .parity
  | .stopBits _ => .stopBits
  | .flowControl _ => .flowControl
  | .cyclesPerBit _ => .cyclesPerBit
  | .baud _ _ => .cyclesPerBit

/-- The number that a setting has for its component. -/
def Setting.number : Setting → Nat
  | .dataBits value => value.code.toNat
  | .parity value => value.code.toNat
  | .stopBits value => value.code.toNat
  | .flowControl value => value.code.toNat
  | .cyclesPerBit value => value.toNat
  | .baud clockHz rate => clockHz.toNat / rate.toNat

/-- A change of the line settings, of all of them or of one. -/
inductive Change
  | init (config : Config)
  | set (setting : Setting)
  deriving DecidableEq

namespace Change

def command : Change → Command
  | .init config => .init config
  | .set setting => .set setting

/-- There is no divisor for a line rate of zero. -/
def Refused : Change → Prop
  | .init _ => False
  | .set setting => Update.Refused (.set setting)

def Replaces : Change → Component → Prop
  | .init _, _ => True
  | .set setting, part => part = setting.component

/-- What the change does to a record. -/
def apply (r : Record) : Change → Record
  | .init config => fun part => part.keep (config.number part)
  | .set setting => fun part =>
    if part = setting.component then part.keep setting.number else r part

end Change

/-- The query's answer for one of the encoded components: its value, or a refusal when the
encoding is reserved. -/
def Decodes {α : Type} (part : Component) (code : α → UInt32) (number : Nat) :
    Except DriverError α → Prop
  | .ok value => ¬ part.Reserved number ∧ (code value).toNat = number
  | .error e => part.Reserved number ∧ e = .invalidField

/-- The answer to a query is what the record holds. -/
def Record.Shows (r : Record) : SettingQuery → Answer → Prop
  | .config, .config (.ok config) => (∀ part : Component, ¬ part.Reserved (r part)) ∧ config.number = r
  | .config, .config (.error e) => (∃ part : Component, part.Reserved (r part)) ∧ e = .invalidField
  | .dataBits, .dataBits result => Decodes .dataBits DataBits.code (r .dataBits) result
  | .parity, .parity result => Decodes .parity Parity.code (r .parity) result
  | .stopBits, .stopBits result => Decodes .stopBits StopBits.code (r .stopBits) result
  | .flowControl, .flowControl value => value.code.toNat = r .flowControl
  | .cyclesPerBit, .cyclesPerBit value => value.toNat = r .cyclesPerBit
  | _, _ => False

/-! ## The record of a control word -/

/-- The word that a configuration is encoded from, for each component. -/
def Config.word (config : Config) : Component → UInt32
  | .dataBits => config.dataBits.code
  | .parity => config.parity.code
  | .stopBits => config.stopBits.code
  | .flowControl => config.flowControl.code
  | .cyclesPerBit => config.cyclesPerBit

theorem Setting.field_eq (setting : Setting) : setting.field = setting.component.field := by
  cases setting with
  | dataBits _ | parity _ | stopBits _ | flowControl _ | cyclesPerBit _ | baud _ _ => rfl

theorem Setting.keep_number (setting : Setting) :
    setting.component.keep setting.number
      = setting.word.toNat % 2 ^ setting.component.field.width := by
  cases setting with
  | dataBits value | parity value | stopBits value | flowControl value =>
      cases value <;> rfl
  | cyclesPerBit value => rfl
  | baud clockHz rate =>
      show clockHz.toNat / rate.toNat % 2 ^ 24 = (clockHz / rate).toNat % 2 ^ 24
      rw [UInt32.toNat_div]

theorem Config.keep_number (config : Config) (part : Component) :
    part.keep (config.number part) = (config.word part).toNat % 2 ^ part.field.width := by
  obtain ⟨dataBits, parity, stopBits, flowControl, cyclesPerBit⟩ := config
  cases part with
  | dataBits => cases dataBits <;> rfl
  | parity => cases parity <;> rfl
  | stopBits => cases stopBits <;> rfl
  | flowControl => cases flowControl <;> rfl
  | cyclesPerBit => rfl

/-- Each component of an encoded configuration is in its place. -/
theorem record_encode (config : Config) :
    record config.encode = fun part => part.keep (config.number part) := by
  funext part
  rw [config.keep_number, ← Field.value_put]
  refine Field.value_congr fun i hi => ?_
  have hoff : ∀ other, part ≠ other → bitAt (other.field.put (config.word other)) i = false := by
    intro other hne
    refine Bool.eq_false_iff.mpr fun hbit => ?_
    exact Field.apart_iff_covers.mp (Component.apart hne) i hi (Field.covers_of_bitAt_put hbit)
  have hencode : config.encode = Component.dataBits.field.put (config.word .dataBits)
      ||| Component.parity.field.put (config.word .parity)
      ||| Component.stopBits.field.put (config.word .stopBits)
      ||| Component.flowControl.field.put (config.word .flowControl)
      ||| Component.cyclesPerBit.field.put (config.word .cyclesPerBit) := rfl
  rw [hencode]
  cases part with
  | dataBits | parity | stopBits | flowControl | cyclesPerBit => simp [hoff]

/-- A field rewritten is one entry replaced. -/
theorem record_rewrite (part : Component) (control value : UInt32) :
    record (part.field.rewrite control value) = fun other =>
      if other = part then value.toNat % 2 ^ part.field.width else record control other := by
  funext other
  by_cases h : other = part
  · subst h
    rw [if_pos rfl]
    exact Field.value_rewrite _ _ _
  · rw [if_neg h]
    exact Field.value_rewrite_of_apart (Component.apart h) _ _

theorem Component.exists_covers {i : Nat} (hi : i < 32) : ∃ part : Component, part.field.Covers i := by
  have hcases : i < 24 ∨ i = 24 ∨ (25 ≤ i ∧ i < 27) ∨ (27 ≤ i ∧ i < 29) ∨ 29 ≤ i := by omega
  rcases hcases with h | rfl | ⟨hlow, hhigh⟩ | ⟨hlow, hhigh⟩ | h
  · exact ⟨.cyclesPerBit, Nat.zero_le i, h⟩
  · exact ⟨.flowControl, by decide⟩
  · exact ⟨.stopBits, hlow, hhigh⟩
  · exact ⟨.parity, hlow, hhigh⟩
  · exact ⟨.dataBits, h, hi⟩

/-- The five components are all of the word. -/
theorem control_eq_of_record_eq {v w : UInt32} (h : record v = record w) : v = w := by
  refine eq_of_bitAt fun i hi => ?_
  obtain ⟨part, hcovers⟩ := Component.exists_covers hi
  have hnumber : part.field.value v = part.field.value w := congrFun h part
  rw [← Field.testBit_value_sub hcovers, hnumber, Field.testBit_value_sub hcovers]

/-! ## Getters -/

variable (control : UInt32)

theorem decodes_dataBits : Decodes .dataBits DataBits.code (record control .dataBits)
    (DataBits.ofCode (dataBitsField.get control)) := by
  show Decodes _ _ (dataBitsField.value control) _
  rw [← Field.toNat_get]
  generalize dataBitsField.get control = word
  unfold DataBits.ofCode
  split
  · exact ⟨by decide, rfl⟩
  · exact ⟨by decide, rfl⟩
  · exact ⟨by decide, rfl⟩
  · exact ⟨by decide, rfl⟩
  · exact ⟨by decide, rfl⟩
  · next hfive hsix hseven height hnine =>
      refine ⟨?_, rfl⟩
      show 5 ≤ word.toNat
      simp only [imp_false, ← UInt32.toNat_inj, UInt32.reduceToNat] at hfive hsix hseven height hnine
      omega

/-- Of the four numbers of a field two bits wide, a table of three refuses the last. -/
theorem eq_three_of_ne {f : Field} (hwidth : f.width = 2) (control : UInt32)
    (hzero : f.get control ≠ 0) (hone : f.get control ≠ 1) (htwo : f.get control ≠ 2) :
    (f.get control).toNat = 3 := by
  have hlt := f.value_lt control
  rw [← f.toNat_get, hwidth] at hlt
  simp only [ne_eq, ← UInt32.toNat_inj, UInt32.reduceToNat] at hzero hone htwo
  omega

theorem decodes_parity : Decodes .parity Parity.code (record control .parity)
    (Parity.ofCode (parityField.get control)) := by
  have hlast := eq_three_of_ne (f := parityField) rfl control
  show Decodes _ _ (parityField.value control) _
  rw [← Field.toNat_get]
  generalize parityField.get control = word at hlast ⊢
  unfold Parity.ofCode
  split
  · exact ⟨by decide, rfl⟩
  · exact ⟨by decide, rfl⟩
  · exact ⟨by decide, rfl⟩
  · next hzero hone htwo => exact ⟨hlast hzero hone htwo, rfl⟩

theorem decodes_stopBits : Decodes .stopBits StopBits.code (record control .stopBits)
    (StopBits.ofCode (stopBitsField.get control)) := by
  have hlast := eq_three_of_ne (f := stopBitsField) rfl control
  show Decodes _ _ (stopBitsField.value control) _
  rw [← Field.toNat_get]
  generalize stopBitsField.get control = word at hlast ⊢
  unfold StopBits.ofCode
  split
  · exact ⟨by decide, rfl⟩
  · exact ⟨by decide, rfl⟩
  · exact ⟨by decide, rfl⟩
  · next hzero hone htwo => exact ⟨hlast hzero hone htwo, rfl⟩

theorem code_flowControl : (FlowControl.ofBit (flowControlField.isSet control)).code.toNat
    = record control .flowControl := by
  show _ = flowControlField.value control
  rw [← Field.toNat_isSet rfl]
  cases flowControlField.isSet control <;> rfl

/-- A configuration is read back when no encoding is reserved, and is then the record. -/
theorem shows_config : (record control).Shows .config (.config (Config.decode control)) := by
  have hdata := decodes_dataBits control
  have hparity := decodes_parity control
  have hstop := decodes_stopBits control
  have hflow := code_flowControl control
  unfold Config.decode
  cases hd : DataBits.ofCode (dataBitsField.get control) with
  | error e =>
      rw [hd] at hdata
      obtain ⟨hreserved, rfl⟩ := hdata
      exact ⟨⟨.dataBits, hreserved⟩, rfl⟩
  | ok d =>
      rw [hd] at hdata
      cases hp : Parity.ofCode (parityField.get control) with
      | error e =>
          rw [hp] at hparity
          obtain ⟨hreserved, rfl⟩ := hparity
          exact ⟨⟨.parity, hreserved⟩, rfl⟩
      | ok p =>
          rw [hp] at hparity
          cases hs : StopBits.ofCode (stopBitsField.get control) with
          | error e =>
              rw [hs] at hstop
              obtain ⟨hreserved, rfl⟩ := hstop
              exact ⟨⟨.stopBits, hreserved⟩, rfl⟩
          | ok b =>
              rw [hs] at hstop
              constructor
              · intro part
                cases part with
                | dataBits => exact hdata.1
                | parity => exact hparity.1
                | stopBits => exact hstop.1
                | flowControl | cyclesPerBit => exact id
              · funext part
                cases part with
                | dataBits => exact hdata.2
                | parity => exact hparity.2
                | stopBits => exact hstop.2
                | flowControl => exact hflow
                | cyclesPerBit => exact Field.toNat_get _ _

/-- The answer to every query is what the record in the control word holds. -/
theorem returns_readSetting (u : Uart) (m : Machine UartModel) (query : SettingQuery) :
    ∃ answer, Returns (Machine.platform UartModel.bus) (u.readSetting query) m answer m ∧
      (record m.device.control).Shows query answer := by
  have hword : Returns (Machine.platform UartModel.bus) (u.readWord .control) m
      m.device.control m := u.returns_readWord .control m
  have hfield : ∀ f, Returns (Machine.platform UartModel.bus) (u.controlField f) m
      (f.get m.device.control) m := fun f => hword.map f.get
  cases query with
  | config => exact ⟨_, (hword.map Config.decode).map Answer.config, shows_config _⟩
  | dataBits =>
      exact ⟨_, ((hfield dataBitsField).map DataBits.ofCode).map Answer.dataBits,
        decodes_dataBits _⟩
  | parity =>
      exact ⟨_, ((hfield parityField).map Parity.ofCode).map Answer.parity, decodes_parity _⟩
  | stopBits =>
      exact ⟨_, ((hfield stopBitsField).map StopBits.ofCode).map Answer.stopBits,
        decodes_stopBits _⟩
  | flowControl =>
      have hanswer := ((hfield flowControlField).map fun bits => FlowControl.ofBit (bits != 0)).map
        Answer.flowControl
      refine ⟨_, hanswer, ?_⟩
      rw [Field.get_ne_zero_eq_isSet]
      exact code_flowControl _
  | cyclesPerBit =>
      exact ⟨_, (hfield cyclesPerBitField).map Answer.cyclesPerBit, Field.toNat_get _ _⟩

/-! ## Setters -/

section Setters

variable (u : Uart) {m : Machine UartModel}

theorem returns_setControlField (f : Field) (value : UInt32) (m : Machine UartModel) :
    Returns (Machine.platform UartModel.bus) (u.setControlField f value) m ()
      { m with device :=
        { m.device with
          control := f.rewrite m.device.control value
          writes := m.device.writes + 2 } } :=
  (u.returns_writeWord .controlClear f.mask m).bind (u.returns_writeWord .controlSet (f.put value) _)

/-- The control word after a change. -/
def Change.wordAfter (control : UInt32) : Change → UInt32
  | .init config => config.encode
  | .set setting => setting.component.field.rewrite control setting.word

/-- The writes that a change takes. -/
def Change.writeCount : Change → Nat
  | .init _ => 1
  | .set _ => 2

/-- The machine after a change. -/
def Change.machineAfter (m : Machine UartModel) (change : Change) : Machine UartModel :=
  { m with device :=
    { m.device with
      control := change.wordAfter m.device.control
      writes := m.device.writes + change.writeCount } }

theorem returns_command {change : Change} (h : ¬ change.Refused) (m : Machine UartModel) :
    Returns (Machine.platform UartModel.bus) (u.perform change.command) m .done
      (change.machineAfter m) := by
  cases change with
  | init config =>
      exact (u.returns_writeWord .control config.encode m).bind (returns_done.mpr ⟨rfl, rfl⟩)
  | set setting =>
      have hset := u.returns_setControlField setting.field setting.word m
      rw [← u.change_eq h, setting.field_eq] at hset
      exact hset.bind (returns_done.mpr ⟨rfl, rfl⟩)

/-- A change does to the control word what it does to the record. -/
theorem record_wordAfter (change : Change) (control : UInt32) :
    record (change.wordAfter control) = change.apply (record control) := by
  cases change with
  | init config => exact record_encode config
  | set setting =>
      show record (setting.component.field.rewrite control setting.word) = _
      rw [record_rewrite]
      funext part
      by_cases hpart : part = setting.component
      · subst hpart
        simp [Change.apply, setting.keep_number]
      · simp [Change.apply, hpart]

/-- At every point of a change the components that it does not replace are as they were,
and nothing but the control word has changed. -/
theorem throughout_command {change : Change} (h : ¬ change.Refused) (m : Machine UartModel) :
    Throughout (Machine.platform UartModel.bus) (u.perform change.command) m fun m' =>
      SameButControl m m' ∧ ∀ part, ¬ change.Replaces part →
        record m'.device.control part = record m.device.control part := by
  have hasks : Asks UartModel.OnControl (u.perform change.command) := by
    cases change with
    | init config => exact (u.asks_writeControl (Or.inl rfl)).bind fun _ => .done _
    | set setting => exact (u.asks_change h).bind fun _ => .done _
  have hsame : Throughout (Machine.platform UartModel.bus) (u.perform change.command) m
      (SameButControl m) :=
    hasks.throughout (fun _ _ _ _ hr hm ht => hm.trans (hr.sameButControl ht)) (.refl m)
  intro n
  refine ⟨hsame n, fun part hpart => ?_⟩
  cases change with
  | init config => exact absurd trivial hpart
  | set setting =>
      have hwrites : AliasWrites (Covered [setting.field]) (Update.Refused (.set setting)) 2
          (u.perform (.set setting)) :=
        (u.aliasWrites_change setting).bind (k := 0) fun _ => .done Answer.done
      refine Field.value_congr fun i hi => ?_
      refine hwrites.advance_outside UartModel.hasControlAliases n m i ?_
      rintro ⟨f, hf, hfi⟩
      rw [List.mem_singleton.mp hf, setting.field_eq] at hfi
      exact Field.apart_iff_covers.mp (Component.apart hpart) i hi hfi

/-! ## Changes one after another -/

theorem returns_changes {changes : List Change} (h : ∀ change ∈ changes, ¬ change.Refused)
    (m : Machine UartModel) :
    Returns (Machine.platform UartModel.bus) (u.performAll (changes.map Change.command)) m
      (changes.map fun _ => .done) (changes.foldl Change.machineAfter m) := by
  induction changes generalizing m with
  | nil => exact returns_done.mpr ⟨rfl, rfl⟩
  | cons change rest ih =>
      have hfirst := u.returns_command (h change List.mem_cons_self) m
      have hrest := ih (fun c hc => h c (List.mem_cons_of_mem _ hc)) (change.machineAfter m)
      exact hfirst.bind (hrest.map (Answer.done :: ·))

end Setters

theorem record_foldl (changes : List Change) (m : Machine UartModel) :
    record (changes.foldl Change.machineAfter m).device.control
      = changes.foldl Change.apply (record m.device.control) := by
  induction changes generalizing m with
  | nil => rfl
  | cons change rest ih =>
      rw [List.foldl_cons, List.foldl_cons, ih, ← record_wordAfter]
      rfl

theorem sameButControl_foldl (changes : List Change) (m : Machine UartModel) :
    SameButControl m (changes.foldl Change.machineAfter m) := by
  induction changes generalizing m with
  | nil => exact .refl m
  | cons change rest ih =>
      have hfirst : SameButControl m (change.machineAfter m) := ⟨_, _, rfl⟩
      exact hfirst.trans (ih _)

/-- Settings of different components may change places. -/
theorem machineAfter_comm {first second : Setting} (h : first.component ≠ second.component)
    (m : Machine UartModel) :
    (Change.set second).machineAfter ((Change.set first).machineAfter m)
      = (Change.set first).machineAfter ((Change.set second).machineAfter m) := by
  have hword : (Change.set second).wordAfter ((Change.set first).wordAfter m.device.control)
      = (Change.set first).wordAfter ((Change.set second).wordAfter m.device.control) := by
    apply control_eq_of_record_eq
    rw [record_wordAfter, record_wordAfter, record_wordAfter, record_wordAfter]
    funext part
    by_cases hfirst : part = first.component
    · subst hfirst
      simp [Change.apply, h]
    · simp [Change.apply, hfirst]
  unfold Change.machineAfter
  simp only [hword]
  rfl

/-- Changes that do not replace a component leave its entry as it is. -/
theorem foldl_apply_of_not_replaces {changes : List Change} {part : Component}
    (h : ∀ change ∈ changes, ¬ change.Replaces part) (r : Record) :
    changes.foldl Change.apply r part = r part := by
  induction changes generalizing r with
  | nil => rfl
  | cons change rest ih =>
      rw [List.foldl_cons, ih fun c hc => h c (List.mem_cons_of_mem _ hc)]
      have hfirst := h change List.mem_cons_self
      cases change with
      | init config => exact absurd trivial hfirst
      | set setting => exact if_neg hfirst

/-- **The line settings refine a record.** From any control word, any sequence of changes
returns and makes of its components what it makes of a record's entries, and the getters
then give the record, or refuse what is reserved. Until each change returns, the
components that it does not replace stay as they were, and nothing but the control word
ever changes. Neighbouring settings of different components may change places, and the
last setting of a component decides it. -/
theorem settings_refine_record (u : Uart) (m : Machine UartModel) (changes : List Change)
    (hrates : ∀ change ∈ changes, ¬ change.Refused) :
    ∃ answers m',
      Returns (Machine.platform UartModel.bus) (u.performAll (changes.map Change.command)) m
        answers m' ∧
      record m'.device.control = changes.foldl Change.apply (record m.device.control) ∧
      SameButControl m m' ∧
      (∀ query, ∃ answer,
        Returns (Machine.platform UartModel.bus) (u.readSetting query) m' answer m' ∧
          (record m'.device.control).Shows query answer) ∧
      (∀ before change after, changes = before ++ change :: after → ∃ answers₁ m₁,
        Returns (Machine.platform UartModel.bus) (u.performAll (before.map Change.command)) m
          answers₁ m₁ ∧
        Throughout (Machine.platform UartModel.bus) (u.perform change.command) m₁ fun m₂ =>
          SameButControl m m₂ ∧ ∀ part, ¬ change.Replaces part →
            record m₂.device.control part = record m₁.device.control part) ∧
      (∀ before first second after, changes = before ++ .set first :: .set second :: after →
        first.component ≠ second.component →
        Returns (Machine.platform UartModel.bus)
          (u.performAll ((before ++ .set second :: .set first :: after).map Change.command)) m
          answers m') ∧
      ∀ before setting after, changes = before ++ .set setting :: after →
        (∀ change ∈ after, ¬ change.Replaces setting.component) →
        record m'.device.control setting.component
          = setting.component.keep setting.number := by
  refine ⟨_, _, u.returns_changes hrates m, record_foldl changes m,
    sameButControl_foldl changes m, returns_readSetting u _, ?_, ?_, ?_⟩
  · rintro before change after rfl
    have hbefore : ∀ c ∈ before, ¬ c.Refused := fun c hc => hrates c (List.mem_append_left _ hc)
    have hchange : ¬ change.Refused :=
      hrates change (List.mem_append_right _ List.mem_cons_self)
    refine ⟨_, _, u.returns_changes hbefore m, ?_⟩
    refine (u.throughout_command hchange _).mono fun m₂ h => ⟨?_, h.2⟩
    exact (sameButControl_foldl before m).trans h.1
  · rintro before first second after rfl hne
    have hswapped : ∀ c ∈ before ++ .set second :: .set first :: after, ¬ c.Refused := by
      intro c hc
      apply hrates c
      simp only [List.mem_append, List.mem_cons] at hc ⊢
      rcases hc with hc | hc | hc | hc
      · exact Or.inl hc
      · exact Or.inr (Or.inr (Or.inl hc))
      · exact Or.inr (Or.inl hc)
      · exact Or.inr (Or.inr (Or.inr hc))
    have hret := u.returns_changes hswapped m
    simp only [List.foldl_append, List.foldl_cons, List.map_append, List.map_cons] at hret ⊢
    rw [machineAfter_comm hne.symm] at hret
    exact hret
  · rintro before setting after rfl hafter
    rw [record_foldl, List.foldl_append, List.foldl_cons, foldl_apply_of_not_replaces hafter]
    exact if_pos rfl

/-- A reserved width stays through the settings of the other components, the first of two
parities is replaced, and a divisor of more than 24 bits is cut. -/
theorem settings_refine_record_reserved :
    let u : Uart := ⟨MemoryMap.full.uart0⟩
    let m : Machine UartModel := { device := { control := 0xE0000000, rx := [1, 2] } }
    let changes : List Change := [.set (.parity .odd), .set (.baud 50000000 115200),
      .set (.parity .even), .set (.cyclesPerBit 0xFF0001B2)]
    (∀ change ∈ changes, ¬ change.Refused) ∧ ∃ answers m',
      Returns (Machine.platform UartModel.bus) (u.performAll (changes.map Change.command)) m
        answers m' ∧
      record m'.device.control .dataBits = 7 ∧ record m'.device.control .parity = 1 ∧
      record m'.device.control .cyclesPerBit = 434 ∧ m'.device.rx = [1, 2] := by
  intro u m changes
  have hrates : ∀ change ∈ changes, ¬ change.Refused := by
    simp [changes, Change.Refused, Update.Refused]
  obtain ⟨answers, m', hret, hrecord, hsame, -⟩ := settings_refine_record u m changes hrates
  obtain ⟨control, writes, rfl⟩ := hsame
  refine ⟨hrates, answers, _, hret, ?_, ?_, ?_, rfl⟩
  · rw [hrecord]
    decide
  · rw [hrecord]
    decide
  · rw [hrecord]
    decide

end BoardSupport.Uart

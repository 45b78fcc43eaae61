import BoardSupport.Proofs.Register.Values
import BoardSupport.Proofs.Spi.Calls

/-!
# The control word as a record

The control word of an SPI controller holds eight numbers that software writes
(`Component`) and two bits of the hardware: whether the role is fixed, and the role out of
reset (`Settings`). Rewriting a field replaces one number (`settings_rewrite`), and what a
configuration is encoded as has the record of the configuration (`settings_encode`). The
getters of the driver return, and give what the record holds (`shows_reading`).
-/

namespace BoardSupport.Spi

open Program

/-! ## The record -/

/-- What software writes of the control word. -/
inductive Component
  | outputs | role | pulseMode | softwareSelect | selectLevel | activeSlave | mode | clockDivider
  deriving DecidableEq, Repr

namespace Component

def field : Component → Field
  | .outputs => outputEnableField
  | .role => masterField
  | .pulseMode => pulseModeField
  | .softwareSelect => softwareSelectField
  | .selectLevel => selectLevelField
  | .activeSlave => activeSlaveField
  | .mode => modeField
  | .clockDivider => clockDividerField

/-- How many numbers there are for a component. -/
def size : Component → Nat
  | .activeSlave => 4
  | .mode => 4
  | .clockDivider => 16
  | _ => 2

theorem size_eq (part : Component) : part.size = 2 ^ part.field.width := by
  cases part <;> rfl

theorem apart {part other : Component} (h : part ≠ other) : part.field.Apart other.field := by
  cases part <;> cases other <;> first
    | exact absurd rfl h
    | decide

end Component

/-- The bit of the control word is one that software writes. -/
def Owned (i : Nat) : Prop := ∃ part : Component, part.field.Covers i

theorem not_owned_configFixed : ¬ Owned 21 := by
  rintro ⟨part, hpart⟩
  cases part <;> exact absurd hpart (by decide)

theorem not_owned_resetRole : ¬ Owned 20 := by
  rintro ⟨part, hpart⟩
  cases part <;> exact absurd hpart (by decide)

/-- What a control word says. -/
@[ext]
structure Settings where
  /-- The number for each component. -/
  part : Component → Nat
  /-- The role cannot be changed. -/
  fixed : Bool
  resetRole : Role

def settings (control : UInt32) : Settings where
  part := fun part => part.field.value control
  fixed := configFixedField.isSet control
  resetRole := .ofBit (resetRoleField.isSet control)

namespace Settings

/-- The role in force. -/
def role (r : Settings) : Role := if r.fixed then r.resetRole else .ofBit (r.part .role != 0)

/-- The record with one number replaced, of which only what fits is kept. -/
def put (r : Settings) (part : Component) (number : Nat) : Settings :=
  { r with part := fun other => if other = part then number % part.size else r.part other }

/-- Software selects the slave. -/
def opened (r : Settings) : Settings := (r.put .softwareSelect 1).put .selectLevel 0

/-- The slave is not selected, and the hardware has the select. -/
def closed (r : Settings) : Settings := (r.put .selectLevel 1).put .softwareSelect 0

/-- The answer of a getter is what the record holds. -/
def Shows (r : Settings) : ControlQuery → Answer → Prop
  | .outputsEnabled, .flag value => value.toNat = r.part .outputs
  | .role, .role value => value = r.role
  | .resetRole, .role value => value = r.resetRole
  | .isConfigFixed, .flag value => value = r.fixed
  | .isMaster, .flag value => value = (r.role == .master)
  | .mode, .mode value => value.code.toNat = r.part .mode
  | .clockDivider, .small value => value.toNat = r.part .clockDivider
  -- The clock is shifted by less than the width of its word.
  | .sckHz clockHz, .hertz value => r.part .clockDivider + 1 < 32 ∧
      value.toNat = clockHz.toNat / 2 ^ (r.part .clockDivider + 1)
  | .activeSlave, .small value => value.toNat = r.part .activeSlave
  | .softwareSelectEnabled, .flag value => value.toNat = r.part .softwareSelect
  | .pulseMode, .flag value => value.toNat = r.part .pulseMode
  | .selectAsserted, .flag value => (!value).toNat = r.part .selectLevel
  | _, _ => False

end Settings

/-- The record of a configuration: the hardware has the select, and the slave is not selected. -/
def Config.settings (config : Config) : Settings where
  part
    | .outputs => config.outputsEnabled.toNat
    | .role => (config.role == .master).toNat
    | .pulseMode => 0
    | .softwareSelect => 0
    | .selectLevel => 1
    | .activeSlave => config.slave.toNat % 4
    | .mode => config.mode.code.toNat
    | .clockDivider => config.clockDivider.toNat % 16
  fixed := false
  resetRole := .slave

namespace Setting

def component : Setting → Component
  | .outputs _ => .outputs
  | .role _ => .role
  | .mode _ => .mode
  | .clockDivider _ => .clockDivider
  | .activeSlave _ => .activeSlave
  | .softwareSelect _ => .softwareSelect
  | .pulseMode _ => .pulseMode
  | .select _ => .selectLevel

/-- The number that a setting has for its component; a low select level selects. -/
def number : Setting → Nat
  | .outputs enabled => enabled.toNat
  | .role value => (value == .master).toNat
  | .mode value => value.code.toNat
  | .clockDivider exponent => exponent.toNat
  | .activeSlave slave => slave.toNat
  | .softwareSelect software => software.toNat
  | .pulseMode enabled => enabled.toNat
  | .select asserted => (!asserted).toNat

theorem field_eq (setting : Setting) : setting.field = setting.component.field := by
  cases setting <;> rfl

theorem toNat_word (setting : Setting) : setting.word.toNat = setting.number := by
  have hbool : ∀ b : Bool, b.toUInt32.toNat = b.toNat := by decide
  cases setting with
  | outputs b | softwareSelect b | pulseMode b => exact hbool b
  | role value => exact hbool (value == .master)
  | select asserted => exact hbool !asserted
  | mode value => rfl
  | clockDivider value | activeSlave value => exact UInt8.toNat_toUInt32 value

end Setting

/-! ## The record of a control word -/

/-- The hardware's part of the record is not in bits that software writes. -/
theorem settings_of_agree {v w : UInt32} (h : AgreeOn (fun i => ¬ Owned i) v w) :
    (settings v).fixed = (settings w).fixed ∧
      (settings v).resetRole = (settings w).resetRole := by
  have hfixed : configFixedField.isSet v = configFixedField.isSet w := by
    refine Field.isSet_congr fun i hi => h i ?_
    obtain rfl : i = 21 := Nat.le_antisymm (Nat.le_of_lt_succ hi.2) hi.1
    exact not_owned_configFixed
  have hreset : resetRoleField.isSet v = resetRoleField.isSet w := by
    refine Field.isSet_congr fun i hi => h i ?_
    obtain rfl : i = 20 := Nat.le_antisymm (Nat.le_of_lt_succ hi.2) hi.1
    exact not_owned_resetRole
  unfold settings
  rw [hfixed, hreset]
  exact ⟨rfl, rfl⟩

/-- A field rewritten is one number replaced. -/
theorem settings_rewrite (part : Component) (control value : UInt32) :
    settings (part.field.rewrite control value) = (settings control).put part value.toNat := by
  have hhardware := settings_of_agree (v := part.field.rewrite control value) (w := control)
    fun i hi => Field.bitAt_rewrite (fun hc => hi ⟨part, hc⟩) control value
  apply Settings.ext
  · funext other
    by_cases h : other = part
    · subst h
      simp [settings, Settings.put, Field.value_rewrite, Component.size_eq]
    · simp [settings, Settings.put, h, Field.value_rewrite_of_apart (Component.apart h)]
  · exact hhardware.1
  · exact hhardware.2

theorem settings_openControl (control : UInt32) :
    settings (openControl control) = (settings control).opened := by
  have hselect : openControl control = Component.selectLevel.field.rewrite
      (Component.softwareSelect.field.rewrite control 1) 0 := by
    rw [Field.rewrite_zero, Field.rewrite_one rfl]
    rfl
  rw [hselect, settings_rewrite, settings_rewrite]
  rfl

theorem settings_closedControl (control : UInt32) :
    settings (closedControl control) = (settings control).closed := by
  have hselect : closedControl control = Component.softwareSelect.field.rewrite
      (Component.selectLevel.field.rewrite control 1) 0 := by
    rw [Field.rewrite_zero, Field.rewrite_one rfl]
    rfl
  rw [hselect, settings_rewrite, settings_rewrite]
  rfl

/-- The word that a configuration is encoded from, for each component. -/
def Config.word (config : Config) : Component → UInt32
  | .outputs => config.outputsEnabled.toUInt32
  | .role => (config.role == .master).toUInt32
  | .pulseMode => 0
  | .softwareSelect => 0
  | .selectLevel => 1
  | .activeSlave => config.slave.toUInt32
  | .mode => config.mode.code
  | .clockDivider => config.clockDivider.toUInt32

theorem Config.part_settings (config : Config) (part : Component) :
    config.settings.part part = (config.word part).toNat % 2 ^ part.field.width := by
  have hbool : ∀ b : Bool, b.toNat = b.toUInt32.toNat % 2 ^ 1 := by decide
  obtain ⟨role, mode, clockDivider, slave, outputsEnabled⟩ := config
  cases part with
  | outputs => exact hbool outputsEnabled
  | role => exact hbool (role == .master)
  | mode => cases mode <;> rfl
  | pulseMode | softwareSelect | selectLevel => rfl
  | activeSlave | clockDivider => rw [Config.word, UInt8.toNat_toUInt32]; rfl

/-- What is set in an encoded configuration is set by one of its components. -/
theorem Config.bitAt_encode (config : Config) (i : Nat) :
    bitAt config.encode i = true ↔
      ∃ part : Component, bitAt (part.field.put (config.word part)) i = true := by
  have hlevel : selectLevelField.mask = selectLevelField.put 1 := by decide
  have hzero : ∀ f : Field, bitAt (f.put 0) i = false := by simp [Field.put]
  unfold encode
  rw [hlevel]
  simp only [bitAt_or, Bool.or_eq_true]
  constructor
  · rintro (((((h | h) | h) | h) | h) | h)
    · exact ⟨.outputs, h⟩
    · exact ⟨.role, h⟩
    · exact ⟨.selectLevel, h⟩
    · exact ⟨.activeSlave, h⟩
    · exact ⟨.mode, h⟩
    · exact ⟨.clockDivider, h⟩
  · rintro ⟨part, h⟩
    cases part with
    | pulseMode => exact absurd (h.symm.trans (hzero pulseModeField)) (by decide)
    | softwareSelect => exact absurd (h.symm.trans (hzero softwareSelectField)) (by decide)
    | outputs => exact Or.inl (Or.inl (Or.inl (Or.inl (Or.inl h))))
    | role => exact Or.inl (Or.inl (Or.inl (Or.inl (Or.inr h))))
    | selectLevel => exact Or.inl (Or.inl (Or.inl (Or.inr h)))
    | activeSlave => exact Or.inl (Or.inl (Or.inr h))
    | mode => exact Or.inl (Or.inr h)
    | clockDivider => exact Or.inr h

theorem settings_encode (config : Config) : settings config.encode = config.settings := by
  have hclear : ∀ i, ¬ Owned i → bitAt config.encode i = false := by
    intro i hi
    refine Bool.eq_false_iff.mpr fun hbit => ?_
    obtain ⟨part, hpart⟩ := (config.bitAt_encode i).mp hbit
    exact hi ⟨part, Field.covers_of_bitAt_put hpart⟩
  apply Settings.ext
  · funext part
    rw [config.part_settings, ← Field.value_put]
    refine Field.value_congr fun i hi => Bool.eq_iff_iff.mpr ?_
    rw [config.bitAt_encode]
    constructor
    · rintro ⟨other, hother⟩
      -- Another component has no bit in this field.
      by_cases h : part = other
      · rw [h]
        exact hother
      · exact absurd (Field.covers_of_bitAt_put hother)
          (Field.apart_iff_covers.mp (Component.apart h) i hi)
    · intro hbit
      exact ⟨part, hbit⟩
  · exact (Field.isSet_bit (by decide)).trans (hclear 21 not_owned_configFixed)
  · have hreset : resetRoleField.isSet config.encode = false :=
      (Field.isSet_bit (by decide)).trans (hclear 20 not_owned_resetRole)
    show Role.ofBit (resetRoleField.isSet config.encode) = .slave
    rw [hreset]
    rfl

/-! ## Getters -/

/-- What the getters make of a control word. -/
def reading (control : UInt32) : ControlQuery → Answer
  | .outputsEnabled => .flag (outputEnableField.isSet control)
  | .role => .role (effectiveRole control)
  | .resetRole => .role (.ofBit (resetRoleField.isSet control))
  | .isConfigFixed => .flag (configFixedField.isSet control)
  | .isMaster => .flag (effectiveRole control == .master)
  | .mode => .mode (.ofCode (modeField.get control))
  | .clockDivider => .small (clockDividerField.get control).toUInt8
  | .sckHz clockHz =>
    .hertz (clockHz >>> ((clockDividerField.get control).toUInt8 + 1).toUInt32)
  | .activeSlave => .small (activeSlaveField.get control).toUInt8
  | .softwareSelectEnabled => .flag (softwareSelectField.isSet control)
  | .pulseMode => .flag (pulseModeField.isSet control)
  | .selectAsserted => .flag (!selectLevelField.isSet control)

theorem returns_readControl (s : Spi) (m : Machine SpiModel) (query : ControlQuery) :
    Returns SpiModel.platform (s.readControl query) m (reading m.device.control query) m := by
  have hword : Returns SpiModel.platform s.control m m.device.control m :=
    s.returns_readWord .control m
  cases query with
  | outputsEnabled => exact (hword.map outputEnableField.isSet).map Answer.flag
  | role => exact (hword.map effectiveRole).map Answer.role
  | resetRole =>
      exact (hword.map fun word => Role.ofBit (resetRoleField.isSet word)).map Answer.role
  | isConfigFixed => exact (hword.map configFixedField.isSet).map Answer.flag
  | isMaster => exact ((hword.map effectiveRole).map (· == Role.master)).map Answer.flag
  | mode => exact (hword.map fun word => Mode.ofCode (modeField.get word)).map Answer.mode
  | clockDivider =>
      exact (hword.map fun word => (clockDividerField.get word).toUInt8).map Answer.small
  | sckHz clockHz =>
      have hdivider : Returns SpiModel.platform s.clockDivider m
          (clockDividerField.get m.device.control).toUInt8 m :=
        hword.map fun word => (clockDividerField.get word).toUInt8
      have hsck := hdivider.map fun exponent => clockHz >>> (exponent + 1).toUInt32
      exact hsck.map Answer.hertz
  | activeSlave =>
      exact (hword.map fun word => (activeSlaveField.get word).toUInt8).map Answer.small
  | softwareSelectEnabled => exact (hword.map softwareSelectField.isSet).map Answer.flag
  | pulseMode => exact (hword.map pulseModeField.isSet).map Answer.flag
  | selectAsserted =>
      exact (hword.map fun word => !selectLevelField.isSet word).map Answer.flag

theorem role_settings (control : UInt32) : (settings control).role = effectiveRole control := by
  have hmaster : (masterField.value control != 0) = masterField.isSet control := by
    rw [Bool.eq_iff_iff, Field.isSet_iff_value, bne_iff_ne]
  show (if configFixedField.isSet control then Role.ofBit (resetRoleField.isSet control)
    else Role.ofBit (masterField.value control != 0)) = effectiveRole control
  rw [hmaster, effectiveRole]
  cases configFixedField.isSet control <;> rfl

theorem code_ofCode (code : UInt32) : (Mode.ofCode code).code.toNat = code.toNat % 4 := by
  have hlow : (code &&& 3).toNat = code.toNat % 4 := by
    rw [UInt32.toNat_and]
    exact Nat.and_two_pow_sub_one_eq_mod code.toNat 2
  have hcases : code.toNat % 4 = 0 ∨ code.toNat % 4 = 1 ∨ code.toNat % 4 = 2 ∨
      code.toNat % 4 = 3 := by omega
  unfold Mode.ofCode
  rw [hlow]
  rcases hcases with h | h | h | h
  all_goals
    rw [h]
    rfl

/-- The clock is divided by two to a power, and rounded down. -/
theorem toNat_sckHz (clockHz control : UInt32) :
    clockDividerField.value control + 1 < 32 ∧
      (clockHz >>> ((clockDividerField.get control).toUInt8 + 1).toUInt32).toNat
        = clockHz.toNat / 2 ^ (clockDividerField.value control + 1) := by
  have hlt : clockDividerField.value control < 2 ^ 4 := Field.value_lt _ _
  have hexponent := Field.toNat_get_toUInt8 (f := clockDividerField) (by decide) control
  have hshift : ((clockDividerField.get control).toUInt8 + 1).toUInt32.toNat
      = clockDividerField.value control + 1 := by
    rw [UInt8.toNat_toUInt32, UInt8.toNat_add, hexponent]
    show (_ + 1) % 256 = _
    omega
  refine ⟨by omega, ?_⟩
  rw [UInt32.toNat_shiftRight, hshift, Nat.mod_eq_of_lt (by omega), Nat.shiftRight_eq_div_pow]

/-- The getters give the record. -/
theorem shows_reading (control : UInt32) (query : ControlQuery) :
    (settings control).Shows query (reading control query) := by
  cases query with
  | outputsEnabled | softwareSelectEnabled | pulseMode => exact Field.toNat_isSet rfl control
  | role => exact (role_settings control).symm
  | isMaster =>
      show _ = ((settings control).role == .master)
      rw [role_settings]
  | resetRole | isConfigFixed => rfl
  | mode =>
      have hlt : modeField.value control < 2 ^ 2 := Field.value_lt _ _
      show (Mode.ofCode (modeField.get control)).code.toNat = modeField.value control
      rw [code_ofCode, Field.toNat_get]
      exact Nat.mod_eq_of_lt hlt
  | clockDivider | activeSlave => exact Field.toNat_get_toUInt8 (by decide) control
  | sckHz clockHz => exact toNat_sckHz clockHz control
  | selectAsserted =>
      show (!!selectLevelField.isSet control).toNat = _
      rw [Bool.not_not]
      exact Field.toNat_isSet rfl control

end BoardSupport.Spi

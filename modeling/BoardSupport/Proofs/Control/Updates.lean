import BoardSupport.Proofs.Control.Interleaving

/-!
# What the drivers change through the aliases

The changes that the UART and the SPI driver make through set and clear aliases:
settings, watermarks, the enables of the SPI controller, and any field of the control
word. Each keeps to the fields it names (`Uart.sound_changes`, `Spi.sound_changes`),
so by `fieldUpdates_independent` two contexts that share no field never lose a change
of one another.
-/

namespace BoardSupport

open Program
open Fifo (Side)

theorem AliasWrites.of_field {α : Type} {f : Field} {refused : Prop} {n : Nat} {x : Program α}
    (h : AliasWrites f.Covers refused n x) (k : Nat) (hnk : n ≤ k) :
    AliasWrites (Covered [f]) refused k x :=
  h.mono (fun _ hi => ⟨f, List.mem_singleton_self f, hi⟩) id hnk

/-! ## The UART -/

namespace Uart

/-- The field that a setting is kept in. -/
def Setting.field : Setting → Field
  | .dataBits _ => dataBitsField
  | .parity _ => parityField
  | .stopBits _ => stopBitsField
  | .flowControl _ => flowControlField
  | .cyclesPerBit _ => cyclesPerBitField
  | .baud _ _ => cyclesPerBitField

/-- A change that the driver makes through aliases. -/
inductive Update
  | set (setting : Setting)
  | field (field : Field) (value : UInt32)
  | watermark (side : Side) (level : UInt8)
  deriving DecidableEq

def Update.fields : Update → List Field
  | .set setting => [setting.field]
  | .field f _ => [f]
  | .watermark _ _ => []

/-- There is no divisor for a line rate of zero. -/
def Update.Refused : Update → Prop
  | .set (.baud _ rate) => rate = 0
  | _ => False

variable (u : Uart)

def update : Update → Program Unit
  | .set setting => u.change setting
  | .field f value => u.setControlField f value
  | .watermark side level => u.setWatermark side level

def changes (cs : List Update) : Changes where
  program := Program.each u.update cs
  fields := cs.flatMap Update.fields
  writes := 2 * cs.length
  refused := ∃ c ∈ cs, c.Refused

theorem aliasWrites_change (setting : Setting) :
    AliasWrites (Covered [setting.field]) (Update.Refused (.set setting)) 2
      (u.change setting) := by
  have hfield : ∀ (f : Field) (value : UInt32) (refused : Prop),
      AliasWrites (Covered [f]) refused 2 (u.setControlField f value) :=
    fun f value _ => (AliasWrites.updateField u.block f value).of_field 2 (Nat.le_refl 2)
  cases setting with
  | baud clockHz rate =>
      show AliasWrites _ (rate = 0) 2 ((ofExcept (divisor clockHz rate)).bind _)
      unfold divisor
      by_cases hr : rate = 0
      · rw [if_pos hr]
        exact .fault _ hr
      · rw [if_neg hr]
        exact hfield cyclesPerBitField (clockHz / rate) _
  | _ => exact hfield _ _ _

theorem aliasWrites_update (c : Update) :
    AliasWrites (Covered c.fields) c.Refused 2 (u.update c) := by
  cases c with
  | set setting => exact u.aliasWrites_change setting
  | field f value => exact (AliasWrites.updateField u.block f value).of_field 2 (Nat.le_refl 2)
  | watermark side level => exact AliasWrites.updateField_status u.block side _ _

theorem sound_changes (cs : List Update) : (u.changes cs).Sound :=
  AliasWrites.each u.aliasWrites_update cs

end Uart

/-! ## The SPI controller -/

namespace Spi

/-- The field that a setting is kept in. -/
def Setting.field : Setting → Field
  | .outputs _ => outputEnableField
  | .role _ => masterField
  | .mode _ => modeField
  | .clockDivider _ => clockDividerField
  | .activeSlave _ => activeSlaveField
  | .softwareSelect _ => softwareSelectField
  | .pulseMode _ => pulseModeField
  | .select _ => selectLevelField

/-- A change that the driver makes through aliases. -/
inductive Update
  | set (setting : Setting)
  | field (field : Field) (value : UInt32)
  | enabled (side : Side) (value : Bool)
  | watermark (side : Side) (level : UInt8)
  deriving DecidableEq

def Update.fields : Update → List Field
  | .set setting => [setting.field]
  | .field f _ => [f]
  | .enabled _ _ => []
  | .watermark _ _ => []

variable (s : Spi)

def update : Update → Program Unit
  | .set setting => s.change setting
  | .field f value => s.setControlField f value
  | .enabled side true => s.enable side
  | .enabled side false => s.disable side
  | .watermark side level => s.setWatermark side level

def changes (cs : List Update) : Changes where
  program := Program.each s.update cs
  fields := cs.flatMap Update.fields
  writes := 2 * cs.length
  refused := False

theorem aliasWrites_setControlBits (f : Field) (set : Bool) :
    AliasWrites (Covered [f]) False 2 (s.setControlBits f set) := by
  refine AliasWrites.of_field (AliasWrites.write_mask ?_ f) 2 (by decide)
  cases set with
  | true => exact Or.inl rfl
  | false => exact Or.inr rfl

theorem aliasWrites_setControlField (f : Field) (value : UInt32) :
    AliasWrites (Covered [f]) False 2 (s.setControlField f value) :=
  (AliasWrites.updateField s.block f value).of_field 2 (Nat.le_refl 2)

theorem aliasWrites_change (setting : Setting) :
    AliasWrites (Covered [setting.field]) False 2 (s.change setting) := by
  cases setting with
  | outputs b => exact s.aliasWrites_setControlBits outputEnableField b
  | role r => exact s.aliasWrites_setControlBits masterField _
  | mode v => exact s.aliasWrites_setControlField modeField _
  | clockDivider v => exact s.aliasWrites_setControlField clockDividerField _
  | activeSlave v => exact s.aliasWrites_setControlField activeSlaveField _
  | softwareSelect b => exact s.aliasWrites_setControlBits softwareSelectField b
  | pulseMode b => exact s.aliasWrites_setControlBits pulseModeField b
  | select b =>
      cases b with
      | true => exact s.aliasWrites_setControlBits selectLevelField false
      | false => exact s.aliasWrites_setControlBits selectLevelField true

theorem aliasWrites_update (c : Update) :
    AliasWrites (Covered c.fields) False 2 (s.update c) := by
  cases c with
  | set setting => exact s.aliasWrites_change setting
  | field f value => exact s.aliasWrites_setControlField f value
  | enabled side value =>
      cases value with
      | true =>
          exact (AliasWrites.write (touchesOnly_statusSet side)).mono (fun _ h => h) id
            (Nat.le_succ 1)
      | false =>
          exact (AliasWrites.write (touchesOnly_statusClear side)).mono (fun _ h => h) id
            (Nat.le_succ 1)
  | watermark side level => exact AliasWrites.updateField_status s.block side _ _

theorem sound_changes (cs : List Update) : (s.changes cs).Sound :=
  (AliasWrites.each s.aliasWrites_update cs).mono (fun _ h => h) (fun ⟨_, _, h⟩ => h)
    (Nat.le_refl _)

end Spi

/-! ## Two contexts -/

/-- **Changes of fields apart never lose each other.** Whatever the UART or the SPI
controller holds at first, whatever two contexts change in fields they do not share
and however their writes take turns: at every point the fields of each are as it alone
would have made them and all other bits are as they were, and in the end the control
word is that of the two run whole, in either order. -/
theorem fieldUpdates_independent :
    (∀ (u : Uart) (m : Machine UartModel) (as bs : List Uart.Update),
      (u.changes as).Apart (u.changes bs) → ∀ turns,
        TurnsIndependent UartModel.bus UartModel.control (u.changes as) (u.changes bs) m turns
          (interleave (Machine.platform UartModel.bus) turns (u.changes as).program
            (u.changes bs).program m)) ∧
    (∀ (s : Spi) (m : Machine SpiModel) (as bs : List Spi.Update),
      (s.changes as).Apart (s.changes bs) → ∀ turns,
        TurnsIndependent SpiModel.bus SpiModel.control (s.changes as) (s.changes bs) m turns
          (interleave (Machine.platform SpiModel.bus) turns (s.changes as).program
            (s.changes bs).program m)) :=
  ⟨fun u m as bs h turns => Changes.turnsIndependent UartModel.hasControlAliases
      (u.sound_changes as) (u.sound_changes bs) h m turns,
    fun s m as bs h turns => Changes.turnsIndependent SpiModel.hasControlAliases
      (s.sound_changes as) (s.sound_changes bs) h m turns⟩

/-- A line rate and a watermark against a parity and a handshake, a clock mode and a
select against a slave line, with a turn of the trap handler between any two of the
foreground program. -/
theorem fieldUpdates_independent_halfway :
    let u : Uart := ⟨MemoryMap.full.uart0⟩
    let s : Spi := ⟨MemoryMap.full.spi0⟩
    let uart : Machine UartModel := { device := { control := 0x780001B2 } }
    let spi : Machine SpiModel := { device := .master }
    let line : List Uart.Update := [.set (.baud 50000000 115200), .watermark .tx 8]
    let parity : List Uart.Update := [.set (.parity .odd), .field (.bit 24) 1]
    let clock : List Spi.Update := [.set (.mode .mode3), .set (.select true)]
    let slave : List Spi.Update := [.set (.activeSlave 2), .enabled .rx false]
    let turns : List Context := [.foreground, .trap, .foreground, .trap, .foreground, .trap,
      .foreground, .trap]
    ((u.changes line).Apart (u.changes parity) ∧
      TurnsIndependent UartModel.bus UartModel.control (u.changes line) (u.changes parity) uart
        turns (interleave (Machine.platform UartModel.bus) turns (u.changes line).program
          (u.changes parity).program uart)) ∧
    ((s.changes clock).Apart (s.changes slave) ∧
      TurnsIndependent SpiModel.bus SpiModel.control (s.changes clock) (s.changes slave) spi
        turns (interleave (Machine.platform SpiModel.bus) turns (s.changes clock).program
          (s.changes slave).program spi)) := by
  intro u s uart spi line parity clock slave turns
  have hline : (u.changes line).Apart (u.changes parity) := by decide
  have hclock : (s.changes clock).Apart (s.changes slave) := by decide
  exact ⟨⟨hline, fieldUpdates_independent.1 u uart line parity hline turns⟩,
    ⟨hclock, fieldUpdates_independent.2 s spi clock slave hclock turns⟩⟩

end BoardSupport

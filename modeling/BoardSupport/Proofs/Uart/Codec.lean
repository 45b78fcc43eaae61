import BoardSupport.Proofs.Uart.Settings

/-!
# The format of the control word

A configuration and the word it is encoded as have the same record, except that only the
low 24 bits of the divisor are kept (`record_encode`); so what is read back from the word
is the configuration with its divisor reduced (`decode_encode`). A word is read at all
exactly when three of its numbers are not reserved (`Meaningful`), and as its five numbers
use every bit once (`toNat_eq_record`), what is read is encoded as that word again.
-/

namespace BoardSupport.Uart

/-! ## Configurations and their numbers -/

theorem DataBits.code_inj {v w : DataBits} (h : v.code.toNat = w.code.toNat) : v = w := by
  cases v <;> cases w <;> simp [code] at h ⊢

theorem Parity.code_inj {v w : Parity} (h : v.code.toNat = w.code.toNat) : v = w := by
  cases v <;> cases w <;> simp [code] at h ⊢

theorem StopBits.code_inj {v w : StopBits} (h : v.code.toNat = w.code.toNat) : v = w := by
  cases v <;> cases w <;> simp [code] at h ⊢

theorem FlowControl.code_inj {v w : FlowControl} (h : v.code.toNat = w.code.toNat) : v = w := by
  cases v <;> cases w <;> simp [code] at h ⊢

/-- The numbers of a configuration determine it. -/
theorem Config.eq_of_number_eq {v w : Config} (h : v.number = w.number) : v = w := by
  obtain ⟨dataBits, parity, stopBits, flowControl, cyclesPerBit⟩ := v
  obtain ⟨dataBits', parity', stopBits', flowControl', cyclesPerBit'⟩ := w
  obtain rfl : dataBits = dataBits' := DataBits.code_inj (congrFun h .dataBits)
  obtain rfl : parity = parity' := Parity.code_inj (congrFun h .parity)
  obtain rfl : stopBits = stopBits' := StopBits.code_inj (congrFun h .stopBits)
  obtain rfl : flowControl = flowControl' := FlowControl.code_inj (congrFun h .flowControl)
  obtain rfl : cyclesPerBit = cyclesPerBit' := UInt32.toNat_inj.mp (congrFun h .cyclesPerBit)
  rfl

/-- The configuration with what is kept of its divisor. -/
def Config.reduced (config : Config) : Config :=
  { config with cyclesPerBit := config.cyclesPerBit % 0x1000000 }

theorem Config.number_reduced (config : Config) :
    config.reduced.number = fun part => part.keep (config.number part) := by
  funext part
  cases part with
  | dataBits | parity | stopBits | flowControl => rfl
  | cyclesPerBit => exact UInt32.toNat_mod _ _

/-- No configuration has a number that means nothing. -/
theorem Config.not_reserved (config : Config) (part : Component) :
    ¬ part.Reserved (config.number part) := by
  cases part with
  | dataBits =>
      show ¬ 5 ≤ config.dataBits.code.toNat
      cases config.dataBits <;> decide
  | parity =>
      show config.parity.code.toNat ≠ 3
      cases config.parity <;> decide
  | stopBits =>
      show config.stopBits.code.toNat ≠ 3
      cases config.stopBits <;> decide
  | flowControl | cyclesPerBit => exact id

/-! ## Words and their numbers -/

/-- Data bits, parity and stop bits of the word are encodings in use. -/
def Meaningful (word : UInt32) : Prop :=
  dataBitsField.value word ≤ 4 ∧ parityField.value word ≤ 2 ∧ stopBitsField.value word ≤ 2

theorem meaningful_iff {word : UInt32} :
    Meaningful word ↔ ∀ part : Component, ¬ part.Reserved (record word part) := by
  have hparity : parityField.value word < 2 ^ 2 := Field.value_lt _ _
  have hstop : stopBitsField.value word < 2 ^ 2 := Field.value_lt _ _
  constructor
  · rintro ⟨hd, hp, hs⟩ part
    cases part with
    | dataBits => exact Nat.not_le.mpr (Nat.lt_succ_of_le hd)
    | parity => exact Nat.ne_of_lt (Nat.lt_succ_of_le hp)
    | stopBits => exact Nat.ne_of_lt (Nat.lt_succ_of_le hs)
    | flowControl | cyclesPerBit => exact id
  · intro h
    have hd : ¬ 5 ≤ dataBitsField.value word := h .dataBits
    have hp : ¬ parityField.value word = 3 := h .parity
    have hs : ¬ stopBitsField.value word = 3 := h .stopBits
    unfold Meaningful
    omega

/-- The number that a record makes up: each component at its place in the word. -/
def Record.sum (r : Record) : Nat :=
  r .dataBits * 2 ^ 29 + r .parity * 2 ^ 27 + r .stopBits * 2 ^ 25 + r .flowControl * 2 ^ 24
    + r .cyclesPerBit

/-- The five numbers of a word use each of its bits once. -/
theorem toNat_eq_record (word : UInt32) : word.toNat = (record word).sum := by
  have hlt := word.toNat_lt
  show _ = word.toNat / 2 ^ 29 % 2 ^ 3 * 2 ^ 29 + word.toNat / 2 ^ 27 % 2 ^ 2 * 2 ^ 27
    + word.toNat / 2 ^ 25 % 2 ^ 2 * 2 ^ 25 + word.toNat / 2 ^ 24 % 2 ^ 1 * 2 ^ 24
    + word.toNat / 2 ^ 0 % 2 ^ 24
  omega

/-- Nothing of a number that a word holds is cut. -/
theorem keep_record (word : UInt32) (part : Component) :
    part.keep (record word part) = record word part := by
  cases part with
  | dataBits | parity | stopBits | flowControl => rfl
  | cyclesPerBit => exact Nat.mod_eq_of_lt (cyclesPerBitField.value_lt word)

/-! ## There and back -/

theorem decode_encode (config : Config) : Config.decode config.encode = .ok config.reduced := by
  have hshows := shows_config config.encode
  rw [record_encode, ← config.number_reduced] at hshows
  cases hdecode : Config.decode config.encode with
  | error e =>
      rw [hdecode] at hshows
      obtain ⟨⟨part, hreserved⟩, -⟩ := hshows
      exact absurd hreserved (config.reduced.not_reserved part)
  | ok read =>
      rw [hdecode] at hshows
      exact congrArg Except.ok (Config.eq_of_number_eq hshows.2)

theorem encode_of_number_eq {config : Config} {word : UInt32} (h : config.number = record word) :
    config.encode = word := by
  apply control_eq_of_record_eq
  rw [record_encode, h]
  exact funext (keep_record word)

/-- **The control word and the configuration are two forms of one thing.** Every
configuration is encoded by its five numbers, each at its place and the divisor cut to 24
bits, and read back as itself with the divisor cut. A word is read if and only if its data
bits, parity and stop bits are encodings in use, and what is read is encoded as that word
again; any other word is refused as having an invalid field. -/
theorem controlWord_codec :
    (∀ config : Config,
      Config.decode config.encode
        = .ok { config with cyclesPerBit := config.cyclesPerBit % 0x1000000 } ∧
      config.encode.toNat = config.dataBits.code.toNat * 2 ^ 29 + config.parity.code.toNat * 2 ^ 27
        + config.stopBits.code.toNat * 2 ^ 25 + config.flowControl.code.toNat * 2 ^ 24
        + config.cyclesPerBit.toNat % 2 ^ 24) ∧
    ∀ word : UInt32, match Config.decode word with
      | .ok config => Meaningful word ∧ config.encode = word
      | .error e => ¬ Meaningful word ∧ e = .invalidField := by
  refine ⟨fun config => ⟨decode_encode config, ?_⟩, fun word => ?_⟩
  · rw [toNat_eq_record, record_encode]
    rfl
  · have hshows := shows_config word
    cases hdecode : Config.decode word with
    | ok config =>
        rw [hdecode] at hshows
        exact ⟨meaningful_iff.mpr hshows.1, encode_of_number_eq hshows.2⟩
    | error e =>
        rw [hdecode] at hshows
        obtain ⟨⟨part, hreserved⟩, he⟩ := hshows
        exact ⟨fun hmeant => meaningful_iff.mp hmeant part hreserved, he⟩

/-- A divisor of more than 24 bits does not reach the handshake, which is off. -/
example : Config.decode (Config.encode ⟨.nine, .odd, .two, .none, 0xFFFFFFFF⟩)
    = .ok ⟨.nine, .odd, .two, .none, 0xFFFFFF⟩ := by decide

end BoardSupport.Uart

import BoardSupport.Device.Trng
import BoardSupport.Proofs.Trng.Harvest

/-!
# The words of the simulated generator

`TrngModel.words` is what the next readings of the block show, and `TrngModel.after` what
they leave: a platform answers readings with these words, as often as the block can count
its readings, and with no others (`answered_readings_iff`). While the source is off no word
has data. While it is on, each reading uses up one that finds nothing, and from then on every
word has the byte (`harvest_words`). What the driver's calls do to the block follows from
these two (`Trng.completes_getBytes_on`, `Trng.of_returns_getBytes`,
`Trng.withholds_getBytes`).
-/

namespace BoardSupport

open Program

namespace TrngModel

variable {d : TrngModel} {on : Bool}

/-- The block can be read `n` times more before its count of readings overflows. -/
def CanRead (d : TrngModel) (n : Nat) : Prop := d.reads.toNat + n < 0x100000000

instance (d : TrngModel) (n : Nat) : Decidable (d.CanRead n) :=
  inferInstanceAs (Decidable (_ < _))

/-- The control word holds the enable bit, or nothing. -/
def Switched (d : TrngModel) (on : Bool) : Prop :=
  d.control = if on then Trng.enableField.mask else 0

/-! ## One reading -/

/-- What the next reading shows and leaves. -/
def next (d : TrngModel) : UInt32 × TrngModel := ({ d with reads := d.reads + 1 } : TrngModel).sample

theorem load_control (h : d.CanRead 1) : d.load Trng.controlOffset = .ok d.next := by
  rw [load, if_pos rfl, if_neg (count_ne_last_iff.mpr h), next]

theorem load_control_error (h : ¬ d.CanRead 1) :
    d.load Trng.controlOffset = .error .addOverflow := by
  have hlast : d.reads = 0xFFFFFFFF := by
    by_contra hne
    exact h (count_ne_last_iff.mp hne)
  rw [load, if_pos rfl, if_pos hlast]

/-- The words without data are four, and their bits can be looked up. -/
theorem baseWord_shows (h : d.Switched on) :
    (bitAt d.baseWord 31 = false ∧ bitAt d.baseWord 30 = on ∧ bitAt d.baseWord 29 = d.simulated) ∧
      ∀ i < 8, bitAt d.baseWord i = false := by
  have hword : d.baseWord = if d.simulated then
      (if on then Trng.enableField.mask else 0) ||| Trng.simulatedField.mask
      else if on then Trng.enableField.mask else 0 := by
    rw [baseWord, h]
  rw [hword]
  cases on <;> cases d.simulated <;> decide

/-- The next reading finds data. -/
def Ready (d : TrngModel) (on : Bool) : Prop := on = true ∧ d.invalidPolls = 0

instance (d : TrngModel) (on : Bool) : Decidable (d.Ready on) := inferInstanceAs (Decidable (_ ∧ _))

theorem next_eq (h : d.Switched on) : d.next =
    (if d.Ready on then d.baseWord ||| Trng.validField.mask ||| d.data.toUInt32 else d.baseWord,
      { d with
        reads := d.reads + 1
        invalidPolls := if on then d.invalidPolls - 1 else d.invalidPolls }) := by
  have hcounted : ({ d with reads := d.reads + 1 } : TrngModel).Switched on := h
  have henable : Trng.enableField.isSet ({ d with reads := d.reads + 1 } : TrngModel).baseWord = on :=
    (Field.isSet_bit (by decide)).trans (baseWord_shows hcounted).1.2.1
  rw [next, sample, henable]
  cases on with
  | false => rfl
  | true =>
      by_cases hpolls : d.invalidPolls = 0
      · simp [Ready, hpolls, baseWord]
      · simp [Ready, hpolls, baseWord]

theorem bitAt_next (h : d.Switched on) (i : Nat) : bitAt d.next.1 i = (bitAt d.baseWord i ||
    (decide (d.Ready on) && (decide (i = 31) || d.data.toNat.testBit i))) := by
  rw [next_eq h]
  by_cases hready : d.Ready on
  · rw [if_pos hready, bitAt_or, bitAt_or, Trng.validField, Field.bitAt_bit_mask, bitAt_toUInt32,
      decide_eq_true hready, Bool.true_and, Bool.or_assoc]
  · rw [if_neg hready, decide_eq_false hready, Bool.false_and, Bool.or_false]

theorem valid_next (h : d.Switched on) : Trng.valid d.next.1 = decide (d.Ready on) := by
  rw [Trng.valid, bitAt_next h, (baseWord_shows h).1.1]
  simp

theorem isSet_enable_next (h : d.Switched on) : Trng.enableField.isSet d.next.1 = on := by
  rw [Trng.enableField, Field.isSet_bit, bitAt_next h, (baseWord_shows h).1.2.1,
    testBit_byte_of_le d.data (by decide)]
  simp

theorem isSet_simulated_next (h : d.Switched on) :
    Trng.simulatedField.isSet d.next.1 = d.simulated := by
  rw [Trng.simulatedField, Field.isSet_bit, bitAt_next h, (baseWord_shows h).1.2.2,
    testBit_byte_of_le d.data (by decide)]
  simp

theorem toUInt8_next (h : d.Switched on) :
    d.next.1.toUInt8 = if d.Ready on then d.data else 0 := by
  refine toUInt8_eq_of_bitAt fun i hi => ?_
  have hne : i ≠ 31 := by omega
  rw [bitAt_next h, (baseWord_shows h).2 i hi, Bool.false_or, decide_eq_false hne, Bool.false_or]
  by_cases hready : d.Ready on
  · rw [if_pos hready, decide_eq_true hready, Bool.true_and]
  · rw [if_neg hready, decide_eq_false hready, Bool.false_and]
    exact (Nat.zero_testBit i).symm

theorem switched_next (h : d.Switched on) : d.next.2.Switched on := by
  rw [next_eq h]
  exact h

/-! ## Readings one after another -/

/-- What the next readings show. -/
def words : TrngModel → Nat → List UInt32
  | _, 0 => []
  | d, k + 1 => d.next.1 :: d.next.2.words k

/-- What the next readings leave. -/
def after : TrngModel → Nat → TrngModel
  | d, 0 => d
  | d, k + 1 => d.next.2.after k

theorem length_words (d : TrngModel) (k : Nat) : (d.words k).length = k := by
  induction k generalizing d with
  | zero => rfl
  | succ k ih => rw [words, List.length_cons, ih]

theorem take_words (d : TrngModel) {i k : Nat} (h : i ≤ k) : (d.words k).take i = d.words i := by
  induction k generalizing d i with
  | zero =>
      obtain rfl := Nat.le_zero.mp h
      rfl
  | succ k ih =>
      cases i with
      | zero => rfl
      | succ i => rw [words, List.take_succ_cons, ih _ (Nat.le_of_succ_le_succ h), words]

/-- Readings change how many readings there were, and how many without data are left. -/
theorem after_eq (h : d.Switched on) (k : Nat) : d.after k =
    { d with
      reads := d.reads + UInt32.ofNat k
      invalidPolls := if on then d.invalidPolls - k else d.invalidPolls } := by
  induction k generalizing d with
  | zero => cases on <;> simp [after]
  | succ k ih =>
      rw [after, ih (switched_next h), next_eq h]
      cases on <;> simp [UInt32.ofNat_add, UInt32.add_assoc, UInt32.add_comm, Nat.sub_sub, Nat.add_comm]

/-- The readings without data come first, and all that follow find the byte. -/
theorem harvest_words (h : d.Switched on) (k : Nat) : Trng.harvest (d.words k) =
    if on then List.replicate (k - d.invalidPolls) d.data else [] := by
  induction k generalizing d with
  | zero => cases on <;> simp [words, Trng.harvest]
  | succ k ih =>
      have hlater := ih (switched_next h)
      rw [next_eq h] at hlater
      have hvalid := valid_next h
      rw [words]
      by_cases hready : d.Ready on
      · have hbyte := toUInt8_next h
        rw [decide_eq_true hready] at hvalid
        rw [if_pos hready] at hbyte
        obtain ⟨rfl, hpolls⟩ := hready
        rw [Trng.harvest_valid hvalid, hbyte, next_eq h, hlater]
        simp [hpolls, List.replicate_succ]
      · rw [decide_eq_false hready] at hvalid
        rw [Trng.harvest_invalid hvalid, next_eq h, hlater]
        cases on with
        | false => rfl
        | true =>
            have hpolls : d.invalidPolls ≠ 0 := fun hzero => hready ⟨rfl, hzero⟩
            have hcount : k - (d.invalidPolls - 1) = k + 1 - d.invalidPolls := by omega
            simp [hcount]

/-- While bytes are wanted, none of these words is read in vain. -/
theorem needed_words (h : d.Switched true) {n k : Nat} (hn : 0 < n) (hk : k ≤ d.invalidPolls + n) :
    Trng.Needed n (d.words k) := by
  intro i hi
  rw [length_words] at hi
  rw [take_words d (Nat.le_of_lt hi), harvest_words h, if_pos rfl, List.length_replicate]
  omega

theorem mem_words_off (h : d.Switched false) {k : Nat} :
    ∀ w ∈ d.words k, Trng.valid w = false ∧ w.toUInt8 = 0 := by
  induction k generalizing d with
  | zero => exact List.forall_mem_nil _
  | succ k ih =>
      have hoff : ¬ d.Ready false := fun hready => Bool.false_ne_true hready.1
      refine List.forall_mem_cons.mpr ⟨⟨?_, ?_⟩, ih (switched_next h)⟩
      · rw [valid_next h, decide_eq_false hoff]
      · rw [toUInt8_next h, if_neg hoff]

/-! ## Readings on a machine -/

theorem reads_next (d : TrngModel) : d.next.2.reads = d.reads + 1 := by
  unfold next sample
  split
  · rfl
  · split
    · rfl
    · rfl

theorem canRead_succ (d : TrngModel) (k : Nat) :
    d.CanRead (k + 1) ↔ d.CanRead 1 ∧ d.next.2.CanRead k := by
  have hlt := d.reads.toNat_lt
  have hone : (1 : UInt32).toNat = 1 := rfl
  rw [CanRead, CanRead, CanRead, reads_next, UInt32.toNat_add, hone]
  omega

variable {b : Block} {m m' : Machine TrngModel}

theorem platform_read_iff {word : UInt32} :
    Machine.platform bus (.load b Trng.controlOffset) m = .returned word m' ↔
      m.device.CanRead 1 ∧ word = m.device.next.1 ∧ m' = { m with device := m.device.next.2 } := by
  by_cases hroom : m.device.CanRead 1
  · rw [Machine.platform_load (load_control hroom)]
    constructor
    · intro h
      cases h
      exact ⟨hroom, rfl, rfl⟩
    · rintro ⟨-, rfl, rfl⟩
      rfl
  · rw [Machine.platform_load_error (load_control_error hroom)]
    constructor
    · intro h
      cases h
    · intro h
      exact absurd h.1 hroom

/-- The block answers readings with its next words, as often as it can be read. -/
theorem answered_readings_iff {ws : List UInt32} :
    Answered (Machine.platform bus) (Trng.readings b ws) m m' ↔ m.device.CanRead ws.length ∧
      ws = m.device.words ws.length ∧ m' = { m with device := m.device.after ws.length } := by
  induction ws generalizing m with
  | nil =>
      constructor
      · intro h
        cases h
        exact ⟨UInt32.toNat_lt _, rfl, rfl⟩
      · rintro ⟨-, -, rfl⟩
        exact .nil _
  | cons w ws ih =>
      rw [Trng.readings, List.map_cons, Answered.first_iff, List.length_cons, canRead_succ, words,
        after, List.cons.injEq]
      constructor
      · rintro ⟨mid, hfirst, hrest⟩
        obtain ⟨hroom, rfl, rfl⟩ := platform_read_iff.mp (Answered.singleton_iff.mp hfirst)
        obtain ⟨hmore, hws, rfl⟩ := ih.mp hrest
        exact ⟨⟨hroom, hmore⟩, ⟨rfl, hws⟩, rfl⟩
      · rintro ⟨⟨hroom, hmore⟩, ⟨rfl, hws⟩, rfl⟩
        exact ⟨_, Answered.singleton_iff.mpr (platform_read_iff.mpr ⟨hroom, rfl, rfl⟩),
          ih.mpr ⟨hmore, hws, rfl⟩⟩

theorem answered_words {k : Nat} (h : m.device.CanRead k) :
    Answered (Machine.platform bus) (Trng.readings b (m.device.words k)) m
      { m with device := m.device.after k } := by
  refine answered_readings_iff.mpr ?_
  rw [length_words]
  exact ⟨h, rfl, rfl⟩

end TrngModel

/-! ## Calls -/

namespace Trng

variable {t : Trng} {m m' : Machine TrngModel} {on : Bool} {n : Nat}

/-! ### Switching -/

/-- Off, time to settle, on with nothing else, and time to settle again. -/
def powerCycle (b : Block) : List Exchange :=
  [⟨.store b controlOffset 0, ()⟩, ⟨.delay settleCycles, ()⟩,
    ⟨.store b controlOffset 0x40000000, ()⟩, ⟨.delay settleCycles, ()⟩]

/-- The block after a word was written. -/
def wrote (d : TrngModel) (value : UInt32) : TrngModel :=
  { d with writes := d.writes.push value, control := value &&& enableField.mask }

theorem completes_writeControl (t : Trng) (value : UInt32) (m : Machine TrngModel) :
    Completes (Machine.platform TrngModel.bus) (t.writeControl value) m
      [⟨.store t.block controlOffset value, ()⟩] () { m with device := wrote m.device value } :=
  completes_request rfl

theorem completes_enable (t : Trng) (m : Machine TrngModel) :
    Completes (Machine.platform TrngModel.bus) t.enable m (powerCycle t.block) ()
      { m with device := wrote (wrote m.device 0) enableField.mask } := by
  have hdelay : ∀ m : Machine TrngModel, Completes (Machine.platform TrngModel.bus)
      (delay settleCycles) m [⟨.delay settleCycles, ()⟩] () m := fun m => completes_request rfl
  exact (t.completes_writeControl 0 m).bind ((hdelay _).bind
    ((t.completes_writeControl enableField.mask _).bind (hdelay _)))

theorem switched_wrote_zero (d : TrngModel) : (wrote d 0).Switched false := UInt32.zero_and

theorem switched_wrote_mask (d : TrngModel) : (wrote d enableField.mask).Switched true :=
  UInt32.and_self

/-! ### Queries -/

theorem returns_readControl_iff {word : UInt32} :
    Returns (Machine.platform TrngModel.bus) t.readControl m word m' ↔
      m.device.CanRead 1 ∧ word = m.device.next.1 ∧ m' = { m with device := m.device.next.2 } :=
  returns_request_iff.trans TrngModel.platform_read_iff

/-- A query of one field of the word is a reading. -/
theorem returns_flag_iff (f : Field) {v : Bool} :
    Returns (Machine.platform TrngModel.bus) (t.readControl.bind fun word => .done (f.isSet word))
        m v m' ↔
      m.device.CanRead 1 ∧ v = f.isSet m.device.next.1 ∧
        m' = { m with device := m.device.next.2 } := by
  simp only [returns_map, returns_readControl_iff]
  constructor
  · rintro ⟨_, rfl, hroom, rfl, rfl⟩
    exact ⟨hroom, rfl, rfl⟩
  · rintro ⟨hroom, rfl, rfl⟩
    exact ⟨_, rfl, hroom, rfl, rfl⟩

theorem returns_isEnabled_iff (h : m.device.Switched on) {v : Bool} :
    Returns (Machine.platform TrngModel.bus) t.isEnabled m v m' ↔
      m.device.CanRead 1 ∧ v = on ∧ m' = { m with device := m.device.next.2 } := by
  rw [← TrngModel.isSet_enable_next h]
  exact returns_flag_iff enableField

theorem returns_isSimulated_iff (h : m.device.Switched on) {v : Bool} :
    Returns (Machine.platform TrngModel.bus) t.isSimulated m v m' ↔
      m.device.CanRead 1 ∧ v = m.device.simulated ∧
        m' = { m with device := m.device.next.2 } := by
  rw [← TrngModel.isSet_simulated_next h]
  exact returns_flag_iff simulatedField

/-! ### Bytes of a source that is on -/

theorem completes_getBytes_on (h : m.device.Switched true) (hn : 0 < n)
    (hroom : m.device.CanRead (m.device.invalidPolls + n)) :
    Completes (Machine.platform TrngModel.bus) (t.getBytes n) m
      (readings t.block (m.device.words (m.device.invalidPolls + n)))
      (List.replicate n m.device.data)
      { m with device := m.device.after (m.device.invalidPolls + n) } := by
  have hharvest : harvest (m.device.words (m.device.invalidPolls + n))
      = List.replicate n m.device.data := by
    rw [TrngModel.harvest_words h, if_pos rfl, Nat.add_sub_cancel_left]
  have hlen : (harvest (m.device.words (m.device.invalidPolls + n))).length = n := by
    rw [hharvest, List.length_replicate]
  have hall := t.completes_getBytes (TrngModel.needed_words h hn (Nat.le_refl _)) hlen
    (TrngModel.answered_words hroom)
  rwa [hharvest] at hall

theorem completes_getByte_on (h : m.device.Switched true)
    (hroom : m.device.CanRead (m.device.invalidPolls + 1)) :
    Completes (Machine.platform TrngModel.bus) t.getByte m
      (readings t.block (m.device.words (m.device.invalidPolls + 1))) m.device.data
      { m with device := m.device.after (m.device.invalidPolls + 1) } := by
  refine t.completes_getByte (TrngModel.needed_words h Nat.one_pos (Nat.le_refl _)) ?_
    (TrngModel.answered_words hroom)
  rw [TrngModel.harvest_words h, if_pos rfl, Nat.add_sub_cancel_left]
  rfl

/-- Bytes come only from a source that is on, and that can be read often enough. -/
theorem of_returns_getBytes (h : m.device.Switched on) (hn : 0 < n) {bytes : List UInt8}
    (hret : Returns (Machine.platform TrngModel.bus) (t.getBytes n) m bytes m') :
    on = true ∧ m.device.CanRead (m.device.invalidPolls + n) ∧
      bytes = List.replicate n m.device.data ∧
      m' = { m with device := m.device.after (m.device.invalidPolls + n) } := by
  obtain ⟨_, hanswered, words, rfl, -, rfl, hlen⟩ := (t.behaves_getBytes n).of_returns hret
  obtain ⟨hroom, hwords, rfl⟩ := TrngModel.answered_readings_iff.mp hanswered
  have hharvest := TrngModel.harvest_words h words.length
  rw [← hwords] at hharvest
  rw [hharvest] at hlen ⊢
  cases on with
  | false =>
      obtain rfl : 0 = n := hlen
      cases hn
  | true =>
      rw [if_pos rfl, List.length_replicate] at hlen
      have hcount : words.length = m.device.invalidPolls + n := by omega
      rw [if_pos rfl, hlen, ← hcount]
      exact ⟨rfl, hroom, rfl, rfl⟩

theorem of_returns_getByte (h : m.device.Switched on) {byte : UInt8}
    (hret : Returns (Machine.platform TrngModel.bus) t.getByte m byte m') :
    on = true ∧ m.device.CanRead (m.device.invalidPolls + 1) ∧ byte = m.device.data ∧
      m' = { m with device := m.device.after (m.device.invalidPolls + 1) } := by
  have hone : Returns (Machine.platform TrngModel.bus) (t.getBytes 1) m [byte] m' :=
    hret.bind (returns_done.mpr ⟨rfl, rfl⟩)
  obtain ⟨hon, hroom, hbyte, hm⟩ := of_returns_getBytes h Nat.one_pos hone
  exact ⟨hon, hroom, List.head_eq_of_cons_eq hbyte, hm⟩

/-! ### A source that is off -/

/-- The program makes readings and nothing else. -/
def OnlyReads {α : Type} (t : Trng) (x : Program α) : Prop :=
  Behaves x (fun trace => ∃ words, trace = readings t.block words)
    fun _ trace => ∃ words, trace = readings t.block words

theorem onlyReads_getByte (t : Trng) : t.OnlyReads t.getByte := by
  refine t.behaves_getByte.mono ?_ ?_
  · rintro _ ⟨words, htrace, -⟩
    exact ⟨words, htrace⟩
  · rintro _ _ ⟨words, word, htrace, -⟩
    exact ⟨words ++ [word], htrace⟩

theorem onlyReads_getBytes (t : Trng) (n : Nat) : t.OnlyReads (t.getBytes n) := by
  refine (t.behaves_getBytes n).mono ?_ ?_
  · rintro _ ⟨words, htrace, -⟩
    exact ⟨words, htrace⟩
  · rintro _ _ ⟨words, htrace, -⟩
    exact ⟨words, htrace⟩

/-- The call never returns. At every point of it only words have been read, and none of them
is marked as valid or shows a byte. -/
def Withholds {α : Type} (t : Trng) (x : Program α) (m : Machine TrngModel) : Prop :=
  ∀ i, (∀ v, (advance (Machine.platform TrngModel.bus) i x m).1 ≠ .done v) ∧
    ∃ words, (∀ w ∈ words, valid w = false ∧ w.toUInt8 = 0) ∧
      Answered (Machine.platform TrngModel.bus) (readings t.block words) m
        (advance (Machine.platform TrngModel.bus) i x m).2

theorem OnlyReads.withholds {α : Type} {x : Program α} (hx : t.OnlyReads x)
    (h : m.device.Switched false)
    (hnever : ∀ v m', ¬ Returns (Machine.platform TrngModel.bus) x m v m') : t.Withholds x m := by
  intro i
  refine ⟨fun v hdone => hnever v _ (returns_of_advance (Prod.ext hdone rfl)), ?_⟩
  obtain ⟨trace, hanswered, hpoint⟩ := hx.of_advance (Machine.platform TrngModel.bus) i m
  obtain ⟨words, rfl⟩ : ∃ words, trace = readings t.block words := by
    rcases hpoint with ⟨_, -, hwords⟩ | ⟨-, hwords⟩
    · exact hwords
    · exact hwords
  obtain ⟨-, hwords, -⟩ := TrngModel.answered_readings_iff.mp hanswered
  refine ⟨words, ?_, hanswered⟩
  rw [hwords]
  exact TrngModel.mem_words_off h

theorem withholds_getByte (h : m.device.Switched false) : t.Withholds t.getByte m :=
  t.onlyReads_getByte.withholds h fun _ _ hret => Bool.false_ne_true (of_returns_getByte h hret).1

theorem withholds_getBytes (h : m.device.Switched false) (hn : 0 < n) :
    t.Withholds (t.getBytes n) m :=
  (t.onlyReads_getBytes n).withholds h fun _ _ hret =>
    Bool.false_ne_true (of_returns_getBytes h hn hret).1

end Trng

end BoardSupport

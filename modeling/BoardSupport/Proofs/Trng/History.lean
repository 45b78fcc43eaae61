import BoardSupport.Proofs.Trng.Model

/-!
# The generator over whole runs

A history lists what has happened to the simulated generator, the latest first: bytes it was
made to produce and calls that have returned. Four things can be read off it: whether the
source was switched on last (`switchedOn`), the byte produced last (`lastByte`), how many
readings without data are still to come (`pollsLeft`), which status queries use up too, and
how many readings there were (`readsMade`), which the block counts in 32 bits. The block holds
just these (`Holds`); every event keeps it so (`Holds.produce`, `Holds.call`), and
`generator_follows_history` says what each call does after any history.
-/

namespace BoardSupport.Trng

open Program

variable {t : Trng} {m m' : Machine TrngModel}

/-! ## Histories -/

/-- Something that changes the generator. -/
inductive Event
  /-- It will give a byte once so many readings have found none. -/
  | produce (polls : Nat) (byte : UInt8)
  /-- A call has returned. -/
  | call (command : Command)
  deriving DecidableEq, Repr

/-- What has happened, the latest first, and where the machine is now. -/
inductive Reached (t : Trng) (start : Machine TrngModel) : List Event → Machine TrngModel → Prop
  | begin : Reached t start [] start
  | produce {events : List Event} {m : Machine TrngModel} (polls : Nat) (byte : UInt8)
      (h : Reached t start events m) :
      Reached t start (.produce polls byte :: events)
        { m with device := m.device.produceAfter polls byte }
  | call {events : List Event} {m m' : Machine TrngModel} {command : Command} {answer : Answer}
      (hret : Returns (Machine.platform TrngModel.bus) (t.perform command) m answer m')
      (h : Reached t start events m) : Reached t start (.call command :: events) m'

namespace Event

/-- Whether the event leaves the source on, if it switches it. -/
def switch? : Event → Option Bool
  | .call .enable => some true
  | .call .disable => some false
  | _ => none

def byte? : Event → Option UInt8
  | .produce _ byte => some byte
  | _ => none

end Event

/-- The last of enabling and disabling was enabling. -/
def switchedOn (events : List Event) : Bool := (events.findSome? Event.switch?).getD false

/-- The byte produced last. -/
def lastByte (events : List Event) : UInt8 := (events.findSome? Event.byte?).getD 0

/-- The readings that will still find no data. While the source is on a query uses up one of
them, and a call that returned a byte has used up all. -/
def pollsLeft : List Event → Nat
  | [] => 0
  | .produce polls _ :: _ => polls
  | .call command :: before =>
    match command with
    | .enable | .disable => pollsLeft before
    | .isEnabled | .isSimulated =>
      if switchedOn before then pollsLeft before - 1 else pollsLeft before
    | .getByte => 0
    | .getBytes count => if count = 0 then pollsLeft before else 0

/-- The readings so far. A call for bytes makes those without data that are left, and one for
each byte. -/
def readsMade : List Event → Nat
  | [] => 0
  | .produce _ _ :: before => readsMade before
  | .call command :: before =>
    match command with
    | .enable | .disable => readsMade before
    | .isEnabled | .isSimulated => readsMade before + 1
    | .getByte => readsMade before + (pollsLeft before + 1)
    | .getBytes count =>
      if count = 0 then readsMade before else readsMade before + (pollsLeft before + count)

/-! ## What the block holds -/

/-- The block holds what the history says. -/
structure Holds (simulated : Bool) (events : List Event) (d : TrngModel) : Prop where
  simulated : d.simulated = simulated
  switched : d.Switched (switchedOn events)
  polls : d.invalidPolls = pollsLeft events
  byte : d.data = lastByte events
  reads : d.reads.toNat = readsMade events

namespace Holds

variable {simulated : Bool} {events : List Event} {d : TrngModel}

theorem start (simulated : Bool) : Holds simulated [] { simulated } := ⟨rfl, rfl, rfl, rfl, rfl⟩

theorem canRead_iff (h : Holds simulated events d) (n : Nat) :
    d.CanRead n ↔ readsMade events + n < 2 ^ 32 := by
  rw [← h.reads]
  rfl

theorem produce (h : Holds simulated events d) (polls : Nat) (byte : UInt8) :
    Holds simulated (.produce polls byte :: events) (d.produceAfter polls byte) :=
  ⟨h.simulated, h.switched, rfl, rfl, h.reads⟩

/-- Readings leave the switch and the byte as they are. -/
theorem after (h : Holds simulated events d) {e : Event} {k : Nat} (hroom : d.CanRead k)
    (hon : switchedOn (e :: events) = switchedOn events)
    (hbyte : lastByte (e :: events) = lastByte events)
    (hpolls : pollsLeft (e :: events) =
      if switchedOn events then pollsLeft events - k else pollsLeft events)
    (hreads : readsMade (e :: events) = readsMade events + k) :
    Holds simulated (e :: events) (d.after k) := by
  rw [TrngModel.after_eq h.switched]
  refine ⟨h.simulated, ?_, ?_, ?_, ?_⟩
  · rw [hon]
    exact h.switched
  · rw [hpolls, ← h.polls]
  · rw [hbyte]
    exact h.byte
  · unfold TrngModel.CanRead at hroom
    rw [hreads, ← h.reads, UInt32.toNat_add, UInt32.toNat_ofNat']
    omega

/-- A call that has returned leaves what the history says with the call in it. -/
theorem call (h : Holds simulated events m.device) {command : Command} {answer : Answer}
    (hret : Returns (Machine.platform TrngModel.bus) (t.perform command) m answer m') :
    Holds simulated (.call command :: events) m'.device := by
  cases command with
  | enable =>
      obtain ⟨-, rfl⟩ := hret.unique ((t.completes_enable m).returns.map fun _ => Answer.done)
      exact ⟨h.simulated, switched_wrote_mask _, h.polls, h.byte, h.reads⟩
  | disable =>
      have hdisable := (t.completes_writeControl 0 m).returns.map fun _ => Answer.done
      obtain ⟨-, rfl⟩ := hret.unique hdisable
      exact ⟨h.simulated, switched_wrote_zero _, h.polls, h.byte, h.reads⟩
  | isEnabled =>
      obtain ⟨v, -, hv⟩ := returns_map.mp hret
      obtain ⟨hroom, -, rfl⟩ := (returns_isEnabled_iff h.switched).mp hv
      have hnext : Holds simulated (.call .isEnabled :: events) (m.device.after 1) :=
        h.after hroom rfl rfl rfl rfl
      exact hnext
  | isSimulated =>
      obtain ⟨v, -, hv⟩ := returns_map.mp hret
      obtain ⟨hroom, -, rfl⟩ := (returns_isSimulated_iff h.switched).mp hv
      have hnext : Holds simulated (.call .isSimulated :: events) (m.device.after 1) :=
        h.after hroom rfl rfl rfl rfl
      exact hnext
  | getByte =>
      obtain ⟨v, -, hv⟩ := returns_map.mp hret
      obtain ⟨hon, hroom, -, rfl⟩ := of_returns_getByte h.switched hv
      rw [h.polls] at hroom ⊢
      refine h.after hroom rfl rfl ?_ rfl
      rw [if_pos hon]
      exact (Nat.sub_eq_zero_of_le (Nat.le_succ _)).symm
  | getBytes count =>
      obtain ⟨v, -, hv⟩ := returns_map.mp hret
      cases count with
      | zero =>
          obtain ⟨-, rfl⟩ := returns_done.mp hv
          exact ⟨h.simulated, h.switched, h.polls, h.byte, h.reads⟩
      | succ count =>
          obtain ⟨hon, hroom, -, rfl⟩ := of_returns_getBytes h.switched (Nat.succ_pos count) hv
          rw [h.polls] at hroom ⊢
          refine h.after hroom rfl rfl ?_ rfl
          rw [if_pos hon]
          exact (Nat.sub_eq_zero_of_le (Nat.le_add_right _ _)).symm

end Holds

theorem Reached.holds {start : Machine TrngModel} {simulated : Bool} {events : List Event}
    (hstart : start.device = { simulated }) (h : Reached t start events m) :
    Holds simulated events m.device := by
  induction h with
  | begin =>
      rw [hstart]
      exact Holds.start simulated
  | produce polls byte _ ih => exact ih.produce polls byte
  | call hret _ ih => exact ih.call hret

/-! ## What each call does -/

/-- The calls do what the history says. Those that read return as long as the block can count
its readings. -/
structure FollowsHistory (t : Trng) (simulated : Bool) (events : List Event)
    (m : Machine TrngModel) : Prop where
  isEnabled : ∀ v, (∃ m', Returns (Machine.platform TrngModel.bus) t.isEnabled m v m') ↔
    readsMade events + 1 < 2 ^ 32 ∧ v = switchedOn events
  isSimulated : ∀ v, (∃ m', Returns (Machine.platform TrngModel.bus) t.isSimulated m v m') ↔
    readsMade events + 1 < 2 ^ 32 ∧ v = simulated
  enable : ∃ m', Completes (Machine.platform TrngModel.bus) t.enable m (powerCycle t.block) () m'
  getByte : switchedOn events = true → ∀ v,
    (∃ m', Returns (Machine.platform TrngModel.bus) t.getByte m v m') ↔
      readsMade events + (pollsLeft events + 1) < 2 ^ 32 ∧ v = lastByte events
  /-- A byte takes the readings without data that are left and one with data. -/
  getByte_reads : switchedOn events = true → ∀ trace v m',
    Completes (Machine.platform TrngModel.bus) t.getByte m trace v m' →
      ∃ words, words.length = pollsLeft events + 1 ∧ trace = readings t.block words
  getBytes : switchedOn events = true → ∀ n, 0 < n → ∀ bytes,
    (∃ m', Returns (Machine.platform TrngModel.bus) (t.getBytes n) m bytes m') ↔
      readsMade events + (pollsLeft events + n) < 2 ^ 32 ∧
        bytes = List.replicate n (lastByte events)
  withheld : switchedOn events = false →
    t.Withholds t.getByte m ∧ ∀ n, 0 < n → t.Withholds (t.getBytes n) m

theorem Holds.followsHistory {simulated : Bool} {events : List Event}
    (h : Holds simulated events m.device) : FollowsHistory t simulated events m := by
  have hswitched : ∀ {on}, switchedOn events = on → m.device.Switched on := by
    rintro _ rfl
    exact h.switched
  constructor
  · intro v
    simp only [returns_isEnabled_iff h.switched, h.canRead_iff, exists_and_left, exists_eq,
      and_true]
  · intro v
    simp only [returns_isSimulated_iff h.switched, h.canRead_iff, h.simulated, exists_and_left,
      exists_eq, and_true]
  · exact ⟨_, t.completes_enable m⟩
  · intro hon v
    rw [← h.canRead_iff, ← h.polls, ← h.byte]
    constructor
    · rintro ⟨m', hret⟩
      obtain ⟨-, hroom, hv, -⟩ := of_returns_getByte h.switched hret
      exact ⟨hroom, hv⟩
    · rintro ⟨hroom, rfl⟩
      exact ⟨_, (completes_getByte_on (hswitched hon) hroom).returns⟩
  · intro hon trace v m' hrun
    obtain ⟨-, hroom, rfl, rfl⟩ := of_returns_getByte h.switched hrun.returns
    obtain ⟨rfl, -⟩ := hrun.unique (completes_getByte_on (hswitched hon) hroom)
    refine ⟨_, ?_, rfl⟩
    rw [TrngModel.length_words, h.polls]
  · intro hon n hn bytes
    rw [← h.canRead_iff, ← h.polls, ← h.byte]
    constructor
    · rintro ⟨m', hret⟩
      obtain ⟨-, hroom, hbytes, -⟩ := of_returns_getBytes h.switched hn hret
      exact ⟨hroom, hbytes⟩
    · rintro ⟨hroom, rfl⟩
      exact ⟨_, (completes_getBytes_on (hswitched hon) hn hroom).returns⟩
  · intro hoff
    exact ⟨withholds_getByte (hswitched hoff), fun n hn => withholds_getBytes (hswitched hoff) hn⟩

/-- **The generator follows its history.** After any bytes it was made to produce and any calls
that have returned: a query returns as long as the block can count one more reading, and it shows
the source enabled if the last of enabling and disabling was enabling, and simulated if it is a
simulation; enabling writes zero, waits, writes the enable bit alone and waits again; while the
source is on, bytes are returned as long as the block can count the readings they take, one for
each that still finds no data and one for each byte, and every byte is the one produced last;
while it is off no call that needs a byte returns or reads any data. -/
theorem generator_follows_history (t : Trng) (start : Machine TrngModel) (simulated : Bool)
    (hstart : start.device = { simulated }) {events : List Event} (h : Reached t start events m) :
    FollowsHistory t simulated events m :=
  (h.holds hstart).followsHistory

/-- Of two readings without data a query uses up one, so a byte takes two readings. Once the
source is off again there is none. -/
theorem generator_follows_history_waiting :
    let t : Trng := ⟨⟨0xC0000800⟩⟩
    let p := Machine.platform TrngModel.bus
    let start : Machine TrngModel := { device := { simulated := true } }
    let events : List Event :=
      [.call .isEnabled, .call .enable, .produce 2 0xC3, .call .isSimulated]
    let m : Machine TrngModel := { device :=
      { simulated := true, control := 0x40000000, invalidPolls := 1, data := 0xC3, reads := 2,
        writes := #[0, 0x40000000] } }
    start.device = { simulated := true } ∧ Reached t start events m ∧
    (∃ m', Returns p t.isEnabled m true m') ∧ (∃ m', Returns p t.getByte m 0xC3 m') ∧
    (∀ trace v m', Completes p t.getByte m trace v m' →
      ∃ words, words.length = 2 ∧ trace = readings t.block words) ∧
    ∃ m₂, Reached t start (.call .disable :: events) m₂ ∧ t.Withholds t.getByte m₂ := by
  have hsimulated : Returns (Machine.platform TrngModel.bus)
      (perform ⟨⟨0xC0000800⟩⟩ .isSimulated) { device := { simulated := true } } (.flag true)
      { device := { simulated := true, reads := 1 } } := ⟨1, rfl⟩
  have henable : Returns (Machine.platform TrngModel.bus)
      (perform ⟨⟨0xC0000800⟩⟩ .enable)
      { device := { simulated := true, invalidPolls := 2, data := 0xC3, reads := 1 } } .done
      { device :=
        { simulated := true, control := 0x40000000, invalidPolls := 2, data := 0xC3, reads := 1,
          writes := #[0, 0x40000000] } } := ⟨1, rfl⟩
  have henabled : Returns (Machine.platform TrngModel.bus)
      (perform ⟨⟨0xC0000800⟩⟩ .isEnabled)
      { device :=
        { simulated := true, control := 0x40000000, invalidPolls := 2, data := 0xC3, reads := 1,
          writes := #[0, 0x40000000] } } (.flag true)
      { device :=
        { simulated := true, control := 0x40000000, invalidPolls := 1, data := 0xC3, reads := 2,
          writes := #[0, 0x40000000] } } := ⟨1, rfl⟩
  intro t p start events m
  have hreached : Reached t start events m :=
    .call henabled (.call henable (.produce 2 0xC3 (.call hsimulated .begin)))
  have hfollows := t.generator_follows_history start true rfl hreached
  have hoff : Reached t start (.call .disable :: events) _ :=
    .call ((t.completes_writeControl 0 m).returns.map fun _ => Answer.done) hreached
  have hwithheld := t.generator_follows_history start true rfl hoff
  refine ⟨rfl, hreached, ?_, ?_, hfollows.getByte_reads rfl, _, hoff, (hwithheld.withheld rfl).1⟩
  · exact (hfollows.isEnabled true).mpr ⟨by decide, rfl⟩
  · exact (hfollows.getByte rfl 0xC3).mpr ⟨by decide, rfl⟩

/-- A byte behind as many readings without data as a word can name: the source is on, and the
block would have to count one reading more than it can, so the byte is never returned. -/
theorem getByte_exhausts_count :
    let t : Trng := ⟨⟨0xC0000800⟩⟩
    let start : Machine TrngModel := { device := { simulated := false } }
    let events : List Event := [.produce 0xFFFFFFFF 0xC3, .call .enable]
    let m : Machine TrngModel := { device :=
      { simulated := false, control := 0x40000000, invalidPolls := 0xFFFFFFFF, data := 0xC3,
        writes := #[0, 0x40000000] } }
    Reached t start events m ∧ switchedOn events = true ∧ lastByte events = 0xC3 ∧
      pollsLeft events = 0xFFFFFFFF ∧
      ∀ v m', ¬ Returns (Machine.platform TrngModel.bus) t.getByte m v m' := by
  have henable : Returns (Machine.platform TrngModel.bus) (perform ⟨⟨0xC0000800⟩⟩ .enable)
      { device := { simulated := false } } .done
      { device := { simulated := false, control := 0x40000000, writes := #[0, 0x40000000] } } :=
    ⟨1, rfl⟩
  intro t start events m
  have hreached : Reached t start events m :=
    .produce 0xFFFFFFFF 0xC3 (.call henable .begin)
  have hfollows : FollowsHistory t false events m := (hreached.holds rfl).followsHistory
  refine ⟨hreached, rfl, rfl, rfl, fun v m' hret => ?_⟩
  have hfits := ((hfollows.getByte rfl v).mp ⟨m', hret⟩).1
  exact absurd hfits (by decide)

end BoardSupport.Trng

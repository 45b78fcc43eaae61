import BoardSupport.Device.Uart
import BoardSupport.Firmware.Console
import BoardSupport.Proofs.Csr.Sections
import BoardSupport.Proofs.Firmware.Console

/-!
# A line from the console is a line from its driver

The firmware takes a line one poll at a time, each in a critical section of its own,
where the driver polls without any. A section shows what its body shows, so a poll of the
console shows what a poll of the driver shows, and by the rules for loops and sequences
the two lines refine each other, whatever the bus answers and for a buffer of any length
(`lines_alike`).
-/

namespace BoardSupport

open Program

variable {δ α : Type} {bus : Bus δ}

/-! ## Taking a line -/

/-- Where the next byte may come from either of two programs, so may the line. -/
theorem Uart.refines_fillLine {σ : Type} {p : Platform σ} {R V : σ → σ → Prop}
    (hV : ∀ s t, R s t → V s t) {x y : Program UInt8} (h : Refines p p R V x y)
    (buffer : List UInt8) : Refines p p R V (fillLine x buffer) (fillLine y buffer) := by
  induction buffer with
  | nil => exact .done hV _
  | cons b rest ih =>
      refine h.bind fun byte => ?_
      by_cases hend : byte = carriageReturn
      · simp only [if_pos hend]
        exact .done hV _
      · simp only [if_neg hend]
        exact ih.map hV _

namespace Firmware

/-- What a poll in a section has received. -/
def received : Except DriverError (Option UInt8) → Option UInt8
  | .ok byte => byte
  | .error _ => none

theorem readConsoleByte_eq : readConsoleByte = poll ((Interrupts.criticalSection
    console.tryReadByte).bind fun result => .done (received result)) := by
  rw [readConsoleByte, withConsole, bind_eq, bind_eq, bind_assoc]
  refine congrArg poll (congrArg _ (funext fun result => ?_))
  cases result with
  | ok byte => rfl
  | error e => rfl

theorem tryReadByte_eq : console.tryReadByte
    = (console.tryReadByte.bind fun v => .done (.ok v)).bind fun result =>
        .done (received result) := by
  rw [bind_assoc]
  exact (bind_done _).symm

theorem asks_driver_readLine (buffer : List UInt8) :
    Asks (Request.At console.block) (console.readLine buffer) :=
  Uart.asks_fillLine (Asks.poll console.asks_tryReadByte) buffer

theorem asks_poll : Asks (fun r => r.isAccess = true) console.tryReadByte :=
  console.asks_tryReadByte.mono fun _ => Request.At.isAccess

theorem sameAccesses_of_sameMachine (s s' : Recorded (Machine δ)) (h : SameMachine s s') :
    SameAccesses s s' := h.accesses

theorem readLine_refines (bus : Bus δ) (buffer : List UInt8) :
    Refines (Machine.platform bus).recorded (Machine.platform bus).recorded SameMachine
      SameAccesses (readLine buffer) (console.readLine buffer) := by
  have hpoll := (Interrupts.section_refines bus asks_poll).map
    sameAccesses_of_sameMachine received
  rw [← tryReadByte_eq] at hpoll
  refine Uart.refines_fillLine sameAccesses_of_sameMachine ?_ buffer
  rw [readConsoleByte_eq]
  exact hpoll.poll sameAccesses_of_sameMachine

theorem refines_readLine (bus : Bus δ) (buffer : List UInt8) :
    Refines (Machine.platform bus).recorded (Machine.platform bus).recorded SameMachine
      SameAccesses (console.readLine buffer) (readLine buffer) := by
  have hpoll := (Interrupts.refines_section bus asks_poll).map
    sameAccesses_of_sameMachine received
  rw [← tryReadByte_eq] at hpoll
  refine Uart.refines_fillLine sameAccesses_of_sameMachine ?_ buffer
  rw [readConsoleByte_eq]
  exact hpoll.poll sameAccesses_of_sameMachine

/-- A run of the program from `m` comes to a point where it has made these accesses. -/
def Makes (bus : Bus δ) (m : Machine δ) (x : Program α) (accesses : List Exchange) : Prop :=
  ∃ t, Passes (Machine.platform bus).recorded x ⟨m, #[]⟩ t ∧ t.accesses = accesses

/-- The program returns `v` from `m` after these accesses, and leaves `m'`. -/
def Ends (bus : Bus δ) (m : Machine δ) (x : Program α) (accesses : List Exchange) (v : α)
    (m' : Machine δ) : Prop :=
  ∃ t, Returns (Machine.platform bus).recorded x ⟨m, #[]⟩ v t ∧ t.accesses = accesses ∧
    t.inner = m'

/-- The program never comes to an end. -/
def NeverEnds (bus : Bus δ) (m : Machine δ) (x : Program α) : Prop :=
  ∀ n, ¬ (advance (Machine.platform bus).recorded n x ⟨m, #[]⟩).1.Finished

section Refined

variable {x y : Program α} {m : Machine δ}

theorem makes_of_refines (h : Refines (Machine.platform bus).recorded
    (Machine.platform bus).recorded SameMachine SameAccesses x y)
    (hm : m.csrs.refusal .mstatus = none) {accesses : List Exchange}
    (hx : Makes bus m x accesses) : Makes bus m y accesses := by
  obtain ⟨t, ht, rfl⟩ := hx
  obtain ⟨t', ht', hsame⟩ := h.passes (show SameMachine ⟨m, #[]⟩ ⟨m, #[]⟩ from ⟨rfl, rfl, hm⟩) ht
  exact ⟨t', ht', hsame.symm⟩

theorem ends_of_refines (h : Refines (Machine.platform bus).recorded
    (Machine.platform bus).recorded SameMachine SameAccesses x y)
    (hm : m.csrs.refusal .mstatus = none) {accesses : List Exchange} {v : α} {m' : Machine δ}
    (hx : Ends bus m x accesses v m') : Ends bus m y accesses v m' := by
  obtain ⟨t, ht, rfl, rfl⟩ := hx
  obtain ⟨t', ht', hsame⟩ := h.returns (show SameMachine ⟨m, #[]⟩ ⟨m, #[]⟩ from ⟨rfl, rfl, hm⟩) ht
  exact ⟨t', ht', hsame.accesses.symm, hsame.inner.symm⟩

/-- A program that meets no fault of its own returns or never ends. -/
theorem ends_or_neverEnds (bus : Bus δ) (m : Machine δ) {P : Request → Prop} (hx : Asks P x) :
    (∃ accesses v m', Ends bus m x accesses v m') ∨ NeverEnds bus m x := by
  by_cases hends : ∃ accesses v m', Ends bus m x accesses v m'
  · exact Or.inl hends
  · refine Or.inr fun n hn => ?_
    cases hy : (advance (Machine.platform bus).recorded n x ⟨m, #[]⟩).1 with
    | done v =>
        have hret := returns_of_advance (n := n) (Prod.ext hy rfl)
        exact hends ⟨_, v, _, _, hret, rfl, rfl⟩
    | fault c => exact hx.advance_ne_fault n _ c hy
    | ask r k =>
        rw [hy] at hn
        exact hn
    | loop g turn next =>
        rw [hy] at hn
        exact hn

end Refined

/-- **A line from the console is a line from the driver.** Whatever the bus answers, and
for every buffer and every `mstatus`: the two make the same accesses in the same order, so
that each comes to the same points, and where one returns so does the other, with the same
count and buffer and on the same machine. Otherwise both wait forever. -/
theorem lines_alike (bus : Bus δ) (m : Machine δ) (hm : m.csrs.refusal .mstatus = none)
    (buffer : List UInt8) :
    (∀ accesses, Makes bus m (readLine buffer) accesses
      ↔ Makes bus m (console.readLine buffer) accesses) ∧
    (∀ accesses line m', Ends bus m (readLine buffer) accesses line m'
      ↔ Ends bus m (console.readLine buffer) accesses line m') ∧
    ((∃ accesses line m', Ends bus m (readLine buffer) accesses line m' ∧
        Ends bus m (console.readLine buffer) accesses line m') ∨
      NeverEnds bus m (readLine buffer) ∧ NeverEnds bus m (console.readLine buffer)) := by
  have hto := readLine_refines bus buffer
  have hfrom := refines_readLine bus buffer
  refine ⟨fun _ => ⟨makes_of_refines hto hm, makes_of_refines hfrom hm⟩,
    fun _ _ _ => ⟨ends_of_refines hto hm, ends_of_refines hfrom hm⟩, ?_⟩
  rcases ends_or_neverEnds bus m (asks_readLine buffer) with ⟨accesses, line, m', h⟩ | h
  · exact Or.inl ⟨accesses, line, m', h, ends_of_refines hto hm h⟩
  · rcases ends_or_neverEnds bus m (asks_driver_readLine buffer) with
      ⟨accesses, line, m', h'⟩ | h'
    · exact Or.inl ⟨accesses, line, m', ends_of_refines hfrom hm h', h'⟩
    · exact Or.inr ⟨h, h'⟩

/-- A line that ends before the buffer does, taken with interrupts enabled: the driver
returns what the console returns. -/
theorem lines_alike_ok :
    let m : Machine UartModel :=
      Machine.setCsr { device := { rx := [0x6F, 0x6B, 0x0D, 0x21] } } .mstatus 0x8
    m.csrs.refusal .mstatus = none ∧
    ∃ accesses m', Ends UartModel.bus m (readLine [1, 2, 3, 4]) accesses
        (3, [0x6F, 0x6B, 0, 4]) m' ∧
      Ends UartModel.bus m (console.readLine [1, 2, 3, 4]) accesses (3, [0x6F, 0x6B, 0, 4]) m' ∧
      accesses.length = 6 ∧ m'.device.rx = [0x21] ∧ m'.interruptsEnabled = true := by
  have hline : ∃ accesses m', Ends UartModel.bus
      (Machine.setCsr { device := { rx := [0x6F, 0x6B, 0x0D, 0x21] } } .mstatus 0x8)
        (readLine [1, 2, 3, 4]) accesses (3, [0x6F, 0x6B, 0, 4]) m' ∧
      accesses.length = 6 ∧ m'.device.rx = [0x21] ∧ m'.interruptsEnabled = true :=
    ⟨_, _, ⟨_, ⟨1, rfl⟩, rfl, rfl⟩, rfl, rfl, rfl⟩
  intro m
  obtain ⟨accesses, m', hline, hafter⟩ := hline
  obtain ⟨-, hends, -⟩ := lines_alike UartModel.bus m rfl [1, 2, 3, 4]
  exact ⟨rfl, accesses, m', hline, (hends _ _ _).mp hline, hafter⟩

end Firmware

end BoardSupport

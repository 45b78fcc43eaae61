import BoardSupport.Proofs.Uart.Calls

/-!
# The UART's byte stream

A UART begins empty. Bytes arrive from outside, its transmit FIFO is held full for a
while, and its driver makes calls that return, any but the one that empties the receive
FIFO (`History`). Whatever happens in whatever order, no byte is lost or handed out twice
(`stream_conserved`): the bytes that the receive FIFO took are those that the calls have
handed out followed by those still pending, in order; everything asked for was sent, in
order; a byte that would have come back and was refused shows as an overflow; and data is
never read from an empty FIFO.

`Accounted` is what one more happening keeps (`Accounted.snoc`), whatever it is.
-/

namespace BoardSupport.Uart

open Program

variable {m m' : Machine UartModel}

/-! ## Everything that happens to a UART -/

inductive Happening
  /-- Bytes arrive from outside. -/
  | inject (bytes : List UInt8)
  /-- The transmit FIFO is full for the next readings of its status. -/
  | hold (polls : Nat)
  /-- A call has returned; so many received bytes were pending when it began. -/
  | call (command : Command) (answer : Answer) (pending : Nat)

namespace Happening

/-- The bytes that the receive FIFO took: all from outside, and of those sent each one
that came back while the FIFO held fewer than its capacity. -/
def accepted (loopback : Bool) : Happening → List UInt8
  | .inject bytes => bytes
  | .call (.transfer t) _ pending =>
    if loopback then t.outgoing.take (UartModel.capacity - pending) else []
  | _ => []

/-- The bytes that were asked to be sent. -/
def requested : Happening → List UInt8
  | .call (.transfer t) _ _ => t.outgoing
  | _ => []

/-- The bytes that were handed to the caller. -/
def HandsOut : Happening → List UInt8 → Prop
  | .call (.transfer t) answer _, handed => t.Delivers answer handed
  | _, handed => handed = []

/-- The overflow flag, by what it was: a byte that came back and was refused raises it, an
acknowledgement that names it takes it away. -/
def overflowAfter (loopback before : Bool) : Happening → Bool
  | .call (.transfer t) _ pending =>
    before || decide (loopback = true ∧ UartModel.capacity - pending < t.outgoing.length)
  | .call command _ _ => before && !bitAt command.cleared 19
  | _ => before

end Happening

/-- A call that spares the queue moves no bytes. -/
theorem Happening.quiet_of_sparing {command : Command} (h : command.Sparing) (answer : Answer)
    (pending : Nat) (loopback before : Bool) :
    (Happening.call command answer pending).HandsOut [] ∧
      (Happening.call command answer pending).accepted loopback = [] ∧
      (Happening.call command answer pending).requested = [] ∧
      (Happening.call command answer pending).overflowAfter loopback before
        = (before && !bitAt command.cleared 19) := by
  cases command with
  | transfer t => exact h.elim
  | _ => exact ⟨rfl, rfl, rfl, rfl⟩

/-- What has happened to a UART, in order, and where it is now. Every call has returned,
and none empties the receive FIFO. -/
inductive History (u : Uart) (start : Machine UartModel) :
    List Happening → Machine UartModel → Prop
  | begin : History u start [] start
  | inject {happenings : List Happening} {m : Machine UartModel} (bytes : List UInt8)
      (h : History u start happenings m) :
      History u start (happenings ++ [.inject bytes]) { m with device := m.device.receive bytes }
  | hold {happenings : List Happening} {m : Machine UartModel} (polls : Nat)
      (h : History u start happenings m) :
      History u start (happenings ++ [.hold polls]) { m with device := m.device.holdFull polls }
  | call {happenings : List Happening} {m m' : Machine UartModel} {command : Command}
      {answer : Answer}
      (hret : Returns (Machine.platform UartModel.bus) (u.perform command) m answer m')
      (hcommand : command ≠ .clearFifo .rx) (h : History u start happenings m) :
      History u start (happenings ++ [.call command answer m.device.rx.length]) m'

/-- The bytes that were handed out, happening by happening. -/
inductive HandedOut : List Happening → List UInt8 → Prop
  | nil : HandedOut [] []
  | snoc {happenings : List Happening} {handed more : List UInt8} {happening : Happening}
      (h : HandedOut happenings handed) (hmore : happening.HandsOut more) :
      HandedOut (happenings ++ [happening]) (handed ++ more)

/-- The account of the stream after some happenings. -/
structure Accounted (loopback : Bool) (happenings : List Happening) (d : UartModel) : Prop where
  wired : d.loopback = loopback
  conserved : ∃ handed, HandedOut happenings handed ∧
    happenings.flatMap (Happening.accepted loopback) = handed ++ d.rx
  sent : d.sent.toList = happenings.flatMap Happening.requested
  overflowed : d.overflowed = happenings.foldl (Happening.overflowAfter loopback) false
  underflowed : d.underflowed = false

namespace Accounted

variable {loopback : Bool} {happenings : List Happening} {d d' : UartModel}

theorem start : Accounted loopback [] { loopback } where
  wired := rfl
  conserved := ⟨[], .nil, rfl⟩
  sent := rfl
  overflowed := by
    rw [UartModel.overflowed_eq_bitAt]
    exact bitAt_zero 19
  underflowed := by
    rw [UartModel.underflowed_eq_bitAt]
    exact bitAt_zero 20

/-- One more happening, by what it does to the queue and to the flags. -/
theorem snoc (h : Accounted loopback happenings d) {happening : Happening} {more : List UInt8}
    (hmore : happening.HandsOut more) (hwired : d'.loopback = d.loopback)
    (hrx : d.rx ++ happening.accepted loopback = more ++ d'.rx)
    (hsent : d'.sent.toList = d.sent.toList ++ happening.requested)
    (hover : d'.overflowed = happening.overflowAfter loopback d.overflowed)
    (hunder : d'.underflowed = false) : Accounted loopback (happenings ++ [happening]) d' := by
  constructor
  · rw [hwired, h.wired]
  · obtain ⟨handed, hhanded, haccepted⟩ := h.conserved
    refine ⟨handed ++ more, hhanded.snoc hmore, ?_⟩
    rw [List.flatMap_append, haccepted, List.flatMap_singleton, List.append_assoc, hrx,
      List.append_assoc]
  · rw [hsent, h.sent, List.flatMap_append, List.flatMap_singleton]
  · rw [hover, h.overflowed, List.foldl_append]
    rfl
  · exact hunder

theorem inject (h : Accounted loopback happenings d) (bytes : List UInt8) :
    Accounted loopback (happenings ++ [.inject bytes]) (d.receive bytes) := by
  have hnothing : (Happening.inject bytes).HandsOut [] := rfl
  have hflags := UartModel.flags_congr (d := d) (e := d.receive bytes) rfl
  exact h.snoc hnothing rfl rfl (List.append_nil _).symm hflags.1
    (hflags.2.trans h.underflowed)

theorem hold (h : Accounted loopback happenings d) (polls : Nat) :
    Accounted loopback (happenings ++ [.hold polls]) (d.holdFull polls) := by
  have hnothing : (Happening.hold polls).HandsOut [] := rfl
  have hflags := UartModel.flags_congr (d := d) (e := d.holdFull polls) rfl
  exact h.snoc hnothing rfl (List.append_nil _) (List.append_nil _).symm hflags.1
    (hflags.2.trans h.underflowed)

variable {u : Uart} {answer : Answer}

theorem transfer (h : Accounted loopback happenings m.device) {t : Transfer}
    (hret : Returns (Machine.platform UartModel.bus) (u.perform (.transfer t)) m answer m') :
    Accounted loopback (happenings ++ [.call (.transfer t) answer m.device.rx.length])
      m'.device := by
  obtain ⟨taken, hdelivers, hstreams⟩ := u.returns_move hret
  have hwired := h.wired
  subst hwired
  refine h.snoc hdelivers hstreams.loopback hstreams.rx ?_ ?_
    (hstreams.underflowed.trans h.underflowed)
  · rw [hstreams.sent]
    simp [Happening.requested]
  · rw [hstreams.overflowed]
    rfl

theorem sparing (h : Accounted loopback happenings m.device) {command : Command}
    (hcommand : command.Sparing)
    (hret : Returns (Machine.platform UartModel.bus) (u.perform command) m answer m') :
    Accounted loopback (happenings ++ [.call command answer m.device.rx.length]) m'.device := by
  have hkeeps := (u.throughout_sparing hcommand m).finish hret
  obtain ⟨hhands, haccepted, hrequested, hover⟩ := Happening.quiet_of_sparing hcommand answer
    m.device.rx.length loopback m.device.overflowed
  refine h.snoc hhands hkeeps.loopback ?_ ?_ ?_ (hkeeps.underflowed h.underflowed)
  · rw [haccepted, hkeeps.rx, List.append_nil]
    rfl
  · rw [hrequested, hkeeps.sent, List.append_nil]
  · rw [hover, u.overflowed_sparing hcommand hret]

end Accounted

/-- The account is right after any history. -/
theorem History.accounted {u : Uart} {start : Machine UartModel} {loopback : Bool}
    {happenings : List Happening} (hstart : start.device = { loopback })
    (h : History u start happenings m) : Accounted loopback happenings m.device := by
  induction h with
  | begin =>
      rw [hstart]
      exact Accounted.start
  | inject bytes _ ih => exact ih.inject bytes
  | hold polls _ ih => exact ih.hold polls
  | @call _ _ _ command _ hret hcommand _ ih =>
      cases command with
      | transfer t => exact ih.transfer hret
      | clearFifo side =>
          cases side with
          | tx => exact ih.sparing trivial hret
          | rx => exact absurd rfl hcommand
      | init _ | set _ | get _ | query _ | setWatermark _ _ | clearOverflow _ | clearErrors _ =>
          exact ih.sparing trivial hret

/-- **The UART's stream loses and duplicates nothing.** After any history: the bytes that
the receive FIFO took are those that the calls have handed out and then those still
pending; the bytes sent are those asked for; the overflow flag is up when a byte that came
back was refused and no acknowledgement has named the flag since; and data has never been
read from an empty FIFO, nor is it at any point of a further call, whether that returns or
not. -/
theorem stream_conserved (u : Uart) (start : Machine UartModel) (loopback : Bool)
    (hstart : start.device = { loopback }) {happenings : List Happening}
    (h : History u start happenings m) :
    (∃ handed, HandedOut happenings handed ∧
      happenings.flatMap (Happening.accepted loopback) = handed ++ m.device.rx) ∧
    m.device.sent.toList = happenings.flatMap Happening.requested ∧
    m.device.overflowed = happenings.foldl (Happening.overflowAfter loopback) false ∧
    m.device.underflowed = false ∧
    ∀ command, command ≠ .clearFifo .rx → Throughout (Machine.platform UartModel.bus)
      (u.perform command) m fun m' => m'.device.underflowed = false := by
  have haccount := h.accounted hstart
  exact ⟨haccount.conserved, haccount.sent, haccount.overflowed, haccount.underflowed,
    fun _ hcommand => u.throughout_perform_underflowed hcommand haccount.underflowed⟩

/-- A line arrives, a byte is sent while the FIFO is full for two readings, the line is
read up to its end, and the byte that came back is still pending. -/
theorem stream_conserved_line :
    let u : Uart := ⟨MemoryMap.full.uart0⟩
    let start : Machine UartModel := { device := {} }
    let line : List UInt8 := [0x68, 0x69, carriageReturn]
    let happenings : List Happening := [.inject line, .hold 2,
      .call (.transfer (.writeByte 0x21)) .done 3,
      .call (.transfer (.readLine [1, 2, 3, 4])) (.line 3 [0x68, 0x69, 0, 4]) 4]
    let m : Machine UartModel := { device := { rx := [0x21], sent := #[0x21], writes := 1 } }
    start.device = { loopback := true } ∧ History u start happenings m ∧
      (∃ handed, HandedOut happenings handed ∧
        happenings.flatMap (Happening.accepted true) = handed ++ [0x21]) ∧
      m.device.overflowed = false := by
  have hwrite : Returns (Machine.platform UartModel.bus)
      (perform ⟨MemoryMap.full.uart0⟩ (.transfer (.writeByte 0x21)))
      { device := { rx := [0x68, 0x69, carriageReturn], fullPolls := 2 } } .done
      { device := { rx := [0x68, 0x69, carriageReturn, 0x21], sent := #[0x21], writes := 1 } } :=
    ⟨3, rfl⟩
  have hread : Returns (Machine.platform UartModel.bus)
      (perform ⟨MemoryMap.full.uart0⟩ (.transfer (.readLine [1, 2, 3, 4])))
      { device := { rx := [0x68, 0x69, carriageReturn, 0x21], sent := #[0x21], writes := 1 } }
      (.line 3 [0x68, 0x69, 0, 4]) { device := { rx := [0x21], sent := #[0x21], writes := 1 } } :=
    ⟨3, rfl⟩
  intro u start line happenings m
  have harrived : History u start [.inject line] { device := { rx := line } } :=
    .inject line .begin
  have hheld : History u start [.inject line, .hold 2]
      { device := { rx := line, fullPolls := 2 } } := .hold 2 harrived
  have hsent := History.call hwrite nofun hheld
  have hhistory : History u start happenings m := .call hread nofun hsent
  obtain ⟨hconserved, -, hover, -⟩ := stream_conserved u start true rfl hhistory
  exact ⟨rfl, hhistory, hconserved, hover⟩

end BoardSupport.Uart

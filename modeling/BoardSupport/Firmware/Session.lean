import BoardSupport.Device.Bench
import BoardSupport.Firmware.Board
import BoardSupport.Firmware.Image
import BoardSupport.Text.Utf8

/-!
A session: the firmware image on a simulated board, from reset on. Events happen while the hart
sleeps. They cut the session into segments, and each segment shows what was printed and written in
it and how the board stood at its end.
-/
namespace BoardSupport.Firmware

/-- Something that happens while the hart sleeps. -/
inductive BoardEvent
  | wake
  | receive (bytes : List UInt8)
  | setTime (value : UInt64)
  /-- Ticks will pass after the next reading of the counter's lower half. -/
  | tickAfterLow (ticks : UInt64)
  | setLogFilter (filter : LogFilter)
  /-- A trap is taken, with these lines pending. -/
  | trap (ctx : TrapContext) (pending : UInt32)
  deriving DecidableEq, Repr

/-- What was seen of the board up to an event. -/
structure Segment where
  /-- The event that ends the segment; none at the end of the session. -/
  endedBy : Option BoardEvent
  console : String
  /-- The writes of the timer, the pins and the random number generator, in order. -/
  writes : List (BoardBlock × Nat × UInt32)
  pendingRx : Nat
  uartControl : UInt32
  compare : UInt64
  csrs : CsrFile

def consoleBytes (trace : List Exchange) : List UInt8 :=
  trace.filterMap fun
    | ⟨.store b offset value, _⟩ =>
      if BoardBlock.at? b = some .uart ∧ Fifo.Register.ofOffset? offset = some .data then
        some value.toUInt8
      else none
    | _ => none

/-- The writes of other blocks than the console among some exchanges. -/
def blockWrites (trace : List Exchange) : List (BoardBlock × Nat × UInt32) :=
  trace.filterMap fun
    | ⟨.store b offset value, _⟩ =>
      match BoardBlock.at? b with
      | some .uart => none
      | some k => some (k, offset, value)
      | none => none
    | _ => none

structure Session where
  watched : Machine.Watched Board
  events : List BoardEvent
  segments : Array Segment := #[]

namespace Session

def machine (s : Session) : Machine Board := s.watched.inner.inner

/-- The session with its machine changed by what happens around it. -/
def change (s : Session) (f : Machine Board → Machine Board) : Session :=
  { s with watched := { s.watched with inner := { s.watched.inner with inner := f s.machine } } }

/-- The session with its board changed by what happens around it. -/
def changeBoard (s : Session) (f : Board → Board) : Session :=
  s.change fun m => { m with device := f m.device }

/-- Allows `limit` register accesses from here on. -/
def refill (s : Session) (limit : Nat) : Session :=
  { s with watched := { s.watched with left := limit } }

/-- Ends the segment, and starts the next with nothing seen. -/
def cut (s : Session) (endedBy : Option BoardEvent) : Session :=
  let m := s.machine
  let trace := s.watched.inner.trace.toList
  let segment : Segment := {
    endedBy
    console := Text.decode (consoleBytes trace)
    writes := blockWrites trace
    pendingRx := m.device.uart.rx.length
    uartControl := m.device.uart.control
    compare := m.device.timer.compare
    csrs := m.csrs.file }
  { s with
    watched := { s.watched with inner := { s.watched.inner with trace := #[] } }
    segments := s.segments.push segment }

/-- A program of the image, which logs to its console. -/
def logged {α : Type} (program : Program α) : Program α := program.withLogger printRecord

/-- Lets the next events happen until the hart wakes. A trap is handled in between; if its handler
does not return, the session ends. -/
def sleep (limit fuel : Nat) : List BoardEvent → Session → Outcome Session Unit
  | [], s => .stopped .idle s
  | event :: rest, s =>
    let s := { s.cut (some event) with events := rest }
    match event with
    | .wake => .returned () (s.refill limit)
    | .receive bytes => sleep limit fuel rest
        (s.changeBoard fun b => { b with uart := b.uart.receive bytes })
    | .setTime value => sleep limit fuel rest
        (s.changeBoard fun b => { b with timer := { b.timer with time := value } })
    | .tickAfterLow ticks => sleep limit fuel rest
        (s.changeBoard fun b => { b with timer := b.timer.tickAfterLow ticks })
    | .setLogFilter filter => sleep limit fuel rest (s.change fun m => { m with filter })
    | .trap ctx pending =>
      let s := (s.change fun m => m.takeTrap ctx pending).refill limit
      match (logged trapEntry).run (Machine.watchedPlatform Board.bus) fuel s.watched with
      | .returned () watched =>
        sleep limit fuel rest (({ s with watched } : Session).change Machine.returnFromTrap)
      | .stopped c watched => .stopped c { s with watched }

/-- How the board answers the image: a sleep with interrupts enabled lets events happen. -/
def platform (limit fuel : Nat) : Platform Session
  | .waitForInterrupt, s =>
    if s.machine.interruptsEnabled then sleep limit fuel s.events s else .stopped .parked s
  | r, s =>
    (Machine.watchedPlatform Board.bus r s.watched).mapState fun watched => { s with watched }

/-- Runs the image on a board at reset, with at most `limit` register accesses between two of
reset, wakes and traps. The fuel covers every wait: each turn of a wait makes an access, and each
turn of the main loop takes an event. -/
def run (limit : Nat) (board : Board) (cycles : List UInt32) (events : List BoardEvent) :
    Stop × List Segment :=
  let m : Machine Board := { device := board, cycles := cycles.tail ++ [0], filter := .off }
  let m := m.setCsr .cycle (cycles.headD 0)
  let start : Session := { watched := ⟨⟨m, #[]⟩, limit⟩, events }
  let fuel := limit + events.length + 2
  match (logged image).run (platform limit fuel) fuel start with
  | .returned never _ => nomatch never
  | .stopped c s => (c, (s.cut none).segments.toList)

end Session

end BoardSupport.Firmware

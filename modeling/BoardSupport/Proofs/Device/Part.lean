import BoardSupport.Proofs.Device.Access
import BoardSupport.Proofs.Program.Requests
import BoardSupport.Proofs.Program.Stops

/-!
# One block of many

A program that keeps to one block does the same whether that block is alone on its bus
or one of many, also where it does not return (`IsPart.run`). So what is known of a driver
on the model of its block holds on a whole board, with the rest of the board unchanged
(`IsPart.returns`, `IsPart.stops`).
-/

namespace BoardSupport

open Program

/-- The request reaches no other block than `b`, is no log record, and leaves the handler
slot. -/
def Request.Within (b : Block) : Request → Prop
  | .load b' _ => b' = b
  | .store b' _ _ => b' = b
  | .log _ => False
  | .setHandlerSlot _ => False
  | _ => True

/-- The request is an access to a register of `b`. -/
def Request.At (b : Block) : Request → Prop
  | .load b' _ => b' = b
  | .store b' _ _ => b' = b
  | _ => False

theorem Request.At.within {b : Block} {r : Request} (h : r.At b) : r.Within b := by
  cases r with
  | load b' offset => exact h
  | store b' offset value => exact h
  | _ => exact h.elim

theorem Request.At.isAccess {b : Block} {r : Request} (h : r.At b) : r.isAccess = true := by
  cases r with
  | load b' offset => rfl
  | store b' offset value => rfl
  | _ => exact h.elim

/-- A logger does nothing to a driver that does not log. -/
theorem Program.Asks.logger_eq {α : Type} {b : Block} {x : Program α}
    (hx : Asks (Request.Within b) x) (emit : LogRecord → Program Unit) :
    x.withLogger emit = x := hx.withLogger_eq fun _ h => h

theorem Block.asks_read (b : Block) (offset : Nat) : Asks (Request.At b) (b.read offset) :=
  Asks.request (Eq.refl b)

theorem Block.asks_write (b : Block) (offset : Nat) (value : UInt32) :
    Asks (Request.At b) (b.write offset value) := Asks.request (Eq.refl b)

/-- Accesses change nothing but devices. -/
theorem Program.Asks.exists_device {δ α : Type} {bus : Bus δ} {x : Program α}
    (hx : Asks (fun r => r.isAccess = true) x) {m m' : Machine δ} {v : α}
    (h : Returns (Machine.platform bus) x m v m') : ∃ d, m' = { m with device := d } := by
  refine (hx.throughout (I := fun s => ∃ d, s = { m with device := d }) ?_ ⟨m.device, rfl⟩).finish h
  rintro r _ w t hr ⟨d, rfl⟩ ht
  rcases Machine.platform_access bus hr m m d with ⟨w', d', hw, -⟩ | ⟨c, hc, -⟩
  · cases hw.symm.trans ht
    exact ⟨d', rfl⟩
  · cases hc.symm.trans ht

/-- On the bus `whole` the block `b` answers as on the bus `part`, where it is alone;
`put` puts its state in its place. -/
structure IsPart {ε δ : Type} (part : Bus ε) (whole : Bus δ) (b : Block) (put : ε → δ) : Prop where
  load : ∀ (offset : Nat) (e : ε),
    whole.load b offset (put e) = (part.load b offset e).map fun answer => (answer.1, put answer.2)
  store : ∀ (offset : Nat) (value : UInt32) (e : ε),
    whole.store b offset value (put e) = (part.store b offset value e).map put

section Part

variable {ε δ α : Type} {part : Bus ε} {whole : Bus δ} {b : Block} {put : ε → δ}

/-- The same hart, with the block in its place. -/
def Machine.onto (put : ε → δ) (m : Machine ε) : Machine δ where
  device := put m.device
  csrs := m.csrs
  cycles := m.cycles
  filter := m.filter
  handler := m.handler

theorem Machine.afterCsrRead_onto (put : ε → δ) (m : Machine ε) (c : Csr) :
    (m.onto put).afterCsrRead c = (m.afterCsrRead c).onto put := by
  obtain ⟨device, csrs, cycles, filter, handler⟩ := m
  cases c with
  | cycle =>
      cases cycles with
      | nil => rfl
      | cons next rest => rfl
  | _ => rfl

theorem IsPart.platform (h : IsPart part whole b put) {r : Request} (hr : r.Within b)
    (m : Machine ε) :
    Machine.platform whole r (m.onto put)
      = (Machine.platform part r m).mapState (Machine.onto put) := by
  cases r with
  | load b' offset =>
      obtain rfl : b' = b := hr
      have hload := h.load offset m.device
      rw [Machine.platform, Machine.platform, Machine.onto, hload]
      cases part.load b' offset m.device with
      | ok answer => rfl
      | error c => rfl
  | store b' offset value =>
      obtain rfl : b' = b := hr
      have hstore := h.store offset value m.device
      rw [Machine.platform, Machine.platform, Machine.onto, hstore]
      cases part.store b' offset value m.device with
      | ok e => rfl
      | error c => rfl
  | readCsr c =>
      rw [Machine.platform, Machine.platform, Machine.afterCsrRead_onto]
      rfl
  | updateCsr c op =>
      rw [Machine.platform, Machine.platform, Machine.onto]
      cases m.csrs.update c op with
      | ok csrs => rfl
      | error e => rfl
  | log record => exact hr.elim
  | setHandlerSlot slot => exact hr.elim
  | _ => rfl

/-- **What a driver does on its block alone, it does on the block among others.** -/
theorem IsPart.run (h : IsPart part whole b put) {x : Program α}
    (hx : Asks (Request.Within b) x) (n : Nat) (m : Machine ε) :
    x.run (Machine.platform whole) n (m.onto put)
      = (x.run (Machine.platform part) n m).mapState (Machine.onto put) :=
  hx.run_mapState (fun _ hr => h.platform hr) n m

theorem IsPart.returns (h : IsPart part whole b put) {x : Program α}
    (hx : Asks (Request.Within b) x) {m m' : Machine ε} {v : α}
    (hret : Returns (Machine.platform part) x m v m') :
    Returns (Machine.platform whole) x (m.onto put) v (m'.onto put) := by
  obtain ⟨n, hn⟩ := hret
  refine ⟨n, ?_⟩
  rw [h.run hx, hn]
  rfl

theorem IsPart.stops (h : IsPart part whole b put) {x : Program α}
    (hx : Asks (Request.Within b) x) {m m' : Machine ε} {c : Stop}
    (hstop : Stops (Machine.platform part) x m c m') :
    Stops (Machine.platform whole) x (m.onto put) c (m'.onto put) := by
  obtain ⟨n, hn⟩ := hstop
  refine ⟨n, fun k hk => ?_⟩
  rw [h.run hx, hn k hk]
  rfl

end Part

end BoardSupport

import BoardSupport.Device.Machine
import BoardSupport.Program.Record

/-!
A bench: programs run on a machine one after another, each under a limit on its register accesses,
and everything they exchange is kept.
-/
namespace BoardSupport

/-- What one program did on a machine. -/
structure Observation (δ α : Type) where
  /-- The program's result, or why it has none. -/
  result : Except Stop α
  machine : Machine δ
  trace : List Exchange

namespace Machine

variable {δ α : Type}

/-- A machine whose exchanges are kept and whose register accesses are limited. -/
abbrev Watched (δ : Type) := Metered (Recorded (Machine δ))

/-- How a watched machine answers. -/
def watchedPlatform (bus : Bus δ) : Platform (Watched δ) := (platform bus).recorded.metered

/-- Runs a program on a machine with at most `limit` register accesses. Every turn of a loop makes
at least one access in the programs of this library, so one turn more than the limit is enough. -/
def observe (bus : Bus δ) (limit : Nat) (program : Program α) (m : Machine δ) : Observation δ α :=
  let start : Watched δ := ⟨⟨m, #[]⟩, limit⟩
  match program.run (watchedPlatform bus) (limit + 1) start with
  | .returned v s => ⟨.ok v, s.inner.inner, s.inner.trace.toList⟩
  | .stopped c s => ⟨.error c, s.inner.inner, s.inner.trace.toList⟩

end Machine

end BoardSupport

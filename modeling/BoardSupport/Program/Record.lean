import BoardSupport.Program.Run

/-!
Platforms that watch. One keeps every exchange of a run, in order; one allows only so many register
accesses and then refuses.
-/
namespace BoardSupport

structure Exchange where
  request : Request
  reply : request.Reply

/-- A state with the exchanges made so far, oldest first. -/
structure Recorded (σ : Type) where
  inner : σ
  trace : Array Exchange := #[]

/-- A state with the register accesses that are still allowed. -/
structure Metered (σ : Type) where
  inner : σ
  left : Nat

/-- Whether a request is an access to a register of a block. -/
def Request.isAccess : Request → Bool
  | .load _ _ => true
  | .store _ _ _ => true
  | _ => false

namespace Platform

variable {σ : Type}

/-- Notes each exchange once it has been made. -/
def recorded (p : Platform σ) : Platform (Recorded σ) := fun r s =>
  match p r s.inner with
  | .returned v inner => .returned v ⟨inner, s.trace.push ⟨r, v⟩⟩
  | .stopped c inner => .stopped c ⟨inner, s.trace⟩

/-- Lets accesses through while any are left; the one after that is not made, and the run hangs. -/
def metered (p : Platform σ) : Platform (Metered σ) := fun r s =>
  if r.isAccess then
    if s.left = 0 then .stopped .hang s
    else (p r s.inner).mapState fun inner => ⟨inner, s.left - 1⟩
  else (p r s.inner).mapState fun inner => ⟨inner, s.left⟩

end Platform

end BoardSupport

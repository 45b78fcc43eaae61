import BoardSupport.Program.Basic

/-!
Running a program on a platform. A platform answers each request and moves on, or stops the run. The
fuel bounds the turns of every single loop, so a run always ends; a loop that would need more turns
is still waiting, and the run is a hang. A run that returns does so with more fuel as well
(`run_mono`), so a program returns when some fuel is enough, and never returns when none is.
-/
namespace BoardSupport

/-- Why a run ended before the program did. -/
inductive Stop
  | hang
  | fault (cause : Fault)
  /-- Asleep with interrupts masked, for good. -/
  | parked
  /-- Asleep, and nothing more happens. -/
  | idle
  deriving DecidableEq, Repr

/-- How a run ends: with the result or before it, and in which state either way. -/
inductive Outcome (σ α : Type)
  | returned (value : α) (state : σ)
  | stopped (cause : Stop) (state : σ)
  deriving DecidableEq, Repr

namespace Outcome

variable {σ τ α β : Type}

@[inline] def andThen (o : Outcome σ α) (f : α → σ → Outcome σ β) : Outcome σ β :=
  match o with
  | .returned v s => f v s
  | .stopped c s => .stopped c s

/-- The same ending, seen in another state. -/
@[inline] def mapState (f : σ → τ) : Outcome σ α → Outcome τ α
  | .returned v s => .returned v (f s)
  | .stopped c s => .stopped c (f s)

def state : Outcome σ α → σ
  | .returned _ s => s
  | .stopped _ s => s

@[simp] theorem andThen_returned (v : α) (s : σ) (f : α → σ → Outcome σ β) :
    (returned v s).andThen f = f v s := rfl

@[simp] theorem andThen_stopped (c : Stop) (s : σ) (f : α → σ → Outcome σ β) :
    (stopped c s).andThen f = stopped c s := rfl

theorem andThen_assoc {γ : Type} (o : Outcome σ α) (f : α → σ → Outcome σ β)
    (g : β → σ → Outcome σ γ) :
    (o.andThen f).andThen g = o.andThen fun v s => (f v s).andThen g := by
  cases o <;> rfl

end Outcome

/-- What answers the requests of a program, in a state of type `σ`. -/
abbrev Platform (σ : Type) := (r : Request) → σ → Outcome σ r.Reply

/-- Takes turns from `g` until one leaves the loop, at most `fuel` of them. -/
def takeTurns {σ γ β : Type} (turn : γ → σ → Outcome σ (Turn γ β)) : Nat → γ → σ → Outcome σ β
  | 0, _, s => .stopped .hang s
  | fuel + 1, g, s =>
    match turn g s with
    | .returned (.leave b) s => .returned b s
    | .returned (.again g) s => takeTurns turn fuel g s
    | .stopped c s => .stopped c s

/-- Turns that finish are not changed by more fuel, nor by turns that finish more often. -/
theorem takeTurns_mono {σ γ β : Type} {turn turn' : γ → σ → Outcome σ (Turn γ β)}
    (h : ∀ g s r s', turn g s = .returned r s' → turn' g s = .returned r s') {n m : Nat}
    (hnm : n ≤ m) {g : γ} {s s' : σ} {b : β} (hb : takeTurns turn n g s = .returned b s') :
    takeTurns turn' m g s = .returned b s' := by
  induction n generalizing m g s with
  | zero => simp [takeTurns] at hb
  | succ n ih =>
    obtain ⟨k, rfl⟩ : ∃ k, m = k + 1 := ⟨m - 1, by omega⟩
    simp only [takeTurns] at hb ⊢
    cases ht : turn g s with
    | stopped c t => simp [ht] at hb
    | returned r t =>
      rw [h g s r t ht]
      rw [ht] at hb
      cases r with
      | leave b' => exact hb
      | again g' => exact ih (by omega) hb

namespace Program

variable {σ : Type}

/-- Runs a program on a platform from a state; each loop has `fuel` turns. -/
def run (p : Platform σ) (fuel : Nat) {α : Type} : Program α → σ → Outcome σ α
  | .done v, s => .returned v s
  | .fault c, s => .stopped (.fault c) s
  | .ask r k, s => (p r s).andThen fun v s => (k v).run p fuel s
  | .loop g t k, s =>
    (takeTurns (fun g s => (t g).run p fuel s) fuel g s).andThen fun b s => (k b).run p fuel s

theorem run_bind (p : Platform σ) (fuel : Nat) {α β : Type} (x : Program α) (f : α → Program β)
    (s : σ) : (x.bind f).run p fuel s = (x.run p fuel s).andThen fun v s => (f v).run p fuel s := by
  induction x generalizing s with
  | done v => rfl
  | fault c => rfl
  | ask r k ih =>
    simp only [bind, run, Outcome.andThen_assoc]
    congr 1
    funext v s
    exact ih v f s
  | loop g t k _ ih =>
    simp only [bind, run, Outcome.andThen_assoc]
    congr 1
    funext b s
    exact ih b f s

/-- A run that returns is not changed by more fuel. -/
theorem run_mono (p : Platform σ) {n m : Nat} (hnm : n ≤ m) {α : Type} {x : Program α} {s s' : σ}
    {v : α} (h : x.run p n s = .returned v s') : x.run p m s = .returned v s' := by
  induction x generalizing s s' with
  | done w => exact h
  | fault c => simp [run] at h
  | ask r k ih =>
    simp only [run] at h ⊢
    cases hr : p r s with
    | stopped c t => simp [hr] at h
    | returned w t =>
      rw [hr] at h
      exact ih w h
  | loop g t k iht ihk =>
    simp only [run] at h ⊢
    cases hl : takeTurns (fun g s => (t g).run p n s) n g s with
    | stopped c t => simp [hl] at h
    | returned b u =>
      rw [hl] at h
      rw [takeTurns_mono (fun g s r s' hg => iht g hg) hnm hl]
      exact ihk b h

end Program

end BoardSupport

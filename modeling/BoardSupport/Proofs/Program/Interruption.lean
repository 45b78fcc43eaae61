import BoardSupport.Proofs.Program.Steps

/-!
# A program interrupted once

A trap handler may run whole between any two requests of a foreground program
(`Interrupted`). What the handler leaves is then what the rest of the program starts
from, so a change made by the handler survives if nothing in the rest undoes it.

`EndsWith last` is about the other end of a run: whatever is answered on the way, a
run that returns makes the request `last` at the very end. Its rules follow the
constructors; a step of such a program either is that last request or leaves such a
program (`EndsWith.step`). So however late the interruption, as long as the last
request is still to come, the state at the end is one that this request leaves
(`Interrupted.exists_last`).
-/

namespace BoardSupport.Program

variable {σ α β : Type} {p : Platform σ}

/-! ## Interruptions -/

/-- After its first `n` steps from `s` the program `x` is interrupted: `handler` runs
whole and leaves `u`; the rest of `x` then returns `v` and leaves `t`. -/
structure Interrupted (p : Platform σ) (x : Program α) (handler : Program β) (n : Nat)
    (s u : σ) (v : α) (t : σ) : Prop where
  handled : ∃ w, Returns p handler (advance p n x s).2 w u
  resumed : Returns p (advance p n x s).1 u v t

namespace Interrupted

variable {x : Program α} {handler : Program β} {n : Nat} {s u t : σ} {v : α}

/-- After the last request the handler might as well have run afterwards. -/
theorem eq_of_finished (h : Interrupted p x handler n s u v t)
    (hx : (advance p n x s).1.Finished) : t = u := by
  have hres := h.resumed
  cases hy : (advance p n x s).1 with
  | done w =>
      rw [hy] at hres
      exact (returns_done.mp hres).2.symm
  | fault c =>
      rw [hy] at hres
      obtain ⟨fuel, hfuel⟩ := hres
      cases hfuel
  | ask r k => rw [hy] at hx; exact hx.elim
  | loop g turn next => rw [hy] at hx; exact hx.elim

end Interrupted

/-! ## The last request -/

/-- Every run of the program that returns makes the request `last` at the end. -/
inductive EndsWith (last : Request) {α : Type} : Program α → Prop
  | last (k : last.Reply → Program α) (hk : ∀ v, ∃ w, k v = .done w) : EndsWith last (.ask last k)
  | fault (c : Fault) : EndsWith last (.fault c)
  | ask {r : Request} {k : r.Reply → Program α} (hk : ∀ v, EndsWith last (k v)) :
      EndsWith last (.ask r k)
  | loop {γ β : Type} {g : γ} {turn : γ → Program (Turn γ β)} {next : β → Program α}
      (hnext : ∀ b, EndsWith last (next b)) : EndsWith last (.loop g turn next)

namespace EndsWith

variable {last : Request} {x : Program α} {s t : σ} {v : α}

/-- Whatever comes first, the end is that of the program after it. -/
theorem after (x : Program α) {f : α → Program β} (hf : ∀ v, EndsWith last (f v)) :
    EndsWith last (x.bind f) := by
  induction x with
  | done v => exact hf v
  | fault c => exact .fault c
  | ask r k ih => exact .ask fun v => ih v hf
  | loop g turn next _ ih => exact .loop fun b => ih b hf

/-- The result may still be worked out, without a request. -/
theorem bind (hx : EndsWith last x) {f : α → Program β} (hf : ∀ v, ∃ w, f v = .done w) :
    EndsWith last (x.bind f) := by
  induction hx with
  | last k hk =>
      refine .last _ fun v => ?_
      obtain ⟨w, hw⟩ := hk v
      obtain ⟨w', hw'⟩ := hf w
      exact ⟨w', by rw [hw, Program.bind, hw']⟩
  | fault c => exact .fault c
  | ask _ ih => exact .ask ih
  | loop _ ih => exact .loop ih

/-- A step leaves such a program, or it was the last request. -/
theorem step (hx : EndsWith last x) (s : σ) :
    EndsWith last (step p x s).1 ∨ (step p x s).1.Finished := by
  cases hx with
  | last k hk =>
      rw [Program.step]
      cases p last s with
      | stopped c t => exact Or.inl (.last k hk)
      | returned v t =>
          obtain ⟨w, hw⟩ := hk v
          refine Or.inr ?_
          show (k v).Finished
          rw [hw]
          exact trivial
  | fault c => exact Or.inl (.fault c)
  | @ask r k hk =>
      rw [Program.step]
      cases p r s with
      | stopped c t => exact Or.inl (.ask hk)
      | returned v t => exact Or.inl (hk v)
  | loop hnext =>
      refine Or.inl (after _ fun r => ?_)
      cases r with
      | leave b => exact hnext b
      | again g => exact .loop hnext

theorem advance (hx : EndsWith last x) (n : Nat) (s : σ) :
    EndsWith last (advance p n x s).1 ∨ (Program.advance p n x s).1.Finished := by
  induction n generalizing x s with
  | zero => exact Or.inl hx
  | succ n ih =>
      rcases hx.step (p := p) s with h | h
      · exact ih h _
      · refine Or.inr ?_
        rw [Program.advance, advance_of_finished h]
        exact h

/-- The state at the end is one that the last request leaves. -/
theorem exists_last (hx : EndsWith last x) (hr : Returns p x s v t) :
    ∃ u w, p last u = .returned w t := by
  induction hx generalizing s with
  | last k hk =>
      obtain ⟨w, u, hl, hrest⟩ := returns_ask.mp hr
      obtain ⟨w', hw'⟩ := hk w
      rw [hw'] at hrest
      obtain ⟨-, rfl⟩ := returns_done.mp hrest
      exact ⟨s, w, hl⟩
  | fault c =>
      obtain ⟨fuel, h⟩ := hr
      cases h
  | ask _ ih =>
      obtain ⟨w, u, -, hrest⟩ := returns_ask.mp hr
      exact ih w hrest
  | @loop _ _ g turn next _ ih =>
      -- Whatever the turns ask for, the last request is behind the one that leaves.
      obtain ⟨b, u, hrest⟩ := hr.exists_next
      exact ih b hrest

end EndsWith

/-- The last request is still to come after the interruption, so it settles the state
at the end. -/
theorem Interrupted.exists_last {last : Request} {x : Program α} {handler : Program β} {n : Nat}
    {s u t : σ} {v : α} (h : Interrupted p x handler n s u v t) (hx : EndsWith last x)
    (hn : ¬ (advance p n x s).1.Finished) : ∃ u' w, p last u' = .returned w t :=
  ((hx.advance n s).resolve_right hn).exists_last h.resumed

end BoardSupport.Program

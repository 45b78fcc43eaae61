import BoardSupport.Proofs.Program.Requests

/-!
# Programs that keep a property all along

`Safe p P x s Q` says three things of the program `x` from `s`: `P` holds of every state
it passes through, whether it ends or not; it meets no fault of its own; and where it
returns, `Q` holds of the result and the state. The rules follow the constructors, and a
program whose requests all keep `P` is safe as a whole (`Asks.safe`).
-/

namespace BoardSupport.Program

variable {σ α β : Type} {p : Platform σ} {P : σ → Prop}

/-- A polling loop returns what its last attempt gave. -/
theorem Returns.exists_attempt {I : σ → Prop} {attempt : Program (Option β)} {s t : σ} {b : β}
    (h : Returns p (poll attempt) s b t)
    (hnone : ∀ s t, I s → Returns p attempt s none t → I t) (hs : I s) :
    ∃ s', I s' ∧ Returns p attempt s' (some b) t := by
  obtain ⟨fuel, h⟩ := h
  rw [poll, run] at h
  generalize hturn : (fun (g : Unit) s => run p fuel _ s) = turn at h
  -- The induction is on the turns that are left; the fuel within a turn stays.
  suffices hturns : ∀ n s, I s → takeTurns turn n () s = .returned b t →
      ∃ s', I s' ∧ Returns p attempt s' (some b) t by
    cases hl : takeTurns turn fuel () s with
    | stopped c u =>
        rw [hl] at h
        cases h
    | returned b' u =>
        rw [hl] at h
        cases h
        exact hturns fuel s hs hl
  intro n
  induction n with
  | zero =>
      intro s _ h
      cases h
  | succ n ih =>
      intro s hs h
      rw [takeTurns, ← hturn] at h
      simp only [run_bind] at h
      cases ha : attempt.run p fuel s with
      | stopped c u =>
          rw [ha] at h
          cases h
      | returned v u =>
          rw [ha] at h
          cases v with
          | some b' =>
              cases h
              exact ⟨s, hs, fuel, ha⟩
          | none =>
              refine ih u (hnone s u hs ⟨fuel, ha⟩) ?_
              rw [← hturn]
              simp only [run_bind]
              exact h

/-- From `s` the program meets no fault, `P` holds throughout, and `Q` where it returns. -/
structure Safe (p : Platform σ) (P : σ → Prop) (x : Program α) (s : σ) (Q : α → σ → Prop) :
    Prop where
  throughout : Throughout p x s P
  unfaulted : ∀ n c, (advance p n x s).1 ≠ .fault c
  returned : ∀ v t, Returns p x s v t → Q v t

/-- A program whose requests keep `P`. -/
theorem Asks.safe {R : Request → Prop} {x : Program α} (hx : Asks R x)
    (hR : ∀ r s v t, R r → P s → p r s = .returned v t → P t) {s : σ} (hs : P s) :
    Safe p P x s fun _ t => P t where
  throughout := hx.throughout hR hs
  unfaulted n c := hx.advance_ne_fault n s c
  returned _ _ h := (hx.throughout hR hs).finish h

namespace Safe

variable {x : Program α} {s : σ} {Q Q' : α → σ → Prop} {R : β → σ → Prop}

theorem mono {P' : σ → Prop} (h : Safe p P x s Q) (hP : ∀ t, P t → P' t)
    (hQ : ∀ v t, Q v t → Q' v t) : Safe p P' x s Q' where
  throughout := h.throughout.mono hP
  unfaulted := h.unfaulted
  returned v t hv := hQ v t (h.returned v t hv)

theorem done {v : α} (hs : P s) (hv : Q v s) : Safe p P (.done v) s Q where
  throughout := Throughout.done hs
  unfaulted n c h := by
    rw [advance_of_finished (x := .done v) trivial] at h
    cases h
  returned _ _ h := by
    obtain ⟨rfl, rfl⟩ := returns_done.mp h
    exact hv

theorem request {r : Request} {Q : r.Reply → σ → Prop} (hs : P s)
    (h : ∀ v t, p r s = .returned v t → P t ∧ Q v t) : Safe p P (request r) s Q where
  throughout := Throughout.ask hs fun v t hv => Throughout.done (h v t hv).1
  unfaulted n c := (Asks.request (P := fun _ => True) trivial).advance_ne_fault n s c
  returned v t hv := (h v t (returns_request_iff.mp hv)).2

/-- The second program is safe wherever the first one returns. -/
theorem bind {f : α → Program β} (hx : Safe p P x s Q)
    (hf : ∀ v t, P t → Q v t → Safe p P (f v) t R) : Safe p P (x.bind f) s R := by
  have hrest : ∀ v t, Returns p x s v t → Safe p P (f v) t R := fun v t hv =>
    hf v t (hx.throughout.finish hv) (hx.returned v t hv)
  refine ⟨hx.throughout.bind fun v t hv => (hrest v t hv).throughout, ?_, ?_⟩
  · intro n c h
    -- After `n` steps the run is still within `x`, or in the program that follows.
    rcases advance_bind n x f s with heq | ⟨m, v, t, -, hm, heq⟩
    · rw [heq] at h
      cases hy : (advance p n x s).1 with
      | done v =>
          have hret : Returns p x s v (advance p n x s).2 :=
            returns_of_advance (n := n) (by rw [← hy])
          rw [hy] at h
          exact (hrest v _ hret).unfaulted 0 c h
      | fault c' => exact hx.unfaulted n c' hy
      | ask r k =>
          rw [hy] at h
          cases h
      | loop g turn next =>
          rw [hy] at h
          cases h
    · rw [heq] at h
      exact (hrest v t (returns_of_advance hm)).unfaulted _ c h
  · intro w u hw
    obtain ⟨v, t, hv, hw⟩ := returns_bind.mp hw
    exact (hrest v t hv).returned w u hw

/-- The result may still be worked out. -/
theorem bind_done {g : α → β} (hx : Safe p P x s Q) (hg : ∀ v t, Q v t → R (g v) t) :
    Safe p P (x.bind fun v => .done (g v)) s R :=
  hx.bind fun v t hP hQ => done hP (hg v t hQ)

/-- A program that is known to return does so in one way. -/
theorem of_returns {v : α} {t : σ} (h : Safe p P x s Q) (hx : Returns p x s v t) :
    Safe p P x s fun w u => w = v ∧ u = t :=
  ⟨h.throughout, h.unfaulted, fun _ _ hw => hw.unique hx⟩

end Safe

end BoardSupport.Program

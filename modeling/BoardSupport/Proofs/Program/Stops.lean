import BoardSupport.Proofs.Program.Returns

/-!
# Programs that stop short

`Stops p x s c t` says that on the platform `p` the program `x` never returns from `s`:
however much fuel its loops have, from some amount on, the run ends for the reason `c`
in `t`. The rules are those of `Returns` up to the request that is not answered, or to a
loop that goes round without a change.
-/

namespace BoardSupport.Program

variable {σ α β γ : Type} {p : Platform σ}

/-- With enough fuel, every run ends before the program does. -/
def Stops (p : Platform σ) (x : Program α) (s : σ) (c : Stop) (t : σ) : Prop :=
  ∃ n, ∀ m, n ≤ m → x.run p m s = .stopped c t

namespace Stops

variable {x : Program α} {f : α → Program β} {s t u : σ} {c : Stop} {v : α}

theorem not_returns (h : Stops p x s c t) {w : α} {u : σ} : ¬ Returns p x s w u := by
  rintro ⟨m, hm⟩
  obtain ⟨n, hn⟩ := h
  have hmore := run_mono p (Nat.le_max_right n m) hm
  rw [hn _ (Nat.le_max_left n m)] at hmore
  cases hmore

theorem fault {cause : Fault} : Stops p (.fault cause : Program α) s (.fault cause) s :=
  ⟨0, fun _ _ => rfl⟩

theorem ask {r : Request} {k : r.Reply → Program α} (h : p r s = .stopped c t) :
    Stops p (.ask r k) s c t :=
  ⟨0, fun m _ => by rw [run, h, Outcome.andThen_stopped]⟩

theorem bind (h : Stops p x s c t) : Stops p (x.bind f) s c t := by
  obtain ⟨n, hn⟩ := h
  exact ⟨n, fun m hm => by rw [run_bind, hn m hm, Outcome.andThen_stopped]⟩

theorem after (hx : Returns p x s v t) (hf : Stops p (f v) t c u) : Stops p (x.bind f) s c u := by
  obtain ⟨n, hn⟩ := hx
  obtain ⟨k, hk⟩ := hf
  refine ⟨max n k, fun m hm => ?_⟩
  rw [run_bind, run_mono p (by omega) hn, Outcome.andThen_returned]
  exact hk m (by omega)

/-- The first turn of a loop stops, and the loop with it. -/
theorem loop {g : γ} {turn : γ → Program (Turn γ β)} {next : β → Program α}
    (h : Stops p (turn g) s c t) : Stops p (.loop g turn next) s c t := by
  obtain ⟨n, hn⟩ := h
  refine ⟨n + 1, fun m hm => ?_⟩
  obtain ⟨k, rfl⟩ : ∃ k, m = k + 1 := ⟨m - 1, by omega⟩
  rw [run, takeTurns, hn _ (by omega)]
  rfl

/-- A turn goes round again, and the next one stops. -/
theorem loop_again {g g' : γ} {turn : γ → Program (Turn γ β)} {next : β → Program α}
    (h : Returns p (turn g) s (.again g') t) (hnext : Stops p (turn g') t c u) :
    Stops p (.loop g turn next) s c u := by
  obtain ⟨n, hn⟩ := h
  obtain ⟨k, hk⟩ := hnext
  refine ⟨max n k + 2, fun m hm => ?_⟩
  obtain ⟨l, rfl⟩ : ∃ l, m = l + 2 := ⟨m - 2, by omega⟩
  rw [run, takeTurns, run_mono p (by omega) hn]
  show (takeTurns _ (l + 1) g' t).andThen _ = _
  rw [takeTurns, hk _ (by omega)]
  rfl

/-- The attempt stops. -/
theorem poll {attempt : Program (Option β)} (h : Stops p attempt s c t) :
    Stops p (poll attempt) s c t :=
  loop h.bind

/-- The attempt gives nothing, and the next one stops. -/
theorem poll_again {attempt : Program (Option β)} (h : Returns p attempt s none t)
    (hnext : Stops p attempt t c u) : Stops p (Program.poll attempt) s c u :=
  loop_again (h.bind (returns_done.mpr ⟨rfl, rfl⟩)) hnext.bind

/-- A turn that goes round again and changes nothing is taken forever. -/
theorem again {g : γ} {turn : γ → Program (Turn γ β)} {next : β → Program α}
    (h : Returns p (turn g) s (.again g) s) : Stops p (.loop g turn next) s .hang s := by
  obtain ⟨n, hn⟩ := h
  refine ⟨n, fun m hm => ?_⟩
  have hturns : ∀ k, takeTurns (fun g s => (turn g).run p m s) k g s = .stopped .hang s := by
    intro k
    induction k with
    | zero => rfl
    | succ k ih =>
        rw [takeTurns, run_mono p hm hn]
        exact ih
  rw [run, hturns]
  rfl

/-- A test that says no and changes nothing is made forever. -/
theorem waitUntil {test : Program Bool} (h : Returns p test s false s) :
    Stops p (waitUntil test) s .hang s := by
  have hattempt := h.bind (f := fun ready => .done (if ready then some () else none))
    (returns_done.mpr ⟨rfl, rfl⟩)
  exact again (hattempt.bind (returns_done.mpr ⟨rfl, rfl⟩))

end Stops

end BoardSupport.Program

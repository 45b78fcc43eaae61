import BoardSupport.Program.Run

/-!
# Programs that return

`Returns p x s v t` says that on the platform `p` the program `x` returns `v`
from `s` and leaves `t` behind: some fuel is enough for its loops. By `run_mono`
every larger fuel then gives the same, so a fact about a returning program needs
no fuel. A program that returns for no fuel waits forever or meets a fault.

The rules follow the constructors: one for each, an inversion (`returns_bind`,
`returns_ask`, `returns_loop`), and the two ways an attempt of `poll` can go.
-/

namespace BoardSupport.Program

variable {σ α β γ : Type} {p : Platform σ}

/-- The program returns `v` and leaves the platform in `t`. -/
def Returns (p : Platform σ) (x : Program α) (s : σ) (v : α) (t : σ) : Prop :=
  ∃ n, x.run p n s = .returned v t

/-- A program returns in one way only. -/
theorem Returns.unique {x : Program α} {s t u : σ} {v w : α}
    (hv : Returns p x s v t) (hw : Returns p x s w u) : v = w ∧ t = u := by
  obtain ⟨n, hn⟩ := hv
  obtain ⟨m, hm⟩ := hw
  have h₁ := run_mono p (Nat.le_max_left n m) hn
  have h₂ := run_mono p (Nat.le_max_right n m) hm
  rw [h₁] at h₂
  cases h₂
  exact ⟨rfl, rfl⟩

/-! ## The rules -/

@[simp] theorem returns_done {s t : σ} {v w : α} :
    Returns p (.done v) s w t ↔ v = w ∧ s = t := by
  constructor
  · rintro ⟨n, h⟩
    cases h
    exact ⟨rfl, rfl⟩
  · rintro ⟨rfl, rfl⟩
    exact ⟨0, rfl⟩

theorem returns_ask {r : Request} {k : r.Reply → Program α} {s u : σ} {w : α} :
    Returns p (.ask r k) s w u ↔ ∃ v t, p r s = .returned v t ∧ Returns p (k v) t w u := by
  constructor
  · rintro ⟨n, h⟩
    rw [run] at h
    cases hr : p r s with
    | returned v t => exact ⟨v, t, rfl, n, by rw [hr] at h; exact h⟩
    | stopped c t => rw [hr] at h; cases h
  · rintro ⟨v, t, hr, n, h⟩
    refine ⟨n, ?_⟩
    rw [run, hr]
    exact h

theorem returns_bind {x : Program α} {f : α → Program β} {s u : σ} {w : β} :
    Returns p (x.bind f) s w u ↔ ∃ v t, Returns p x s v t ∧ Returns p (f v) t w u := by
  constructor
  · rintro ⟨n, h⟩
    rw [run_bind] at h
    cases hx : x.run p n s with
    | returned v t => exact ⟨v, t, ⟨n, hx⟩, n, by rw [hx] at h; exact h⟩
    | stopped c t => rw [hx] at h; cases h
  · rintro ⟨v, t, ⟨n, hx⟩, m, hf⟩
    refine ⟨max n m, ?_⟩
    rw [run_bind, run_mono p (Nat.le_max_left n m) hx]
    exact run_mono p (Nat.le_max_right n m) hf

theorem returns_request {r : Request} {s t : σ} {v : r.Reply} (h : p r s = .returned v t) :
    Returns p (request r) s v t :=
  returns_ask.mpr ⟨v, t, h, returns_done.mpr ⟨rfl, rfl⟩⟩

theorem returns_request_iff {r : Request} {s t : σ} {v : r.Reply} :
    Returns p (request r) s v t ↔ p r s = .returned v t := by
  constructor
  · intro h
    obtain ⟨w, u, hr, hdone⟩ := returns_ask.mp h
    obtain ⟨rfl, rfl⟩ := returns_done.mp hdone
    exact hr
  · exact returns_request

theorem Returns.bind {x : Program α} {f : α → Program β} {s t u : σ} {v : α} {w : β}
    (hx : Returns p x s v t) (hf : Returns p (f v) t w u) : Returns p (x.bind f) s w u :=
  returns_bind.mpr ⟨v, t, hx, hf⟩

/-- The result may still be worked out. -/
theorem Returns.map {x : Program α} {s t : σ} {v : α} (g : α → β) (hx : Returns p x s v t) :
    Returns p (x.bind fun v => .done (g v)) s (g v) t :=
  hx.bind (returns_done.mpr ⟨rfl, rfl⟩)

theorem returns_map {x : Program α} {g : α → β} {s t : σ} {w : β} :
    Returns p (x.bind fun v => .done (g v)) s w t ↔ ∃ v, g v = w ∧ Returns p x s v t := by
  constructor
  · intro h
    obtain ⟨v, u, hx, hdone⟩ := returns_bind.mp h
    obtain ⟨rfl, rfl⟩ := returns_done.mp hdone
    exact ⟨v, rfl, hx⟩
  · rintro ⟨v, rfl, hx⟩
    exact hx.map g

/-! ## Loops -/

/-- A loop returns after its first turn left it, or after its first turn went
round again and the rest of the loop returned. -/
theorem returns_loop {g : γ} {turn : γ → Program (Turn γ β)} {next : β → Program α}
    {s u : σ} {w : α} :
    Returns p (.loop g turn next) s w u ↔
      (∃ b t, Returns p (turn g) s (.leave b) t ∧ Returns p (next b) t w u) ∨
      (∃ g' t, Returns p (turn g) s (.again g') t ∧
        Returns p (.loop g' turn next) t w u) := by
  constructor
  · rintro ⟨n, h⟩
    cases n with
    | zero => cases h
    | succ n =>
        rw [run, takeTurns] at h
        cases ht : (turn g).run p (n + 1) s with
        | stopped c t => simp [ht] at h
        | returned r t =>
            rw [ht] at h
            cases r with
            | leave b => exact Or.inl ⟨b, t, ⟨n + 1, ht⟩, n + 1, h⟩
            | again g' =>
                refine Or.inr ⟨g', t, ⟨n + 1, ht⟩, n + 1, ?_⟩
                rw [run]
                cases hl : takeTurns (fun g s => (turn g).run p (n + 1) s) n g' t with
                | stopped c t => simp [hl] at h
                | returned b t' =>
                    rw [takeTurns_mono (fun _ _ _ _ h => h) (Nat.le_succ n) hl]
                    simpa [hl] using h
  · rintro (⟨b, t, ⟨n, ht⟩, m, hn⟩ | ⟨g', t, ⟨n, ht⟩, m, hl⟩)
    · refine ⟨max n m + 1, ?_⟩
      rw [run, takeTurns, run_mono p (by omega : n ≤ max n m + 1) ht]
      exact run_mono p (by omega : m ≤ max n m + 1) hn
    · refine ⟨max n m + 1, ?_⟩
      have hl' := run_mono p (Nat.le_max_right n m) hl
      rw [run] at hl'
      rw [run, takeTurns, run_mono p (by omega : n ≤ max n m + 1) ht]
      cases hr : takeTurns (fun g s => (turn g).run p (max n m) s) (max n m) g' t with
      | stopped c t => simp [hr] at hl'
      | returned b t' =>
          -- The turns of the longer run are the same turns with more fuel.
          have hmore : ∀ g s r s', (turn g).run p (max n m) s = .returned r s' →
              (turn g).run p (max n m + 1) s = .returned r s' :=
            fun g s r s' h => run_mono p (Nat.le_succ _) h
          simp only [takeTurns_mono hmore (Nat.le_refl _) hr]
          rw [hr] at hl'
          exact run_mono p (Nat.le_succ _) hl'

/-- What follows a loop has returned where the loop has. -/
theorem Returns.exists_next {g : γ} {turn : γ → Program (Turn γ β)} {next : β → Program α}
    {s u : σ} {w : α} (h : Returns p (.loop g turn next) s w u) :
    ∃ b t, Returns p (next b) t w u := by
  obtain ⟨n, h⟩ := h
  rw [run] at h
  cases hl : takeTurns (fun g s => (turn g).run p n s) n g s with
  | stopped c t => rw [hl] at h; cases h
  | returned b t => exact ⟨b, t, n, by rw [hl] at h; exact h⟩

/-- The attempt gave a value. -/
theorem Returns.poll_leave {attempt : Program (Option β)} {s t : σ} {b : β}
    (h : Returns p attempt s (some b) t) : Returns p (poll attempt) s b t :=
  returns_loop.mpr (Or.inl ⟨b, t, h.bind (returns_done.mpr ⟨rfl, rfl⟩),
    returns_done.mpr ⟨rfl, rfl⟩⟩)

/-- The attempt gave nothing, and a later one a value. -/
theorem Returns.poll_again {attempt : Program (Option β)} {s t u : σ} {b : β}
    (h : Returns p attempt s none t) (hl : Returns p (poll attempt) t b u) :
    Returns p (poll attempt) s b u :=
  returns_loop.mpr (Or.inr ⟨(), t, h.bind (returns_done.mpr ⟨rfl, rfl⟩), hl⟩)

theorem Returns.wait_leave {test : Program Bool} {s t : σ} (h : Returns p test s true t) :
    Returns p (waitUntil test) s () t :=
  Returns.poll_leave (h.bind (returns_done.mpr ⟨rfl, rfl⟩))

theorem Returns.wait_again {test : Program Bool} {s t u : σ} (h : Returns p test s false t)
    (hl : Returns p (waitUntil test) t () u) : Returns p (waitUntil test) s () u :=
  Returns.poll_again (h.bind (returns_done.mpr ⟨rfl, rfl⟩)) hl

end BoardSupport.Program

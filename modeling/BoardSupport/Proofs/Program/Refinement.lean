import BoardSupport.Proofs.Program.Requests

/-!
# Programs that show what others show

`Passes p x s t` says that a run of `x` from `s` comes through `t`, whether it ends or
not; together with `Returns` it is all that can be seen of a run. `Refines p R V x y`
says that `y` shows everything that `x` shows: from states that `R` relates, every state
that `x` comes through has one like it, by `V`, that `y` comes through, and where `x`
returns, `y` returns the same, in a state that `R` relates again. The numbers of their
steps do not matter, so two programs that refine each other are alike for everything
that `V` and `R` compare, also where they never return. The rules follow the
constructors (`Refines.bind`, `Refines.poll`).

Where each request of one program is answered alike in two states, its runs from there
stay alike step by step (`Asks.lockstep`).
-/

namespace BoardSupport.Program

variable {σ τ α β : Type} {p : Platform σ} {q : Platform τ}

/-! ## States that a run comes through -/

/-- A run of the program from `s` comes through `t`. -/
def Passes (p : Platform σ) (x : Program α) (s t : σ) : Prop := ∃ n, (advance p n x s).2 = t

section Passes

variable {x : Program α} {f : α → Program β} {s t u : σ} {v : α}

theorem Passes.start : Passes p x s s := ⟨0, rfl⟩

theorem Returns.passes (h : Returns p x s v t) : Passes p x s t := by
  obtain ⟨n, hn⟩ := h.exists_advance
  exact ⟨n, by rw [hn]⟩

theorem passes_done : Passes p (.done v) s t ↔ t = s := by
  constructor
  · rintro ⟨n, hn⟩
    rw [advance_of_finished (x := .done v) trivial] at hn
    exact hn.symm
  · rintro rfl
    exact .start

theorem Throughout.of_passes {P : σ → Prop} (h : Throughout p x s P) (ht : Passes p x s t) :
    P t := by
  obtain ⟨n, rfl⟩ := ht
  exact h n

/-- A run of one program and then another comes through the states of the first, and
once that has returned through those of the second. -/
theorem passes_bind : Passes p (x.bind f) s t ↔
    Passes p x s t ∨ ∃ v u, Returns p x s v u ∧ Passes p (f v) u t := by
  constructor
  · rintro ⟨n, rfl⟩
    rcases advance_bind n x f s with h | ⟨m, v, u, -, hm, h⟩
    · exact Or.inl ⟨n, by rw [h]⟩
    · exact Or.inr ⟨v, u, returns_of_advance hm, n - m, by rw [h]⟩
  · rintro (⟨n, rfl⟩ | ⟨v, u, hx, n, rfl⟩)
    · rcases advance_bind n x f s with h | ⟨m, v, u, hmn, hm, -⟩
      · exact ⟨n, by rw [h]⟩
      · obtain ⟨k, hk⟩ := exists_advance_bind (f := f) hm
        obtain ⟨i, rfl⟩ := Nat.exists_eq_add_of_le hmn
        refine ⟨k, ?_⟩
        rw [hk, advance_add, hm, advance_of_finished (x := .done v) trivial]
    · obtain ⟨m, hm⟩ := hx.exists_advance
      obtain ⟨k, hk⟩ := exists_advance_bind (f := f) hm
      exact ⟨k + n, by rw [advance_add, hk]⟩

end Passes

/-! ### Of a polling loop -/

/-- What follows an attempt of a polling loop: its end, or the loop again. -/
def afterAttempt (attempt : Program (Option β)) : Option β → Program β
  | none => poll attempt
  | some b => .done b

section Polling

variable {attempt : Program (Option β)} {s t : σ} {b : β}

theorem step_poll (p : Platform σ) (attempt : Program (Option β)) (s : σ) :
    step p (poll attempt) s = (attempt.bind (afterAttempt attempt), s) := by
  rw [poll, step, bind_assoc]
  refine congrArg (·, s) (congrArg _ (funext fun v => ?_))
  cases v with
  | none => rfl
  | some b => rfl

theorem passes_poll : Passes p (poll attempt) s t ↔
    Passes p (attempt.bind (afterAttempt attempt)) s t := by
  constructor
  · rintro ⟨n, rfl⟩
    cases n with
    | zero => exact .start
    | succ n => exact ⟨n, by rw [advance, step_poll]⟩
  · rintro ⟨n, rfl⟩
    exact ⟨n + 1, by rw [advance, step_poll]⟩

theorem returns_poll : Returns p (poll attempt) s b t ↔
    Returns p (attempt.bind (afterAttempt attempt)) s b t := by
  rw [← returns_step, step_poll]

end Polling

/-! ## Refinement -/

/-- What `x` shows from a state, `y` shows from every related one. -/
structure Refines (p : Platform σ) (q : Platform τ) (R V : σ → τ → Prop)
    (x y : Program α) : Prop where
  passes : ∀ {s t s'}, R s s' → Passes p x s t → ∃ t', Passes q y s' t' ∧ V t t'
  returns : ∀ {s t s' v}, R s s' → Returns p x s v t → ∃ t', Returns q y s' v t' ∧ R t t'

namespace Refines

variable {R V : σ → τ → Prop} {x y : Program α}

theorem done (hV : ∀ s t, R s t → V s t) (v : α) : Refines p q R V (.done v) (.done v) where
  passes {_ _ s'} hR ht := by
    obtain rfl := passes_done.mp ht
    exact ⟨s', .start, hV _ _ hR⟩
  returns {_ _ s' _} hR ht := by
    obtain ⟨rfl, rfl⟩ := returns_done.mp ht
    exact ⟨s', returns_done.mpr ⟨rfl, rfl⟩, hR⟩

theorem bind (h : Refines p q R V x y) {f g : α → Program β}
    (hfg : ∀ v, Refines p q R V (f v) (g v)) : Refines p q R V (x.bind f) (y.bind g) where
  passes hR ht := by
    rcases passes_bind.mp ht with ht | ⟨v, u, hu, ht⟩
    · obtain ⟨t', ht', hV⟩ := h.passes hR ht
      exact ⟨t', passes_bind.mpr (Or.inl ht'), hV⟩
    · obtain ⟨u', hu', hR'⟩ := h.returns hR hu
      obtain ⟨t', ht', hV⟩ := (hfg v).passes hR' ht
      exact ⟨t', passes_bind.mpr (Or.inr ⟨v, u', hu', ht'⟩), hV⟩
  returns hR ht := by
    obtain ⟨v, u, hu, ht⟩ := returns_bind.mp ht
    obtain ⟨u', hu', hR'⟩ := h.returns hR hu
    obtain ⟨t', ht', hR''⟩ := (hfg v).returns hR' ht
    exact ⟨t', hu'.bind ht', hR''⟩

/-- The result may be worked out on both sides. -/
theorem map (hV : ∀ s t, R s t → V s t) (h : Refines p q R V x y) (g : α → β) :
    Refines p q R V (x.bind fun v => .done (g v)) (y.bind fun v => .done (g v)) :=
  h.bind fun v => done hV (g v)

/-- Attempts that refine each other make polling loops that do. -/
theorem poll {x y : Program (Option β)} (hV : ∀ s t, R s t → V s t)
    (h : Refines p q R V x y) : Refines p q R V (poll x) (poll y) := by
  -- The induction is on the steps of the first loop; the second may take more or fewer.
  suffices hsteps : ∀ n s s', R s s' →
      (∃ t', Passes q (Program.poll y) s' t' ∧ V (advance p n (Program.poll x) s).2 t') ∧
      ∀ b t, advance p n (Program.poll x) s = (.done b, t) →
        ∃ t', Returns q (Program.poll y) s' b t' ∧ R t t' by
    refine ⟨?_, ?_⟩
    · rintro s _ s' hR ⟨n, rfl⟩
      exact (hsteps n s s' hR).1
    · intro s t s' b hR ht
      obtain ⟨n, hn⟩ := ht.exists_advance
      exact (hsteps n s s' hR).2 b t hn
  intro n
  induction n using Nat.strongRecOn with
  | _ n ih =>
      intro s s' hR
      cases n with
      | zero =>
          refine ⟨⟨s', .start, hV _ _ hR⟩, fun b t hdone => ?_⟩
          cases hdone
      | succ n =>
          rw [advance, step_poll]
          rcases advance_bind n x (afterAttempt x) s with hn | ⟨m, v, u, hmn, hm, hn⟩
          · -- The loop is within an attempt, which may have come to its end.
            rw [hn]
            obtain ⟨t', ht', hV'⟩ := h.passes hR ⟨n, rfl⟩
            refine ⟨⟨t', passes_poll.mpr (passes_bind.mpr (Or.inl ht')), hV'⟩, fun b t hdone => ?_⟩
            obtain ⟨hprogram, rfl⟩ := Prod.ext_iff.mp hdone
            obtain ⟨v, hv, hb⟩ := bind_eq_done hprogram
            cases v with
            | none => cases hb
            | some b' =>
                cases hb
                obtain ⟨t', ht', hR'⟩ :=
                  h.returns hR (returns_of_advance (n := n) (Prod.ext hv rfl))
                exact ⟨t', returns_poll.mpr (ht'.bind (returns_done.mpr ⟨rfl, rfl⟩)), hR'⟩
          · rw [hn]
            obtain ⟨u', hu', hR'⟩ := h.returns hR (returns_of_advance hm)
            cases v with
            | none =>
                obtain ⟨⟨t', ht', hV'⟩, hreturns⟩ := ih (n - m) (by omega) u u' hR'
                refine ⟨⟨t', passes_poll.mpr (passes_bind.mpr (Or.inr ⟨none, u', hu', ht'⟩)), hV'⟩,
                  fun b t hdone => ?_⟩
                obtain ⟨t', ht', hR''⟩ := hreturns b t hdone
                exact ⟨t', returns_poll.mpr (hu'.bind ht'), hR''⟩
            | some b' =>
                have hloop : Returns q (Program.poll y) s' b' u' :=
                  returns_poll.mpr (hu'.bind (returns_done.mpr ⟨rfl, rfl⟩))
                rw [show afterAttempt x (some b') = .done b' from rfl,
                  advance_of_finished (x := .done b') trivial]
                refine ⟨⟨u', hloop.passes, hV _ _ hR'⟩, fun b t hdone => ?_⟩
                cases hdone
                exact ⟨u', hloop, hR'⟩

end Refines

/-! ## In step -/

namespace Asks

variable {P : Request → Prop} {R : σ → τ → Prop}

/-- Where each request is answered alike or not at all, runs go in step. -/
theorem lockstep {x : Program α} (hx : Asks P x)
    (hP : ∀ r s t, P r → R s t →
      (∃ v s' t', p r s = .returned v s' ∧ q r t = .returned v t' ∧ R s' t') ∨
      ∃ c s' d t', p r s = .stopped c s' ∧ q r t = .stopped d t')
    {s : σ} {t : τ} (hR : R s t) (n : Nat) :
    (advance p n x s).1 = (advance q n x t).1 ∧ R (advance p n x s).2 (advance q n x t).2 := by
  induction n generalizing x s t with
  | zero => exact ⟨rfl, hR⟩
  | succ n ih =>
      have hrest := @ih _ (hx.step (p := p) s)
      cases hx with
      | done v =>
          rw [advance_of_finished (x := .done v) trivial, advance_of_finished (x := .done v) trivial]
          exact ⟨rfl, hR⟩
      | @ask _ r k hr hk =>
          simp only [advance, Program.step] at hrest ⊢
          rcases hP r s t hr hR with ⟨v, s', t', hs, ht, hR'⟩ | ⟨c, s', d, t', hs, ht⟩
          · simp only [hs, ht] at hrest ⊢
            exact hrest hR'
          · simp only [hs, ht] at hrest ⊢
            exact hrest hR
      | loop hturn hnext => exact hrest hR

/-- So the program shows the same from states that are alike. -/
theorem refines {x : Program α} (hx : Asks P x)
    (hP : ∀ r s t, P r → R s t →
      (∃ v s' t', p r s = .returned v s' ∧ q r t = .returned v t' ∧ R s' t') ∨
      ∃ c s' d t', p r s = .stopped c s' ∧ q r t = .stopped d t') : Refines p q R R x x where
  passes {_ _ s'} hR ht := by
    obtain ⟨n, rfl⟩ := ht
    exact ⟨(advance q n x s').2, ⟨n, rfl⟩, (hx.lockstep hP hR n).2⟩
  returns {_ _ s' _} hR ht := by
    obtain ⟨n, hn⟩ := ht.exists_advance
    obtain ⟨hprogram, hstate⟩ := hx.lockstep hP hR n
    rw [hn] at hprogram hstate
    exact ⟨_, returns_of_advance (n := n) (Prod.ext hprogram.symm rfl), hstate⟩

end Asks

end BoardSupport.Program

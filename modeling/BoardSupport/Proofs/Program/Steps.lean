import BoardSupport.Proofs.Program.Returns

/-!
# Programs one request at a time

`step` makes the next request of a program and gives what is left of it;
`advance` makes several. A run that returns is a number of steps to `done`
(`returns_of_advance`), and the states in between are what a run passes
through, also when it never ends. `Throughout` says that all of them have a
property; its rules follow the constructors.

Two programs on one platform take turns by a schedule (`interleave`). Any list
of turns is a schedule, so a statement about all schedules is one about every
interleaving and every point of it.
-/

namespace BoardSupport.Program

variable {σ α β γ : Type} {p : Platform σ}

/-! ## Steps -/

/-- The next request of a program. A loop is opened without a request; a program
that has ended, or is not answered, stays as it is. -/
def step (p : Platform σ) : Program α → σ → Program α × σ
  | .done v, s => (.done v, s)
  | .fault c, s => (.fault c, s)
  | .ask r k, s =>
    match p r s with
    | .returned v t => (k v, t)
    | .stopped _ _ => (.ask r k, s)
  | .loop g turn next, s =>
    ((turn g).bind fun
      | .leave b => next b
      | .again g => .loop g turn next, s)

def advance (p : Platform σ) : Nat → Program α → σ → Program α × σ
  | 0, x, s => (x, s)
  | n + 1, x, s => advance p n (step p x s).1 (step p x s).2

/-- A program that has nothing left to do. -/
def Finished : Program α → Prop
  | .done _ | .fault _ => True
  | _ => False

theorem step_of_finished {x : Program α} (h : x.Finished) (s : σ) : step p x s = (x, s) := by
  cases x with
  | done v => rfl
  | fault c => rfl
  | ask r k => exact h.elim
  | loop g turn next => exact h.elim

theorem advance_of_finished {x : Program α} (h : x.Finished) (n : Nat) (s : σ) :
    advance p n x s = (x, s) := by
  induction n with
  | zero => rfl
  | succ n ih => rw [advance, step_of_finished h, ih]

theorem bind_eq_done {x : Program α} {f : α → Program β} {b : β} (h : x.bind f = .done b) :
    ∃ v, x = .done v ∧ f v = .done b := by
  cases x with
  | done v => exact ⟨v, rfl, h⟩
  | fault c => cases h
  | ask r k => cases h
  | loop g turn next => cases h

theorem advance_add (m n : Nat) (x : Program α) (s : σ) :
    advance p (m + n) x s = advance p n (advance p m x s).1 (advance p m x s).2 := by
  induction m generalizing x s with
  | zero => rw [Nat.zero_add, advance]
  | succ m ih => rw [Nat.succ_add, advance, advance, ih]

theorem advance_of_step {x y : Program α} {s t : σ} (h : step p x s = (y, t)) (n : Nat) :
    advance p (n + 1) x s = advance p n y t := by
  rw [advance, h]

/-- A step changes nothing about how a program returns. -/
theorem returns_step {x : Program α} {s u : σ} {v : α} :
    Returns p (step p x s).1 (step p x s).2 v u ↔ Returns p x s v u := by
  cases x with
  | done w => rfl
  | fault c => rfl
  | ask r k =>
      rw [returns_ask, step]
      cases hr : p r s with
      | returned w t =>
          constructor
          · intro h
            exact ⟨w, t, rfl, h⟩
          · rintro ⟨w', t', h, hk⟩
            cases h
            exact hk
      | stopped c t =>
          simp only [returns_ask, hr]
  | loop g turn next =>
      rw [returns_loop, step, returns_bind]
      constructor
      · rintro ⟨b | g', t, ht, h⟩
        · exact Or.inr ⟨_, t, ht, h⟩
        · exact Or.inl ⟨_, t, ht, h⟩
      · rintro (⟨b, t, ht, h⟩ | ⟨g', t, ht, h⟩)
        · exact ⟨.leave b, t, ht, h⟩
        · exact ⟨.again g', t, ht, h⟩

theorem returns_advance {n : Nat} {x : Program α} {s u : σ} {v : α} :
    Returns p (advance p n x s).1 (advance p n x s).2 v u ↔ Returns p x s v u := by
  induction n generalizing x s with
  | zero => rfl
  | succ n ih => rw [advance, ih, returns_step]

/-- Steps that reach the end are a run that returns. -/
theorem returns_of_advance {n : Nat} {x : Program α} {s t : σ} {v : α}
    (h : advance p n x s = (.done v, t)) : Returns p x s v t := by
  rw [← returns_advance (n := n), h]
  exact returns_done.mpr ⟨rfl, rfl⟩

/-! ## Steps of one program after another -/

theorem step_bind {x : Program α} (hx : ∀ v, x ≠ .done v) (f : α → Program β) (s : σ) :
    step p (x.bind f) s = ((step p x s).1.bind f, (step p x s).2) := by
  cases x with
  | done v => exact absurd rfl (hx v)
  | fault c => rfl
  | ask r k =>
      rw [bind, step, step]
      cases p r s with
      | returned v t => rfl
      | stopped c t => rfl
  | loop g turn next =>
      simp only [bind, step, bind_assoc]
      refine congrArg (·, s) (congrArg _ ?_)
      funext r
      cases r with
      | leave b => rfl
      | again g' => rfl

/-- The steps of `x` and then `f` are steps of `x`, or all of `x` and then steps
of `f`. -/
theorem advance_bind (n : Nat) (x : Program α) (f : α → Program β) (s : σ) :
    advance p n (x.bind f) s = ((advance p n x s).1.bind f, (advance p n x s).2) ∨
    ∃ m v t, m ≤ n ∧ advance p m x s = (.done v, t) ∧
      advance p n (x.bind f) s = advance p (n - m) (f v) t := by
  induction n generalizing x s with
  | zero => exact Or.inl rfl
  | succ n ih =>
      by_cases hx : ∃ v, x = .done v
      · obtain ⟨v, rfl⟩ := hx
        exact Or.inr ⟨0, v, s, Nat.zero_le _, rfl, rfl⟩
      · have hstep := step_bind (p := p) (fun v h => hx ⟨v, h⟩) f s
        simp only [advance, hstep]
        rcases ih (step p x s).1 (step p x s).2 with h | ⟨m, v, t, hm, hd, h⟩
        · exact Or.inl h
        · refine Or.inr ⟨m + 1, v, t, by omega, hd, ?_⟩
          rw [h, Nat.succ_sub_succ]

/-- Up to the step that ends `x`, the steps of `x` and then `f` are those of `x`. -/
theorem exists_advance_bind_until {n : Nat} {x : Program α} {f : α → Program β} {s t : σ} {v : α}
    (h : advance p n x s = (.done v, t)) : ∃ m, advance p m x s = (.done v, t) ∧
      ∀ i, i ≤ m → advance p i (x.bind f) s = ((advance p i x s).1.bind f, (advance p i x s).2) := by
  induction n generalizing x s with
  | zero =>
      refine ⟨0, h, fun i hi => ?_⟩
      obtain rfl := Nat.le_zero.mp hi
      rfl
  | succ n ih =>
      by_cases hx : ∃ w, x = .done w
      · obtain ⟨w, rfl⟩ := hx
        rw [advance_of_finished (x := .done w) trivial] at h
        refine ⟨0, h, fun i hi => ?_⟩
        obtain rfl := Nat.le_zero.mp hi
        rfl
      · obtain ⟨m, hm, hsteps⟩ := ih h
        refine ⟨m + 1, hm, fun i hi => ?_⟩
        cases i with
        | zero => rfl
        | succ i =>
            simp only [advance, step_bind (p := p) (fun v h => hx ⟨v, h⟩) f s]
            exact hsteps i (Nat.le_of_succ_le_succ hi)

/-- All of `x`, up to the start of what follows it. -/
theorem exists_advance_bind {n : Nat} {x : Program α} {f : α → Program β} {s t : σ} {v : α}
    (h : advance p n x s = (.done v, t)) : ∃ m, advance p m (x.bind f) s = (f v, t) := by
  obtain ⟨m, hm, hsteps⟩ := exists_advance_bind_until (f := f) h
  refine ⟨m, ?_⟩
  rw [hsteps m (Nat.le_refl m), hm]
  rfl

/-- A run that returns is a number of steps. -/
theorem Returns.exists_advance {x : Program α} {s t : σ} {v : α} (h : Returns p x s v t) :
    ∃ n, advance p n x s = (.done v, t) := by
  obtain ⟨fuel, h⟩ := h
  induction x generalizing s t with
  | done w =>
      cases h
      exact ⟨0, rfl⟩
  | fault c => cases h
  | ask r k ih =>
      rw [run] at h
      cases hr : p r s with
      | stopped c u => rw [hr] at h; cases h
      | returned w u =>
          rw [hr] at h
          obtain ⟨n, hn⟩ := ih w h
          refine ⟨n + 1, ?_⟩
          rw [advance, step, hr]
          exact hn
  | loop g turn next ihturn ihnext =>
      rw [run] at h
      cases hl : takeTurns (fun g s => (turn g).run p fuel s) fuel g s with
      | stopped c u => rw [hl] at h; cases h
      | returned b u =>
          rw [hl] at h
          obtain ⟨n, hn⟩ := ihnext b h
          -- The turns up to the one that leaves, by the fuel they take.
          suffices hturns : ∀ m g s, takeTurns (fun g s => (turn g).run p fuel s) m g s
              = .returned b u → ∃ k, advance p k (.loop g turn next) s = (next b, u) by
            obtain ⟨k, hk⟩ := hturns fuel g s hl
            refine ⟨k + n, ?_⟩
            rw [advance_add, hk]
            exact hn
          intro m
          induction m with
          | zero => intro g s h; cases h
          | succ m ih =>
              intro g s h
              rw [takeTurns] at h
              cases ht : (turn g).run p fuel s with
              | stopped c w => simp [ht] at h
              | returned r w =>
                  obtain ⟨j, hj⟩ := ihturn g ht
                  obtain ⟨i, hi⟩ := exists_advance_bind (f := fun
                    | .leave b => next b
                    | .again g => .loop g turn next) hj
                  rw [ht] at h
                  cases r with
                  | leave b' =>
                      cases h
                      exact ⟨i + 1, hi⟩
                  | again g' =>
                      obtain ⟨k, hk⟩ := ih g' w h
                      refine ⟨i + 1 + k, ?_⟩
                      rw [advance_add, advance, step, hi]
                      exact hk

/-! ## All states of a run -/

/-- Every state that the program passes through has the property, whether it ends
or not. -/
def Throughout (p : Platform σ) (x : Program α) (s : σ) (P : σ → Prop) : Prop :=
  ∀ n, P (advance p n x s).2

namespace Throughout

variable {P Q : σ → Prop}

theorem mono {x : Program α} {s : σ} (h : Throughout p x s P) (hPQ : ∀ t, P t → Q t) :
    Throughout p x s Q :=
  fun n => hPQ _ (h n)

theorem start {x : Program α} {s : σ} (h : Throughout p x s P) : P s := h 0

theorem finish {x : Program α} {s t : σ} {v : α} (h : Throughout p x s P)
    (hx : Returns p x s v t) : P t := by
  obtain ⟨n, hn⟩ := hx.exists_advance
  have hP := h n
  rwa [hn] at hP

theorem of_finished {x : Program α} {s : σ} (h : x.Finished) (hs : P s) :
    Throughout p x s P := by
  intro n
  rw [advance_of_finished h]
  exact hs

theorem done {v : α} {s : σ} (hs : P s) : Throughout p (.done v) s P := of_finished trivial hs

theorem ask {r : Request} {k : r.Reply → Program α} {s : σ} (hs : P s)
    (hk : ∀ v t, p r s = .returned v t → Throughout p (k v) t P) :
    Throughout p (.ask r k) s P := by
  intro n
  induction n with
  | zero => exact hs
  | succ n ih =>
      rw [advance, step]
      cases hr : p r s with
      | returned v t => exact hk v t hr n
      | stopped c t => exact ih

theorem bind {x : Program α} {f : α → Program β} {s : σ} (hx : Throughout p x s P)
    (hf : ∀ v t, Returns p x s v t → Throughout p (f v) t P) :
    Throughout p (x.bind f) s P := by
  intro n
  rcases advance_bind n x f s with h | ⟨m, v, t, -, hm, h⟩
  · rw [h]
    exact hx n
  · rw [h]
    exact hf v t (returns_of_advance hm) _

/-- What every turn keeps holds throughout the loop. -/
theorem loop {I : γ → σ → Prop} {turn : γ → Program (Turn γ β)} {next : β → Program α}
    (hturn : ∀ g s, I g s → Throughout p (turn g) s P)
    (hagain : ∀ g s g' t, I g s → Returns p (turn g) s (.again g') t → I g' t)
    (hleave : ∀ g s b t, I g s → Returns p (turn g) s (.leave b) t → P t →
      Throughout p (next b) t P)
    {g : γ} {s : σ} (hI : I g s) : Throughout p (.loop g turn next) s P := by
  intro n
  induction n using Nat.strongRecOn generalizing g s with
  | _ n ih =>
      cases n with
      | zero => exact (hturn g s hI).start
      | succ n =>
          rw [advance, step]
          rcases advance_bind n (turn g) _ s with h | ⟨m, r, t, -, hm, h⟩
          · rw [h]
            exact hturn g s hI n
          · rw [h]
            have hr := returns_of_advance hm
            cases r with
            | leave b => exact hleave g s b t hI hr ((hturn g s hI).finish hr) _
            | again g' => exact ih (n - m) (by omega) (hagain g s g' t hI hr)

/-- What every attempt keeps holds throughout the polling. -/
theorem poll {I : σ → Prop} {attempt : Program (Option β)}
    (hattempt : ∀ s, I s → Throughout p attempt s P)
    (hnone : ∀ s t, I s → Returns p attempt s none t → I t)
    {s : σ} (hI : I s) : Throughout p (poll attempt) s P := by
  refine loop (I := fun _ => I) ?_ ?_ ?_ hI
  · intro _ s hs
    refine (hattempt s hs).bind fun v t hv => of_finished ?_ ((hattempt s hs).finish hv)
    cases v <;> trivial
  · intro _ s _ t hs h
    obtain ⟨v, u, hv, hd⟩ := returns_bind.mp h
    cases v with
    | none =>
        obtain ⟨-, rfl⟩ := returns_done.mp hd
        exact hnone s u hs hv
    | some b => cases (returns_done.mp hd).1
  · intro _ s b t _ _ ht
    exact done ht

end Throughout

/-! ## Two programs in turns -/

/-- Which of two programs makes its next request. -/
inductive Context
  | foreground | trap
  deriving DecidableEq, Repr

/-- Two programs on one platform, in the turns that a schedule gives them. A turn
of a program that has ended does nothing. -/
def interleave (p : Platform σ) :
    List Context → Program α → Program β → σ → Program α × Program β × σ
  | [], x, y, s => (x, y, s)
  | .foreground :: turns, x, y, s => interleave p turns (step p x s).1 y (step p x s).2
  | .trap :: turns, x, y, s => interleave p turns x (step p y s).1 (step p y s).2

end BoardSupport.Program

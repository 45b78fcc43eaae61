import BoardSupport.Proofs.Program.Exchanges

/-!
# What a program may ask for

`Asks P x` says that every request that `x` makes, whatever it is answered, satisfies
`P`, and that `x` meets no fault of its own. The rules follow the constructors, so the
requests of a driver's operation are read off its text.

What is known of single requests then holds of whole runs: what they keep holds
throughout (`Asks.throughout`), and a platform that answers them as another one does
runs the program as the other one does (`Asks.simulates`, and `Asks.run_mapState` for
runs that do not return). A program that does not log is not changed by a logger
(`Asks.withLogger_eq`).
-/

namespace BoardSupport.Program

variable {σ τ α β γ : Type} {p : Platform σ} {q : Platform τ} {P Q : Request → Prop}

/-- All requests of the program satisfy `P`, and it meets no fault. -/
inductive Asks (P : Request → Prop) : {α : Type} → Program α → Prop
  | done {α : Type} (v : α) : Asks P (.done v)
  | ask {α : Type} {r : Request} {k : r.Reply → Program α} (hr : P r) (hk : ∀ v, Asks P (k v)) :
      Asks P (.ask r k)
  | loop {α γ β : Type} {g : γ} {turn : γ → Program (Turn γ β)} {next : β → Program α}
      (hturn : ∀ g, Asks P (turn g)) (hnext : ∀ b, Asks P (next b)) :
      Asks P (.loop g turn next)

namespace Asks

/-! ## Rules -/

theorem mono {x : Program α} (hx : Asks P x) (hPQ : ∀ r, P r → Q r) : Asks Q x := by
  induction hx with
  | done v => exact .done v
  | ask hr _ ih => exact .ask (hPQ _ hr) ih
  | loop _ _ ihturn ihnext => exact .loop ihturn ihnext

theorem bind {x : Program α} {f : α → Program β} (hx : Asks P x) (hf : ∀ v, Asks P (f v)) :
    Asks P (x.bind f) := by
  induction hx with
  | done v => exact hf v
  | ask hr _ ih => exact .ask hr fun v => ih v hf
  | loop hturn _ _ ihnext => exact .loop hturn fun b => ihnext b hf

theorem request {r : Request} (hr : P r) : Asks P (Program.request r) := .ask hr .done

theorem poll {attempt : Program (Option β)} (h : Asks P attempt) : Asks P (poll attempt) := by
  refine .loop (fun _ => h.bind fun v => ?_) .done
  cases v with
  | none => exact .done _
  | some b => exact .done _

theorem waitUntil {test : Program Bool} (h : Asks P test) : Asks P (waitUntil test) :=
  poll (h.bind fun _ => .done _)

theorem report {level : LogLevel} {target : LogTarget} {message : Program String}
    (hfilter : P .logFilter) (hlog : ∀ record, P (.log record)) (hmessage : Asks P message) :
    Asks P (report level target message) := by
  refine (request hfilter).bind fun filter => ?_
  cases hheard : filter.admits level with
  | true => exact hmessage.bind fun text => request (hlog _)
  | false => exact .done _

end Asks

/-! ## With a logger -/

section WithLogger

variable {emit : LogRecord → Program Unit}

theorem withLogger_ask_of_ne {r : Request} (hr : ∀ record, r ≠ .log record)
    (k : r.Reply → Program α) :
    (Program.ask r k).withLogger emit = .ask r fun v => (k v).withLogger emit := by
  cases r with
  | log record => exact absurd rfl (hr record)
  | _ => rfl

theorem withLogger_bind (x : Program α) (f : α → Program β) :
    (x.bind f).withLogger emit = (x.withLogger emit).bind fun v => (f v).withLogger emit := by
  induction x with
  | done v => rfl
  | fault c => rfl
  | ask r k ih =>
      by_cases hr : ∃ record, r = .log record
      · obtain ⟨record, rfl⟩ := hr
        show (emit record).bind (fun u => ((k u).bind f).withLogger emit) = _
        simp only [ih]
        exact (bind_assoc _ _ _).symm
      · have hr' : ∀ record, r ≠ .log record := fun record h => hr ⟨record, h⟩
        rw [Program.bind, withLogger_ask_of_ne hr', withLogger_ask_of_ne hr', Program.bind]
        simp only [ih]
  | loop g turn next _ ih =>
      simp only [Program.bind, withLogger, ih]

/-- A logger does nothing to a program that does not log. -/
theorem Asks.withLogger_eq {x : Program α} (hx : Asks P x) (hP : ∀ record, ¬ P (.log record)) :
    x.withLogger emit = x := by
  induction hx with
  | done v => rfl
  | @ask _ r k hr _ ih =>
      have hr' : ∀ record, r ≠ .log record := by
        rintro record rfl
        exact hP record hr
      rw [withLogger_ask_of_ne hr']
      exact congrArg (Program.ask r) (funext ih)
  | @loop _ _ _ g turn next _ _ ihturn ihnext =>
      rw [withLogger]
      rw [show (fun s => (turn s).withLogger emit) = turn from funext ihturn,
        show (fun b => (next b).withLogger emit) = next from funext ihnext]

/-- The requests with a logger are those of the program and those of the logger. -/
theorem Asks.withLogger {x : Program α} (hx : Asks P x) (hemit : ∀ record, Asks Q (emit record))
    (hPQ : ∀ r, P r → (∀ record, r ≠ .log record) → Q r) : Asks Q (x.withLogger emit) := by
  induction hx with
  | done v => exact .done v
  | @ask _ r k hr _ ih =>
      by_cases hlog : ∃ record, r = .log record
      · obtain ⟨record, rfl⟩ := hlog
        exact (hemit record).bind ih
      · have hne : ∀ record, r ≠ .log record := fun record h => hlog ⟨record, h⟩
        rw [withLogger_ask_of_ne hne]
        exact .ask (hPQ r hr hne) ih
  | loop _ _ ihturn ihnext => exact .loop ihturn ihnext

end WithLogger

/-! ## Runs -/

/-- Turns that go alike in another state end alike there. -/
theorem takeTurns_mapState {f : σ → τ} {turn : γ → σ → Outcome σ (Turn γ β)}
    {turn' : γ → τ → Outcome τ (Turn γ β)}
    (h : ∀ g s, turn' g (f s) = (turn g s).mapState f) (n : Nat) (g : γ) (s : σ) :
    takeTurns turn' n g (f s) = (takeTurns turn n g s).mapState f := by
  induction n generalizing g s with
  | zero => rfl
  | succ n ih =>
      rw [takeTurns, takeTurns, h]
      cases turn g s with
      | stopped c t => rfl
      | returned r t =>
          cases r with
          | leave b => rfl
          | again g' => exact ih g' t

namespace Asks

/-- What the requests keep holds throughout. -/
theorem throughout {I : σ → Prop} {x : Program α} (hx : Asks P x)
    (hP : ∀ r s v t, P r → I s → p r s = .returned v t → I t) {s : σ} (hs : I s) :
    Throughout p x s I := by
  induction hx generalizing s with
  | done v => exact .done hs
  | @ask _ r k hr _ ih => exact .ask hs fun v t h => ih v (hP r s v t hr hs h)
  | loop _ _ ihturn ihnext =>
      refine Throughout.loop (I := fun _ => I) (fun g s h => ihturn g h) ?_ ?_ hs
      · exact fun g s g' t h hret => (ihturn g h).finish hret
      · exact fun g s b t _ _ ht => ihnext b ht

/-- With a logger, what the requests and the logger keep holds throughout. -/
theorem throughout_withLogger {I : σ → Prop} {emit : LogRecord → Program Unit} {x : Program α}
    (hx : Asks P x) (hP : ∀ r s v t, P r → I s → p r s = .returned v t → I t)
    (hemit : ∀ record s, I s → Throughout p (emit record) s I) {s : σ} (hs : I s) :
    Throughout p (x.withLogger emit) s I := by
  induction hx generalizing s with
  | done v => exact .done hs
  | @ask _ r k hr _ ih =>
      by_cases hlog : ∃ record, r = .log record
      · obtain ⟨record, rfl⟩ := hlog
        exact (hemit record s hs).bind fun v t hv => ih v ((hemit record s hs).finish hv)
      · rw [withLogger_ask_of_ne fun record h => hlog ⟨record, h⟩]
        exact .ask hs fun v t h => ih v (hP r s v t hr hs h)
  | loop _ _ ihturn ihnext =>
      refine Throughout.loop (I := fun _ => I) (fun g s h => ihturn g h) ?_ ?_ hs
      · exact fun g s g' t h hret => (ihturn g h).finish hret
      · exact fun g s b t _ _ ht => ihnext b ht

theorem step {x : Program α} (hx : Asks P x) (s : σ) : Asks P (step p x s).1 := by
  cases hx with
  | done v => exact .done v
  | @ask _ r k hr hk =>
      rw [Program.step]
      cases p r s with
      | returned v t => exact hk v
      | stopped c t => exact .ask hr hk
  | loop hturn hnext =>
      refine (hturn _).bind fun r => ?_
      cases r with
      | leave b => exact hnext b
      | again g => exact .loop hturn hnext

/-- What a program has exchanged and what it has left to do are such as it may ask for. -/
theorem of_path {x y : Program α} {n : Nat} {trace : List Exchange} (hx : Asks P x)
    (h : Path n x trace y) : (∀ e ∈ trace, P e.request) ∧ Asks P y := by
  induction h with
  | refl x => exact ⟨fun e he => absurd he List.not_mem_nil, hx⟩
  | ask v _ ih =>
      cases hx with
      | ask hr hk =>
          obtain ⟨htrace, hy⟩ := ih (hk v)
          refine ⟨fun e he => ?_, hy⟩
          rcases List.mem_cons.mp he with rfl | he
          · exact hr
          · exact htrace e he
  | loop _ ih =>
      cases hx with
      | loop hturn hnext =>
          refine ih ((hturn _).bind fun r => ?_)
          cases r with
          | leave b => exact hnext b
          | again g => exact .loop hturn hnext

/-- The program never comes to a fault. -/
theorem advance_ne_fault {x : Program α} (hx : Asks P x) (n : Nat) (s : σ) (c : Fault) :
    (advance p n x s).1 ≠ .fault c := by
  induction n generalizing x s with
  | zero =>
      intro h
      rw [advance] at h
      subst h
      cases hx
  | succ n ih => exact ih (hx.step s) _

/-- Where each request is answered alike, a run is a run there as well. -/
theorem simulates {R : σ → τ → Prop} {x : Program α} (hx : Asks P x)
    (hP : ∀ r s v s' t, P r → R s t → p r s = .returned v s' →
      ∃ t', q r t = .returned v t' ∧ R s' t')
    {s s' : σ} {t : τ} {v : α} (hR : R s t) (h : Returns p x s v s') :
    ∃ t', Returns q x t v t' ∧ R s' t' := by
  obtain ⟨n, hn⟩ := h.exists_advance
  induction n generalizing x s t with
  | zero =>
      rw [advance] at hn
      cases hn
      exact ⟨t, returns_done.mpr ⟨rfl, rfl⟩, hR⟩
  | succ n ih =>
      have hret : Returns p (Program.step p x s).1 (Program.step p x s).2 v s' :=
        returns_step.mpr h
      have hrest := @ih _ (hx.step (p := p) s) (Program.step p x s).2
      cases hx with
      | done w =>
          obtain ⟨rfl, rfl⟩ := returns_done.mp h
          exact ⟨t, returns_done.mpr ⟨rfl, rfl⟩, hR⟩
      | @ask _ r k hr hk =>
          obtain ⟨w, s₁, hw, -⟩ := returns_ask.mp h
          obtain ⟨t₁, ht₁, hR₁⟩ := hP r s w s₁ t hr hR hw
          simp only [advance, Program.step, hw] at hn hret hrest
          obtain ⟨t', ht', hR'⟩ := hrest hR₁ hret hn
          exact ⟨t', returns_ask.mpr ⟨w, t₁, ht₁, ht'⟩, hR'⟩
      | loop hturn hnext =>
          obtain ⟨t', ht', hR'⟩ := hrest hR hret hn
          exact ⟨t', returns_step.mp ht', hR'⟩

/-- Where each request is answered as on `p`, the run is the one on `p`, however it ends. -/
theorem run_mapState {f : σ → τ} {x : Program α} (hx : Asks P x)
    (hP : ∀ r, P r → ∀ s, q r (f s) = (p r s).mapState f) (n : Nat) (s : σ) :
    x.run q n (f s) = (x.run p n s).mapState f := by
  induction hx generalizing s with
  | done v => rfl
  | @ask _ r k hr _ ih =>
      rw [run, run, hP r hr]
      cases p r s with
      | stopped c t => rfl
      | returned v t => exact ih v t
  | @loop _ _ _ g turn next _ _ ihturn ihnext =>
      rw [run, run, takeTurns_mapState ihturn]
      cases takeTurns (fun g s => (turn g).run p n s) n g s with
      | stopped c t => rfl
      | returned b t => exact ihnext b t

end Asks

end BoardSupport.Program

import BoardSupport.Program.Record
import BoardSupport.Proofs.Program.Steps

/-!
# What a program exchanges, whatever answers it

`Path n x trace y` says that `x` can make the exchanges `trace` and is then left as `y`;
the replies in `trace` are any replies. So a statement about all paths is one about all
hardware, and about every point of every run, also of a run that never ends
(`exists_path_advance`).

A run that returns is a path to its end, answered by the platform (`Completes`), so what it
exchanged can be told exactly.

`Behaves x during after` is the judgement on paths: `during` holds of the exchanges so
far while the program is under way, `after` of all of them once it has returned, and it
meets no fault. Its rules follow the constructors; the rule for a loop asks for an
invariant of the exchanges at the start of each turn (`Behaves.loop`, `Behaves.poll`).
-/

namespace BoardSupport.Program

variable {σ α β γ : Type} {p : Platform σ}

/-! ## Paths -/

/-- What follows a turn: the rest of the program, or the loop again. -/
def afterTurn (turn : γ → Program (Turn γ β)) (next : β → Program α) : Turn γ β → Program α
  | .leave b => next b
  | .again g => .loop g turn next

/-- In `n` steps, with replies of any kind, the program exchanges `trace` and is left as
the second program. -/
inductive Path {α : Type} : Nat → Program α → List Exchange → Program α → Prop
  | refl (x : Program α) : Path 0 x [] x
  | ask {n : Nat} {r : Request} {k : r.Reply → Program α} {trace : List Exchange} {y : Program α}
      (v : r.Reply) (h : Path n (k v) trace y) : Path (n + 1) (.ask r k) (⟨r, v⟩ :: trace) y
  | loop {n : Nat} {γ β : Type} {g : γ} {turn : γ → Program (Turn γ β)} {next : β → Program α}
      {trace : List Exchange} {y : Program α}
      (h : Path n ((turn g).bind (afterTurn turn next)) trace y) :
      Path (n + 1) (.loop g turn next) trace y

theorem step_loop (p : Platform σ) (g : γ) (turn : γ → Program (Turn γ β)) (next : β → Program α)
    (s : σ) : step p (.loop g turn next) s = ((turn g).bind (afterTurn turn next), s) := by
  rw [step]
  refine congrArg (·, s) (congrArg _ (funext fun r => ?_))
  cases r with
  | leave b => rfl
  | again g' => rfl

theorem bind_afterTurn {δ : Type} (x : Program (Turn γ β)) (turn : γ → Program (Turn γ β))
    (next : β → Program α) (f : α → Program δ) :
    (x.bind (afterTurn turn next)).bind f = x.bind (afterTurn turn fun b => (next b).bind f) := by
  rw [bind_assoc]
  refine congrArg _ (funext fun r => ?_)
  cases r with
  | leave b => rfl
  | again g => rfl

namespace Path

variable {n : Nat} {x y : Program α} {trace : List Exchange}

/-- A path of one program and then another is a path of the first that does not reach its
end, or all of the first and then a path of the second. -/
theorem of_bind {f : α → Program β} {z : Program β} (h : Path n (x.bind f) trace z) :
    (∃ y, Path n x trace y ∧ (∀ v, y ≠ .done v) ∧ z = y.bind f) ∨
    ∃ i j v before rest, n = i + j ∧ trace = before ++ rest ∧ Path i x before (.done v) ∧
      Path j (f v) rest z := by
  induction n generalizing x trace with
  | zero =>
      cases h
      by_cases hx : ∃ v, x = .done v
      · obtain ⟨v, rfl⟩ := hx
        exact Or.inr ⟨0, 0, v, [], [], rfl, rfl, .refl _, .refl _⟩
      · exact Or.inl ⟨x, .refl x, fun v hv => hx ⟨v, hv⟩, rfl⟩
  | succ n ih =>
      cases x with
      | done v => exact Or.inr ⟨0, n + 1, v, [], trace, (Nat.zero_add _).symm, rfl, .refl _, h⟩
      | fault c => cases h
      | ask r k =>
          cases h with
          | ask v h =>
              rcases ih h with ⟨y, hy, hne, rfl⟩ | ⟨i, j, w, before, rest, rfl, rfl, hx, hf⟩
              · exact Or.inl ⟨y, .ask v hy, hne, rfl⟩
              · exact Or.inr ⟨i + 1, j, w, ⟨r, v⟩ :: before, rest, by omega, rfl, .ask v hx, hf⟩
      | loop g turn next =>
          cases h with
          | loop h =>
              rw [← bind_afterTurn] at h
              rcases ih h with ⟨y, hy, hne, rfl⟩ | ⟨i, j, w, before, rest, rfl, rfl, hx, hf⟩
              · exact Or.inl ⟨y, .loop hy, hne, rfl⟩
              · exact Or.inr ⟨i + 1, j, w, before, rest, by omega, rfl, .loop hx, hf⟩

/-- All of one program and then a path of the next. -/
theorem bind {f : α → Program β} {z : Program β} {i j : Nat} {v : α} {rest : List Exchange}
    (hx : Path i x trace (.done v)) (hf : Path j (f v) rest z) :
    Path (i + j) (x.bind f) (trace ++ rest) z := by
  generalize hy : Program.done v = y at hx
  induction hx with
  | refl x =>
      subst hy
      rw [Nat.zero_add]
      exact hf
  | ask w _ ih =>
      rw [Nat.succ_add]
      exact .ask w (ih hy)
  | @loop _ _ _ g turn next _ _ _ ih =>
      rw [Nat.succ_add]
      refine .loop ?_
      rw [← bind_afterTurn]
      exact ih hy

end Path

/-! ## Answers of a platform -/

/-- The platform gives the replies of these exchanges, one after another. -/
inductive Answered (p : Platform σ) : List Exchange → σ → σ → Prop
  | nil (s : σ) : Answered p [] s s
  | cons {r : Request} {v : r.Reply} {trace : List Exchange} {s t u : σ}
      (h : p r s = .returned v t) (rest : Answered p trace t u) : Answered p (⟨r, v⟩ :: trace) s u

namespace Answered

variable {before rest trace : List Exchange} {s t u : σ}

theorem append_iff :
    Answered p (before ++ rest) s u ↔ ∃ t, Answered p before s t ∧ Answered p rest t u := by
  constructor
  · intro h
    induction before generalizing s with
    | nil => exact ⟨s, .nil s, h⟩
    | cons e before ih =>
        cases h with
        | cons hr hrest =>
            obtain ⟨t, hbefore, hrest⟩ := ih hrest
            exact ⟨t, .cons hr hbefore, hrest⟩
  · rintro ⟨t, hbefore, hrest⟩
    induction hbefore with
    | nil _ => exact hrest
    | cons hr _ ih => exact .cons hr (ih hrest)

theorem singleton_iff {r : Request} {v : r.Reply} :
    Answered p [⟨r, v⟩] s t ↔ p r s = .returned v t := by
  constructor
  · intro h
    cases h with
    | cons hr hrest =>
        cases hrest
        exact hr
  · intro hr
    exact .cons hr (.nil t)

/-- The first exchange comes before the others. -/
theorem first_iff {e : Exchange} :
    Answered p (e :: rest) s u ↔ ∃ t, Answered p [e] s t ∧ Answered p rest t u := by
  rw [← List.singleton_append]
  exact append_iff

/-- What every request keeps is kept by all of them. -/
theorem kept {P : σ → Prop} (h : Answered p trace s t)
    (hP : ∀ r s v t, p r s = .returned v t → P s → P t) (hs : P s) : P t := by
  induction h with
  | nil _ => exact hs
  | cons hr _ ih => exact ih (hP _ _ _ _ hr hs)

/-- A recording platform has noted the exchanges. -/
theorem recorded {s t : Recorded σ} (h : Answered p.recorded trace s t) :
    t.trace.toList = s.trace.toList ++ trace := by
  induction h with
  | nil s => exact (List.append_nil _).symm
  | @cons r v trace s t u hr _ ih =>
      rw [Platform.recorded] at hr
      cases hp : p r s.inner with
      | stopped c inner =>
          rw [hp] at hr
          cases hr
      | returned w inner =>
          rw [hp] at hr
          cases hr
          rw [ih, Array.toList_push, List.append_assoc, List.singleton_append]

/-- A run that reaches the end has returned. -/
theorem returns {n : Nat} {x : Program α} {v : α} (h : Answered p trace s t)
    (hx : Path n x trace (.done v)) : Returns p x s v t := by
  generalize hy : Program.done v = y at hx
  induction hx generalizing s with
  | refl x =>
      subst hy
      cases h
      exact returns_done.mpr ⟨rfl, rfl⟩
  | ask w _ ih =>
      cases h with
      | cons hr hrest => exact returns_ask.mpr ⟨w, _, hr, ih hrest hy⟩
  | @loop _ _ _ g turn next _ _ _ ih =>
      have hloop := ih h hy
      rw [← returns_step, step_loop]
      exact hloop

end Answered

/-- Every run is a path that the platform answers. -/
theorem exists_path_advance (p : Platform σ) (n : Nat) (x : Program α) (s : σ) :
    ∃ m trace, Path m x trace (advance p n x s).1 ∧ Answered p trace s (advance p n x s).2 := by
  induction n generalizing x s with
  | zero => exact ⟨0, [], .refl x, .nil s⟩
  | succ n ih =>
      obtain ⟨m, trace, hpath, hans⟩ := ih (step p x s).1 (step p x s).2
      rw [advance]
      cases x with
      | done v => exact ⟨m, trace, hpath, hans⟩
      | fault c => exact ⟨m, trace, hpath, hans⟩
      | ask r k =>
          rw [step] at hpath hans ⊢
          cases hr : p r s with
          | stopped c t =>
              rw [hr] at hpath hans
              exact ⟨m, trace, hpath, hans⟩
          | returned v t =>
              rw [hr] at hpath hans
              exact ⟨m + 1, ⟨r, v⟩ :: trace, .ask v hpath, .cons hr hans⟩
      | loop g turn next =>
          rw [step_loop] at hpath hans ⊢
          exact ⟨m + 1, trace, .loop hpath, hans⟩

/-! ## Runs with their exchanges -/

/-- A run from `s` makes the exchanges `trace`, then returns `v` and leaves `t`. -/
def Completes (p : Platform σ) (x : Program α) (s : σ) (trace : List Exchange) (v : α) (t : σ) :
    Prop :=
  ∃ n, Path n x trace (.done v) ∧ Answered p trace s t

section Completes

variable {x : Program α} {f : α → Program β} {s t u : σ} {v : α} {w : β}
  {trace before rest : List Exchange}

theorem Completes.returns (h : Completes p x s trace v t) : Returns p x s v t := by
  obtain ⟨n, hpath, hanswered⟩ := h
  exact hanswered.returns hpath

/-- A platform answers a program in one way only. -/
theorem Completes.unique {w : α} {trace' : List Exchange} (hv : Completes p x s trace v t)
    (hw : Completes p x s trace' w u) : trace = trace' ∧ v = w ∧ t = u := by
  obtain ⟨n, hpath, hanswered⟩ := hv
  obtain ⟨m, hpath', hanswered'⟩ := hw
  generalize hy : Program.done v = y at hpath
  induction hpath generalizing s m trace' with
  | refl x =>
      subst hy
      cases hpath'
      cases hanswered
      cases hanswered'
      exact ⟨rfl, rfl, rfl⟩
  | ask reply _ ih =>
      cases hpath' with
      | ask reply' hpath' =>
          cases hanswered with
          | cons hr hanswered =>
              cases hanswered' with
              | cons hr' hanswered' =>
                  cases hr.symm.trans hr'
                  obtain ⟨rfl, hrest⟩ := ih hanswered _ hpath' hanswered' hy
                  exact ⟨rfl, hrest⟩
  | loop _ ih =>
      cases hpath' with
      | loop hpath' => exact ih hanswered _ hpath' hanswered' hy

theorem Returns.exists_completes (h : Returns p x s v t) : ∃ trace, Completes p x s trace v t := by
  obtain ⟨n, hn⟩ := h.exists_advance
  obtain ⟨m, trace, hpath, hanswered⟩ := exists_path_advance p n x s
  rw [hn] at hpath hanswered
  exact ⟨trace, m, hpath, hanswered⟩

theorem completes_done {w : α} :
    Completes p (.done v) s trace w t ↔ trace = [] ∧ v = w ∧ s = t := by
  constructor
  · rintro ⟨n, hpath, hanswered⟩
    cases hpath
    cases hanswered
    exact ⟨rfl, rfl, rfl⟩
  · rintro ⟨rfl, rfl, rfl⟩
    exact ⟨0, .refl _, .nil _⟩

theorem completes_ask {r : Request} {k : r.Reply → Program α} :
    Completes p (.ask r k) s trace v u ↔ ∃ reply t rest, trace = ⟨r, reply⟩ :: rest ∧
      p r s = .returned reply t ∧ Completes p (k reply) t rest v u := by
  constructor
  · rintro ⟨n, hpath, hanswered⟩
    cases hpath with
    | ask reply hpath =>
        cases hanswered with
        | cons hreply hanswered => exact ⟨reply, _, _, rfl, hreply, _, hpath, hanswered⟩
  · rintro ⟨reply, t, rest, rfl, hreply, n, hpath, hanswered⟩
    exact ⟨n + 1, .ask reply hpath, .cons hreply hanswered⟩

/-- The second program's exchanges come after those of the first. -/
theorem completes_bind : Completes p (x.bind f) s trace w u ↔
    ∃ before rest v t, trace = before ++ rest ∧ Completes p x s before v t ∧
      Completes p (f v) t rest w u := by
  constructor
  · rintro ⟨n, hpath, hanswered⟩
    rcases hpath.of_bind with ⟨y, -, hne, hy⟩ | ⟨i, j, v, before, rest, -, rfl, hx, hf⟩
    · obtain ⟨v, rfl, -⟩ := bind_eq_done hy.symm
      exact absurd rfl (hne v)
    · obtain ⟨t, hbefore, hrest⟩ := Answered.append_iff.mp hanswered
      exact ⟨before, rest, v, t, rfl, ⟨i, hx, hbefore⟩, j, hf, hrest⟩
  · rintro ⟨before, rest, v, t, rfl, ⟨i, hx, hbefore⟩, j, hf, hrest⟩
    exact ⟨i + j, hx.bind hf, Answered.append_iff.mpr ⟨t, hbefore, hrest⟩⟩

theorem Completes.bind (hx : Completes p x s before v t) (hf : Completes p (f v) t rest w u) :
    Completes p (x.bind f) s (before ++ rest) w u :=
  completes_bind.mpr ⟨before, rest, v, t, rfl, hx, hf⟩

/-- A request, when the platform answers it. -/
theorem completes_request {r : Request} {reply : r.Reply} (h : p r s = .returned reply t) :
    Completes p (request r) s [⟨r, reply⟩] reply t :=
  completes_ask.mpr ⟨reply, t, [], rfl, h, completes_done.mpr ⟨rfl, rfl, rfl⟩⟩

/-- What follows may be over at once. -/
theorem Completes.bind_done (hx : Completes p x s trace v t) (hf : f v = .done w) :
    Completes p (x.bind f) s trace w t := by
  have hrest : Completes p (f v) t [] w t := by
    rw [hf]
    exact completes_done.mpr ⟨rfl, rfl, rfl⟩
  have h := hx.bind hrest
  rwa [List.append_nil] at h

/-- The result may still be worked out. -/
theorem Completes.map (g : α → β) (hx : Completes p x s trace v t) :
    Completes p (x.bind fun v => .done (g v)) s trace (g v) t := hx.bind_done rfl

/-- A loop exchanges what its first turn does, and then what follows that. -/
theorem completes_loop {δ : Type} {g : γ} {turn : γ → Program (Turn γ δ)} {next : δ → Program α} :
    Completes p (.loop g turn next) s trace v t ↔
      Completes p ((turn g).bind (afterTurn turn next)) s trace v t := by
  constructor
  · rintro ⟨n, hpath, hanswered⟩
    cases hpath with
    | loop hpath => exact ⟨_, hpath, hanswered⟩
  · rintro ⟨n, hpath, hanswered⟩
    exact ⟨n + 1, .loop hpath, hanswered⟩

/-- The attempt gave a value. -/
theorem Completes.poll_leave {attempt : Program (Option β)} {b : β}
    (h : Completes p attempt s trace (some b) t) : Completes p (poll attempt) s trace b t := by
  refine completes_loop.mpr (Completes.bind_done (v := Turn.leave b) ?_ rfl)
  exact h.bind_done rfl

/-- The attempt gave nothing, and a later one a value. -/
theorem Completes.poll_again {attempt : Program (Option β)} {b : β}
    (h : Completes p attempt s before none t) (hl : Completes p (poll attempt) t rest b u) :
    Completes p (poll attempt) s (before ++ rest) b u := by
  refine completes_loop.mpr (Completes.bind (v := Turn.again ()) ?_ hl)
  exact h.bind_done rfl

/-- After an attempt that gave nothing, polling goes on as it would have begun there. -/
theorem Completes.poll_iff {attempt : Program (Option β)} {b : β}
    (h : Completes p attempt s before none t) :
    Completes p (poll attempt) s trace b u ↔
      ∃ rest, trace = before ++ rest ∧ Completes p (poll attempt) t rest b u := by
  constructor
  · intro hl
    obtain ⟨turn, rest, r, t', rfl, hturn, hafter⟩ := completes_bind.mp (completes_loop.mp hl)
    obtain ⟨first, last, v, t'', rfl, hattempt, hdone⟩ := completes_bind.mp hturn
    obtain ⟨rfl, rfl, rfl⟩ := hattempt.unique h
    obtain ⟨rfl, rfl, rfl⟩ := completes_done.mp hdone
    rw [List.append_nil]
    exact ⟨rest, rfl, hafter⟩
  · rintro ⟨rest, rfl, hl⟩
    exact h.poll_again hl

theorem Completes.wait_leave {test : Program Bool} (h : Completes p test s trace true t) :
    Completes p (waitUntil test) s trace () t :=
  Completes.poll_leave (h.map _)

theorem Completes.wait_again {test : Program Bool} (h : Completes p test s before false t)
    (hl : Completes p (waitUntil test) t rest () u) :
    Completes p (waitUntil test) s (before ++ rest) () u :=
  Completes.poll_again (h.map _) hl

end Completes

/-! ## Behaviour on every path -/

/-- While the program is under way `during` holds of what it has exchanged; when it has
returned, `after` holds of its result and all its exchanges. -/
def Behaves (x : Program α) (during : List Exchange → Prop) (after : α → List Exchange → Prop) :
    Prop :=
  ∀ n trace y, Path n x trace y → match y with
    | .done v => after v trace
    | .fault _ => False
    | .ask _ _ => during trace
    | .loop _ _ _ => during trace

namespace Behaves

variable {x : Program α} {f : α → Program β} {during during' : List Exchange → Prop}
  {after after' : α → List Exchange → Prop} {result : β → List Exchange → Prop}

theorem mono (h : Behaves x during after) (hd : ∀ t, during t → during' t)
    (ha : ∀ v t, after v t → after' v t) : Behaves x during' after' := by
  intro n trace y hy
  have hx := h n trace y hy
  cases y with
  | done v => exact ha v trace hx
  | fault c => exact hx
  | ask r k => exact hd trace hx
  | loop g turn next => exact hd trace hx

theorem done {v : α} (h : after v []) : Behaves (.done v) during after := by
  intro n trace y hy
  cases hy
  exact h

theorem request {r : Request} {after : r.Reply → List Exchange → Prop} (h : during [])
    (hv : ∀ v, after v [⟨r, v⟩]) : Behaves (request r) during after := by
  intro n trace y hy
  cases hy with
  | refl => exact h
  | ask v hy =>
      cases hy
      exact hv v

/-- The second program goes on from what the first one has exchanged. -/
theorem bind (hx : Behaves x during after) (hd : ∀ t, during t → during' t)
    (hf : ∀ v t, after v t →
      Behaves (f v) (fun t' => during' (t ++ t')) fun w t' => result w (t ++ t')) :
    Behaves (x.bind f) during' result := by
  intro n trace z hz
  rcases hz.of_bind with ⟨y, hy, hne, rfl⟩ | ⟨i, j, v, t, t', -, rfl, hv, hz⟩
  · have h := hx n trace y hy
    cases y with
    | done v => exact absurd rfl (hne v)
    | fault c => exact h
    | ask r k => exact hd trace h
    | loop g turn next => exact hd trace h
  · exact hf v t (hx i t _ hv) j t' z hz

/-- Where only the end matters, nothing is asked of a program under way. -/
theorem ends (hx : Behaves x during after) (ha : ∀ v t, after v t → after' v t) :
    Behaves x (fun _ => True) after' :=
  hx.mono (fun _ _ => trivial) ha

theorem andThen (hx : Behaves x during after)
    (hf : ∀ v t, after v t → Behaves (f v) (fun _ => True) fun w t' => result w (t ++ t')) :
    Behaves (x.bind f) (fun _ => True) result :=
  hx.bind (fun _ _ => trivial) hf

/-- The result may still be worked out. -/
theorem map {g : α → β} (hx : Behaves x during after) (hg : ∀ v t, after v t → result (g v) t) :
    Behaves (x.bind fun v => .done (g v)) during result := by
  refine hx.bind (fun _ h => h) fun v t h => done ?_
  rw [List.append_nil]
  exact hg v t h

/-- What holds at the start of every turn holds all along. -/
theorem loop {I : γ → List Exchange → Prop} {turn : γ → Program (Turn γ β)} {next : β → Program α}
    (hd : ∀ g t, I g t → during t)
    (hturn : ∀ g t, I g t → Behaves (turn g) (fun t' => during (t ++ t')) fun r t' => match r with
      | .again g' => I g' (t ++ t')
      | .leave b =>
        Behaves (next b) (fun u => during (t ++ t' ++ u)) fun v u => after v (t ++ t' ++ u))
    {g : γ} (hI : I g []) : Behaves (.loop g turn next) during after := by
  -- The induction is on the steps, since a turn may exchange nothing.
  suffices h : ∀ n g t, I g t → ∀ trace y, Path n (.loop g turn next) trace y → match y with
      | .done v => after v (t ++ trace)
      | .fault _ => False
      | .ask _ _ => during (t ++ trace)
      | .loop _ _ _ => during (t ++ trace) from
    fun n trace y hy => h n g [] hI trace y hy
  intro n
  induction n using Nat.strongRecOn with
  | _ n ih =>
      intro g t hg trace y hy
      cases hy with
      | refl =>
          rw [List.append_nil]
          exact hd g t hg
      | @loop m _ _ _ _ _ _ _ hy =>
          rcases hy.of_bind with ⟨z, hz, hne, rfl⟩ | ⟨i, j, r, t', u, rfl, rfl, hr, hy⟩
          · have h := hturn g t hg _ _ _ hz
            cases z with
            | done v => exact absurd rfl (hne v)
            | fault c => exact h
            | ask r k => exact h
            | loop g turn next => exact h
          · have h := hturn g t hg _ _ _ hr
            cases r with
            | leave b =>
                have hnext := h _ _ _ hy
                simp only [List.append_assoc] at hnext ⊢
                exact hnext
            | again g' =>
                have hagain := ih j (by omega) g' (t ++ t') h u y hy
                simp only [List.append_assoc] at hagain ⊢
                exact hagain

/-- What holds before every attempt holds all along; the last attempt gives the value. -/
theorem poll {I : List Exchange → Prop} {attempt : Program (Option β)} (hd : ∀ t, I t → during t)
    (hattempt : ∀ t, I t → Behaves attempt (fun t' => during (t ++ t')) fun v t' => match v with
      | none => I (t ++ t')
      | some b => result b (t ++ t'))
    (hI : I []) : Behaves (poll attempt) during result := by
  refine loop (I := fun _ => I) (fun _ => hd) (fun _ t ht => ?_) hI
  refine (hattempt t ht).bind (fun _ h => h) fun v t' h => ?_
  cases v with
  | none =>
      refine done ?_
      rw [List.append_nil]
      exact h
  | some b =>
      refine done (done ?_)
      rw [List.append_nil, List.append_nil]
      exact h

/-- The wait ends when the test says yes. -/
theorem waitUntil {I ready : List Exchange → Prop} {test : Program Bool}
    (hd : ∀ t, I t → during t)
    (htest : ∀ t, I t → Behaves test (fun t' => during (t ++ t')) fun v t' => match v with
      | true => ready (t ++ t')
      | false => I (t ++ t'))
    (hI : I []) : Behaves (waitUntil test) during fun _ t => ready t := by
  refine poll hd (fun t ht => (htest t ht).map fun v t' h => ?_) hI
  cases v with
  | true => exact h
  | false => exact h

/-- The exchanges of a run that has returned are a path to its end. -/
theorem with_path (h : Behaves x during after) :
    Behaves x during fun v t => after v t ∧ ∃ n, Path n x t (.done v) := by
  intro n trace y hy
  have hx := h n trace y hy
  cases y with
  | done v => exact ⟨hx, n, hy⟩
  | fault c => exact hx
  | ask r k => exact hx
  | loop g turn next => exact hx

/-! ### Runs -/

variable {s t : σ}

/-- What holds after every path holds of a run that returns. -/
theorem of_returns (h : Behaves x during after) {v : α} (hx : Returns p x s v t) :
    ∃ trace, Answered p trace s t ∧ after v trace := by
  obtain ⟨trace, n, hpath, hanswered⟩ := hx.exists_completes
  exact ⟨trace, hanswered, h n trace _ hpath⟩

/-- What holds on every path holds at every point of a run. -/
theorem of_advance (h : Behaves x during after) (p : Platform σ) (n : Nat) (s : σ) :
    ∃ trace, Answered p trace s (advance p n x s).2 ∧
      ((∃ v, (advance p n x s).1 = .done v ∧ after v trace) ∨
        (¬ (advance p n x s).1.Finished ∧ during trace)) := by
  obtain ⟨m, trace, hpath, hans⟩ := exists_path_advance p n x s
  refine ⟨trace, hans, ?_⟩
  have hx := h m trace _ hpath
  cases hy : (advance p n x s).1 with
  | done v =>
      rw [hy] at hx
      exact Or.inl ⟨v, rfl, hx⟩
  | fault c =>
      rw [hy] at hx
      exact hx.elim
  | ask r k =>
      rw [hy] at hx
      exact Or.inr ⟨id, hx⟩
  | loop g turn next =>
      rw [hy] at hx
      exact Or.inr ⟨id, hx⟩

end Behaves

end BoardSupport.Program

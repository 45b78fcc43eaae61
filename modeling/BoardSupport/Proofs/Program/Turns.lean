import BoardSupport.Proofs.Program.Requests

/-!
# Turns of a program that goes on forever

A program that never ends is known by its turns. `Yields x after` says what every path of a
turn to its end has exchanged, with the state that it hands on; a turn may also meet a
fault, of which nothing is said. Every path of `forever` is some turns that have ended and
the beginning of one more (`exists_rounds_of_forever`).
-/

namespace BoardSupport.Program

variable {α β γ : Type}

/-! ## What a program has done at its end -/

/-- `after` holds of the result and of all exchanges of every path to the end. -/
def Yields (x : Program α) (after : α → List Exchange → Prop) : Prop :=
  ∀ n trace v, Path n x trace (.done v) → after v trace

namespace Yields

variable {x : Program α} {f : α → Program β} {after : α → List Exchange → Prop}
  {result : β → List Exchange → Prop}

theorem done {v : α} (h : after v []) : Yields (.done v) after := by
  intro n trace w hw
  cases hw
  exact h

theorem of_behaves {during : List Exchange → Prop} (h : Behaves x during after) :
    Yields x after := fun n trace v hv => h n trace (.done v) hv

theorem of_asks {P : Request → Prop} (h : Asks P x) :
    Yields x fun _ trace => ∀ e ∈ trace, P e.request := fun _ _ _ hv => (h.of_path hv).1

/-- A result that may be missing exchanges nothing. -/
theorem ofExcept (r : Except Fault α) : Yields (Program.ofExcept r) fun _ trace => trace = [] := by
  cases r with
  | ok v => exact done rfl
  | error c =>
      intro n trace v hv
      cases hv

theorem bind (hx : Yields x after)
    (hf : ∀ v t, after v t → Yields (f v) fun w t' => result w (t ++ t')) :
    Yields (x.bind f) result := by
  intro n trace w hw
  rcases hw.of_bind with ⟨y, -, hne, hy⟩ | ⟨i, j, v, t, t', -, rfl, hv, hw⟩
  · obtain ⟨v, rfl, -⟩ := bind_eq_done hy.symm
    exact absurd rfl (hne v)
  · exact hf v t (hx i t v hv) j t' w hw

theorem map {g : α → β} (hx : Yields x after) (hg : ∀ v t, after v t → result (g v) t) :
    Yields (x.bind fun v => .done (g v)) result := by
  refine hx.bind fun v t h => done ?_
  rw [List.append_nil]
  exact hg v t h

theorem mono {after' : α → List Exchange → Prop} (hx : Yields x after)
    (h : ∀ v t, after v t → after' v t) : Yields x after' :=
  fun n trace v hv => h v trace (hx n trace v hv)

end Yields

/-! ## Turns one after another -/

variable {turn : γ → Program γ} {g g' g'' : γ}

/-- These exchanges are turns that have ended, each from the state that the one before it
handed on. -/
inductive Rounds (turn : γ → Program γ) : γ → List (List Exchange) → γ → Prop
  | nil (g : γ) : Rounds turn g [] g
  | cons {n : Nat} {g g' g'' : γ} {first : List Exchange} {rest : List (List Exchange)}
      (hfirst : Path n (turn g) first (.done g')) (hrest : Rounds turn g' rest g'') :
      Rounds turn g (first :: rest) g''

/-- A path of a program that goes on forever is turns that have ended, and the beginning of
one more. -/
theorem exists_rounds_of_forever {n : Nat} {trace : List Exchange} {y : Program Empty}
    (h : Path n (forever g turn) trace y) :
    ∃ rounds g' current i z, trace = rounds.flatten ++ current ∧ Rounds turn g rounds g' ∧
      Path i (turn g') current z := by
  -- The induction is on the steps, since a turn may exchange nothing.
  induction n using Nat.strongRecOn generalizing g trace with
  | _ n ih =>
      cases h with
      | refl => exact ⟨[], g, [], 0, turn g, rfl, .nil g, .refl _⟩
      | @loop m _ _ _ _ _ _ _ h =>
          rw [bind_assoc] at h
          rcases h.of_bind with ⟨z, hz, -, -⟩ | ⟨i, j, v, first, rest, rfl, rfl, hfirst, hrest⟩
          · exact ⟨[], g, trace, m, z, rfl, .nil g, hz⟩
          · obtain ⟨rounds, g', current, k, z, rfl, hrounds, hcurrent⟩ := ih j (by omega) hrest
            exact ⟨first :: rounds, g', current, k, z, (List.append_assoc _ _ _).symm,
              .cons hfirst hrounds, hcurrent⟩

end BoardSupport.Program

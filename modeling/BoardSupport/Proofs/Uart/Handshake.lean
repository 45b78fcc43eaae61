import BoardSupport.Proofs.Uart.Transfers

/-!
# Transfers one after another, on any hardware

Any sequence of the UART's transfers, at any point of any run, whatever the hardware
answers and whether the last call ever returns: the data register is accessed only right
after the status allowed it, what was written is the beginning of what was asked for, and
what was read has been handed to the callers (`transfers_keep_handshake`).

The calls that have returned and the one under way are told apart on the paths of the
program (`CallUnderway`); the run on a platform follows.
-/

namespace BoardSupport.Uart

open Program
open Fifo (Moves Handshake)

variable {σ : Type} (u : Uart)

/-- Answered so, the transfers have handed the bytes they took to their callers. -/
inductive DeliversAll : List Transfer → List Answer → List UInt8 → Prop
  | nil : DeliversAll [] [] []
  | cons {transfer : Transfer} {answer : Answer} {taken more : List UInt8}
      {transfers : List Transfer} {answers : List Answer} (h : transfer.Delivers answer taken)
      (hrest : DeliversAll transfers answers more) :
      DeliversAll (transfer :: transfers) (answer :: answers) (taken ++ more)

/-- The first transfers have returned and delivered; the next one is under way and can
still hand over what it has taken. -/
inductive CallUnderway : List Transfer → List Exchange → Prop
  | mk {completed rest : List Transfer} {call : Transfer} {answers : List Answer}
      {taken sent more : List UInt8} {before now : List Exchange} {n : Nat}
      (returned : Path n (u.performAll (completed.map .transfer)) before (.done answers))
      (delivers : DeliversAll completed answers taken)
      (hbefore : Moves u.block (completed.flatMap Transfer.outgoing) taken before)
      (hsent : sent <+: call.outgoing) (awaits : call.Awaits more)
      (hnow : Moves u.block sent more now) :
      CallUnderway (completed ++ call :: rest) (before ++ now)

variable {u}

theorem CallUnderway.first {call : Transfer} {rest : List Transfer} {sent taken : List UInt8}
    {now : List Exchange} (hsent : sent <+: call.outgoing) (awaits : call.Awaits taken)
    (hnow : Moves u.block sent taken now) : u.CallUnderway (call :: rest) now := by
  have h : u.CallUnderway ([] ++ call :: rest) ([] ++ now) :=
    .mk (.refl _) .nil .nil hsent awaits hnow
  exact h

/-- One more transfer has returned before. -/
theorem CallUnderway.cons {transfers : List Transfer} {trace : List Exchange}
    (h : u.CallUnderway transfers trace) {first : Transfer} {answer : Answer}
    {taken : List UInt8} {before : List Exchange} {n : Nat}
    (hpath : Path n (u.move first) before (.done answer)) (hdelivers : first.Delivers answer taken)
    (hmoves : Moves u.block first.outgoing taken before) :
    u.CallUnderway (first :: transfers) (before ++ trace) := by
  cases h with
  | @mk completed _ _ answers _ _ _ before' _ m returned delivers hbefore hsent awaits hnow =>
      have hcalls : Path (m + 0) ((u.performAll (completed.map .transfer)).bind fun answers =>
          .done (answer :: answers)) (before' ++ []) (.done (answer :: answers)) :=
        returned.bind (.refl _)
      rw [List.append_nil] at hcalls
      rw [← List.append_assoc, ← List.cons_append]
      exact .mk (hpath.bind hcalls) (.cons hdelivers delivers) (hmoves.append hbefore) hsent awaits
        hnow

variable (u)

/-- Transfers one after another: one of them is under way, or all have delivered. -/
theorem behaves_performAll (transfers : List Transfer) :
    Behaves (u.performAll (transfers.map .transfer)) (u.CallUnderway transfers) fun answers t =>
      ∃ taken, DeliversAll transfers answers taken ∧
        Moves u.block (transfers.flatMap Transfer.outgoing) taken t := by
  induction transfers with
  | nil => exact Behaves.done ⟨[], .nil, .nil⟩
  | cons first rest ih =>
      refine (u.behaves_move first).with_path.bind ?_ ?_
      · rintro t ⟨sent, taken, hsent, hawaits, h⟩
        exact .first hsent hawaits h
      · rintro answer t ⟨⟨taken, hdelivers, hmoves⟩, n, hpath⟩
        refine (ih.mono (fun t' h => h.cons hpath hdelivers hmoves) fun _ _ h => h).map ?_
        rintro answers t' ⟨more, hrest, hmore⟩
        exact ⟨taken ++ more, .cons hdelivers hrest, hmoves.append hmore⟩

/-- **The UART's handshake is safe on any hardware.** At every point of a run of
transfers, however the hardware answers and whether or not the last call returns: each
access of the data register comes right after the status allowed it, and only the status
is accessed besides; what has been written is the beginning of what was asked for, in
order. Either all calls have returned, and then all bytes were written and each byte
read was delivered; or some have returned and delivered theirs, and the one under way has
taken the others and still waits for room, for a byte or for more of them. -/
theorem transfers_keep_handshake (p : Platform σ) (s : Recorded σ) (transfers : List Transfer)
    (n : Nat) :
    let run := u.performAll (transfers.map .transfer)
    let now := advance p.recorded n run s
    let requested := (transfers.flatMap Transfer.outgoing).map UInt8.toUInt32
    ∃ trace, now.2.trace.toList = s.trace.toList ++ trace ∧ Handshake u.block trace ∧
      trace.filterMap (Exchange.wroteTo? u.block .data) <+: requested ∧
      ((∃ answers, now.1 = .done answers ∧
          trace.filterMap (Exchange.wroteTo? u.block .data) = requested ∧
          DeliversAll transfers answers
            ((trace.filterMap (Exchange.readOf? u.block .data)).map UInt32.toUInt8)) ∨
        (¬ now.1.Finished ∧ ∃ completed call rest answers taken more t,
          transfers = completed ++ call :: rest ∧
          Returns p.recorded (u.performAll (completed.map .transfer)) s answers t ∧
          DeliversAll completed answers taken ∧ call.Awaits more ∧
          (trace.filterMap (Exchange.readOf? u.block .data)).map UInt32.toUInt8
            = taken ++ more)) := by
  intro run now requested
  obtain ⟨trace, hans, h⟩ := (u.behaves_performAll transfers).of_advance p.recorded n s
  refine ⟨trace, hans.recorded, ?_⟩
  rcases h with ⟨answers, hdone, taken, hdelivers, hmoves⟩ | ⟨hrunning, hunderway⟩
  · refine ⟨hmoves.handshake, ?_, Or.inl ⟨answers, hdone, hmoves.wroteTo, ?_⟩⟩
    · exact hmoves.wroteTo ▸ List.prefix_rfl
    · rw [hmoves.readOf]
      exact hdelivers
  · obtain ⟨returned, delivers, hbefore, hsent, awaits, hnow⟩ := hunderway
    obtain ⟨t, hans, -⟩ := Answered.append_iff.mp hans
    have hmoves := hbefore.append hnow
    refine ⟨hmoves.handshake, ?_, Or.inr ⟨hrunning, _, _, _, _, _, _, t, rfl,
      hans.returns returned, delivers, awaits, hmoves.readOf⟩⟩
    rw [hmoves.wroteTo]
    refine List.IsPrefix.map _ ?_
    rw [List.flatMap_append, List.flatMap_cons, List.prefix_append_right_inj]
    exact hsent.trans (List.prefix_append _ _)

end BoardSupport.Uart

import BoardSupport.Fifo.Register
import BoardSupport.Proofs.Csr.Interrupts
import BoardSupport.Proofs.Program.Requests

/-!
# Guarded resources

A block and the handler slot are guarded when a program uses them only between masking
the interrupts and giving the enable back. Where a program stands is its `Stage`, and
`Stage.Step` lists the exchanges that are allowed there; `Guards b x st Q` says that on
every path, whatever the replies, the exchanges of `x` from `st` are allowed ones and lead
to a stage with `Q` when it returns. A program may fail in the middle of a section, since
nothing is said of what does not come back. The rules follow the constructors, and a
critical section needs to know its body only (`Guards.criticalSection`).

In one masked stretch the received bytes are asked for once at most, so a wait for input
has to open its section between two polls (`Follows.exists_notice`).
-/

namespace BoardSupport

open Program

/-- The request uses a register of `b`, or the handler slot. -/
def Request.Guarded (b : Block) : Request → Prop
  | .load b' _ => b' = b
  | .store b' _ _ => b' = b
  | .handlerSlot => True
  | .setHandlerSlot _ => True
  | _ => False

/-- A poll for received bytes. -/
def Block.pollRx (b : Block) : Request := .load b (Fifo.Register.status .rx).offset

/-! ## Stages -/

/-- Where a program stands with the interrupt enable. -/
inductive Stage
  /-- The enable is as it was at the start. -/
  | outside
  /-- The enable has been read. -/
  | noticed (enabled : Bool)
  /-- The enable is cleared; it will be given back if it was set. -/
  | inside (enabled polled : Bool)

namespace Stage

/-- Outside of a section. A section that found interrupts disabled ends without a trace. -/
def Resting : Stage → Prop
  | .outside => True
  | .noticed _ => False
  | .inside enabled _ => enabled = false

/-- Inside of a section, where a lock may be held. -/
def Holding : Stage → Prop
  | .inside _ _ => True
  | _ => False

/-- The exchanges that are allowed, and the stage after them. -/
inductive Step (b : Block) : Stage → Exchange → Stage → Prop
  | askFilter {st : Stage} (filter : LogFilter) (h : st.Resting) : Step b st ⟨.logFilter, filter⟩ st
  | setFilter {st : Stage} (filter : LogFilter) (h : st.Resting) :
      Step b st ⟨.setLogFilter filter, ()⟩ st
  | notice {st : Stage} (status : UInt32) (h : st.Resting) :
      Step b st ⟨.readCsr .mstatus, status⟩ (.noticed (status &&& Csr.interruptEnable != 0))
  | mask (enabled : Bool) :
      Step b (.noticed enabled) ⟨.updateCsr .mstatus (.clearBits Csr.interruptEnable), .ok ()⟩
        (.inside enabled false)
  | refuse (enabled : Bool) (e : DriverError) :
      Step b (.noticed enabled) ⟨.updateCsr .mstatus (.clearBits Csr.interruptEnable), .error e⟩
        .outside
  | use {r : Request} (enabled polled : Bool) (v : r.Reply) (hr : r.Guarded b)
      (hpoll : r ≠ b.pollRx) : Step b (.inside enabled polled) ⟨r, v⟩ (.inside enabled polled)
  | poll (enabled : Bool) (word : UInt32) :
      Step b (.inside enabled false) ⟨b.pollRx, word⟩ (.inside enabled true)
  | restore (polled : Bool) (result : Except DriverError Unit) :
      Step b (.inside true polled) ⟨.updateCsr .mstatus (.setBits Csr.interruptEnable), result⟩
        .outside

/-- The exchanges are allowed, one after another. -/
inductive Follows (b : Block) : Stage → List Exchange → Stage → Prop
  | nil (st : Stage) : Follows b st [] st
  | cons {st mid left : Stage} {e : Exchange} {trace : List Exchange} (h : Step b st e mid)
      (rest : Follows b mid trace left) : Follows b st (e :: trace) left

variable {b : Block} {st mid left : Stage} {before rest trace : List Exchange} {e : Exchange}

theorem follows_append : Follows b st (before ++ rest) left ↔
    ∃ mid, Follows b st before mid ∧ Follows b mid rest left := by
  constructor
  · intro h
    induction before generalizing st with
    | nil => exact ⟨st, .nil st, h⟩
    | cons e before ih =>
        cases h with
        | cons hstep h =>
            obtain ⟨mid, hbefore, hrest⟩ := ih h
            exact ⟨mid, .cons hstep hbefore, hrest⟩
  · rintro ⟨mid, hbefore, hrest⟩
    induction hbefore with
    | nil _ => exact hrest
    | cons hstep _ ih => exact .cons hstep (ih hrest)

/-- What is guarded is used inside a section. -/
theorem Step.inside_of_guarded (h : Step b st e mid) (he : e.request.Guarded b) :
    ∃ enabled polled, st = .inside enabled polled := by
  cases h with
  | use enabled polled _ _ _ => exact ⟨enabled, polled, rfl⟩
  | poll enabled _ => exact ⟨enabled, false, rfl⟩
  | _ => exact he.elim

/-- The poll of this stretch has been made, or there is no stretch. -/
def Spent : Stage → Prop
  | .outside => True
  | .noticed _ => False
  | .inside _ polled => polled = true

theorem Step.spent (h : Step b st e mid) (hst : st.Spent) (he : e.request ≠ .readCsr .mstatus) :
    mid.Spent := by
  cases h with
  | notice status _ => exact absurd rfl he
  | restore polled result => trivial
  | poll enabled word => rfl
  | mask enabled => exact hst.elim
  | refuse enabled e => trivial
  | _ => exact hst

theorem Step.spent_of_poll (h : Step b st e mid) (he : e.request = b.pollRx) : mid.Spent := by
  cases h with
  | use enabled polled v hr hpoll => exact absurd he hpoll
  | poll enabled word => rfl
  | _ => cases he

/-- Between two polls the enable is read anew. -/
theorem Follows.exists_notice (h : Follows b st (trace ++ [e]) left) (hst : st.Spent)
    (he : e.request = b.pollRx) : ∃ e' ∈ trace, e'.request = .readCsr .mstatus := by
  induction trace generalizing st with
  | nil =>
      cases h with
      | cons hstep _ =>
          cases hstep with
          | poll enabled word => cases hst
          | use enabled polled v hr hpoll => exact absurd he hpoll
          | _ => cases he
  | cons e' trace ih =>
      cases h with
      | cons hstep hrest =>
          by_cases he' : e'.request = .readCsr .mstatus
          · exact ⟨e', List.mem_cons_self, he'⟩
          · obtain ⟨e'', hmem, he''⟩ := ih hrest (hstep.spent hst he')
            exact ⟨e'', List.mem_cons_of_mem _ hmem, he''⟩

end Stage

/-! ## Programs -/

open Stage

variable {α β : Type} {b : Block} {st : Stage}

/-- On every path from `st` the exchanges of the program are allowed, and where it has
returned, its result and stage satisfy `Q`. -/
def Guards (b : Block) (x : Program α) (st : Stage) (Q : α → Stage → Prop) : Prop :=
  ∀ n trace y, Path n x trace y → ∃ left, Follows b st trace left ∧ ∀ v, y = .done v → Q v left

namespace Guards

variable {x : Program α} {Q Q' : α → Stage → Prop} {R : β → Stage → Prop}

theorem mono (h : Guards b x st Q) (hQ : ∀ v left, Q v left → Q' v left) : Guards b x st Q' := by
  intro n trace y hy
  obtain ⟨left, hleft, hv⟩ := h n trace y hy
  exact ⟨left, hleft, fun v hdone => hQ v left (hv v hdone)⟩

theorem done {v : α} (h : Q v st) : Guards b (.done v) st Q := by
  intro n trace y hy
  cases hy
  refine ⟨st, .nil st, fun w hw => ?_⟩
  cases hw
  exact h

/-- A program that fails does not come back. -/
theorem fault (c : Fault) : Guards b (.fault c) st Q := by
  intro n trace y hy
  cases hy
  exact ⟨st, .nil st, fun v hv => nomatch hv⟩

theorem ofExcept (result : Except Fault α) (h : ∀ v, Q v st) :
    Guards b (Program.ofExcept result) st Q := by
  cases result with
  | ok v => exact done (h v)
  | error c => exact fault c

theorem ask {r : Request} {k : r.Reply → Program α}
    (h : ∀ v, ∃ mid, Step b st ⟨r, v⟩ mid ∧ Guards b (k v) mid Q) : Guards b (.ask r k) st Q := by
  intro n trace y hy
  cases hy with
  | refl => exact ⟨st, .nil st, fun v hv => nomatch hv⟩
  | ask v hy =>
      obtain ⟨mid, hstep, hk⟩ := h v
      obtain ⟨left, hleft, hv⟩ := hk _ _ y hy
      exact ⟨left, .cons hstep hleft, hv⟩

theorem request {r : Request} {Q : r.Reply → Stage → Prop}
    (h : ∀ v, ∃ mid, Step b st ⟨r, v⟩ mid ∧ Q v mid) : Guards b (Program.request r) st Q := by
  refine ask fun v => ?_
  obtain ⟨mid, hstep, hQ⟩ := h v
  exact ⟨mid, hstep, done hQ⟩

theorem bind {f : α → Program β} (hx : Guards b x st Q)
    (hf : ∀ v mid, Q v mid → Guards b (f v) mid R) : Guards b (x.bind f) st R := by
  intro n trace z hz
  rcases hz.of_bind with ⟨y, hy, hne, rfl⟩ | ⟨i, j, v, before, rest, -, rfl, hv, hz⟩
  · obtain ⟨left, hleft, -⟩ := hx n trace y hy
    refine ⟨left, hleft, fun w hw => ?_⟩
    obtain ⟨v, hv, -⟩ := bind_eq_done hw
    exact absurd hv (hne v)
  · obtain ⟨mid, hmid, hQ⟩ := hx i before _ hv
    obtain ⟨left, hleft, hR⟩ := hf v mid (hQ v rfl) j rest z hz
    exact ⟨left, follows_append.mpr ⟨mid, hmid, hleft⟩, hR⟩

/-- What holds before every attempt of a polling loop. -/
theorem poll {I : Stage → Prop} {attempt : Program (Option β)} {Q : β → Stage → Prop}
    (hattempt : ∀ st, I st → Guards b attempt st fun v left => match v with
      | none => I left
      | some w => Q w left) (hI : I st) : Guards b (poll attempt) st Q := by
  -- The induction is on the steps, since an attempt may exchange nothing.
  intro n
  induction n using Nat.strongRecOn generalizing st with
  | _ n ih =>
      intro trace y hy
      cases hy with
      | refl => exact ⟨st, .nil st, fun v hv => nomatch hv⟩
      | @loop m _ _ _ _ _ _ _ hy =>
          rw [bind_assoc] at hy
          rcases hy.of_bind with ⟨z, hz, hne, rfl⟩ | ⟨i, j, v, before, rest, rfl, rfl, hv, hy⟩
          · obtain ⟨left, hleft, -⟩ := hattempt st hI _ _ z hz
            refine ⟨left, hleft, fun w hw => ?_⟩
            obtain ⟨v, hv, -⟩ := bind_eq_done hw
            exact absurd hv (hne v)
          · obtain ⟨mid, hmid, hQ⟩ := hattempt st hI _ _ _ hv
            have hQ := hQ v rfl
            cases v with
            | none =>
                obtain ⟨left, hleft, hR⟩ := ih j (by omega) hQ rest y hy
                exact ⟨left, follows_append.mpr ⟨mid, hmid, hleft⟩, hR⟩
            | some w =>
                obtain ⟨left, hleft, hR⟩ := (done hQ : Guards b (.done w) mid Q) j rest y hy
                exact ⟨left, follows_append.mpr ⟨mid, hmid, hleft⟩, hR⟩

/-- Inside a section what is guarded may be used in any way, but for polls. -/
theorem inside {enabled polled : Bool}
    (hx : Asks (fun r => r.Guarded b ∧ r ≠ b.pollRx) x) :
    Guards b x (.inside enabled polled) fun _ left => left = .inside enabled polled := by
  intro n trace y hy
  have htrace := (hx.of_path hy).1
  refine ⟨.inside enabled polled, ?_, fun v _ => rfl⟩
  clear hy
  induction trace with
  | nil => exact .nil _
  | cons e trace ih =>
      obtain ⟨hr, hpoll⟩ := htrace e List.mem_cons_self
      exact .cons (.use enabled polled e.reply hr hpoll)
        (ih fun e' he' => htrace e' (List.mem_cons_of_mem _ he'))

/-- A section masks before its body and gives the enable back after it. -/
theorem criticalSection {body : Program α} (hst : st.Resting)
    (hbody : ∀ enabled, Guards b body (.inside enabled false)
      fun _ left => ∃ polled, left = .inside enabled polled) :
    Guards b (Interrupts.criticalSection body) st fun _ left => left.Resting := by
  rw [Interrupts.criticalSection_eq]
  have hdisable : Guards b Interrupts.disable st fun result left =>
      (∀ e, result = .error e → left = .outside) ∧
      ∀ enabled, result = .ok enabled → left = .inside enabled false := by
    refine ask fun status => ⟨_, .notice status hst, ask fun result => ?_⟩
    cases result with
    | ok _ =>
        refine ⟨_, .mask _, done ⟨fun e he => ?_, fun enabled h => ?_⟩⟩
        · cases he
        · rw [Except.ok.inj h]
    | error e =>
        refine ⟨_, .refuse _ e, done ⟨fun _ _ => rfl, fun enabled h => ?_⟩⟩
        cases h
  refine hdisable.bind fun result mid hmid => ?_
  cases result with
  | error e =>
      obtain rfl : mid = .outside := hmid.1 e rfl
      exact done trivial
  | ok enabled =>
      obtain rfl : mid = .inside enabled false := hmid.2 enabled rfl
      refine (hbody enabled).bind fun v left hleft => ?_
      obtain ⟨polled, rfl⟩ := hleft
      cases enabled with
      | false => exact done rfl
      | true =>
          refine ask fun result => ⟨_, .restore polled result, ?_⟩
          cases result with
          | ok _ => exact done trivial
          | error e => exact done trivial

end Guards

end BoardSupport

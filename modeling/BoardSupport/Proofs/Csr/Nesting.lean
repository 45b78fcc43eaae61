import BoardSupport.Device.Storage
import BoardSupport.Proofs.Csr.Interrupts
import BoardSupport.Proofs.Program.Refinement

/-!
# Critical sections in each other

`Nest` is the syntax of programs that put operations one after another and into critical
sections, to any depth. A nest is run as it stands (`Nest.program`) or with all its
sections opened (`Nest.erase`).

The operations may do anything to the hart but use its interrupt enable: they neither
change it nor act by it (`Indifferent`). Then the two runs return the same and leave the
same hart (`Nest.returns_program_iff`). In between, every state is inside of a section or
outside of all of them (`Nest.passes_program`); inside interrupts are masked, and outside
the enable is what it was at the start (`Nest.interruptsEnabled_of_passes`).
-/

namespace BoardSupport

open Program Interrupts

variable {δ α β : Type} {p : Platform (Machine δ)} {bus : Bus δ} {m m' s : Machine δ}

/-! ## Operations that do not use the enable -/

/-- The operation keeps the interrupt enable at every point, and does to the hart with the
enable put elsewhere what it does to the hart as it is. -/
structure Indifferent (p : Platform (Machine δ)) (x : Program α) : Prop where
  keeps : ∀ m, m.csrs.refusal .mstatus = none →
    Throughout p x m fun s => s.interruptsEnabled = m.interruptsEnabled
  ignores : ∀ m v m' enabled, m.csrs.refusal .mstatus = none → Returns p x m v m' →
    Returns p x (m.withEnable enabled) v (m'.withEnable enabled)

/-- What can be written stays so. -/
theorem Program.Returns.writable {x : Program α} {v : α} (h : Returns p x m v m')
    (hp : p.HoldsStatus) (hm : m.csrs.refusal .mstatus = none) :
    m'.csrs.refusal .mstatus = none := by
  obtain ⟨trace, n, -, hanswered⟩ := h.exists_completes
  exact hanswered.kept hp.writable hm

namespace Indifferent

theorem done (v : α) : Indifferent p (.done v) where
  keeps _ _ := Throughout.done rfl
  ignores _ _ _ _ _ h := by
    obtain ⟨rfl, rfl⟩ := returns_done.mp h
    exact returns_done.mpr ⟨rfl, rfl⟩

theorem bind {x : Program α} {f : α → Program β} (hp : p.HoldsStatus) (hx : Indifferent p x)
    (hf : ∀ v, Indifferent p (f v)) : Indifferent p (x.bind f) where
  keeps m hm := by
    refine (hx.keeps m hm).bind fun v t hv => ?_
    have ht : t.interruptsEnabled = m.interruptsEnabled := (hx.keeps m hm).finish hv
    exact ((hf v).keeps t (hv.writable hp hm)).mono fun s hs => hs.trans ht
  ignores m w u enabled hm h := by
    obtain ⟨v, t, hv, hw⟩ := returns_bind.mp h
    exact (hx.ignores m v t enabled hm hv).bind
      ((hf v).ignores t w u enabled (hv.writable hp hm) hw)

end Indifferent

/-! ### On a hart -/

/-- The request does not use the interrupt enable: `mstatus` is not read, and only single
bits of it are changed, not the enable. -/
def Request.SparesEnable : Request → Prop
  | .readCsr c => c ≠ .mstatus
  | .updateCsr c (.write _) => c ≠ .mstatus
  | .updateCsr c (.setBits mask) => c = .mstatus → bitAt mask 3 = false
  | .updateCsr c (.clearBits mask) => c = .mstatus → bitAt mask 3 = false
  | _ => True

theorem Machine.withEnable_setCsr (m : Machine δ) {c : Csr} (hc : c ≠ .mstatus) (v : UInt32)
    (enabled : Bool) : (m.setCsr c v).withEnable enabled = (m.withEnable enabled).setCsr c v := by
  rw [withEnable, get_setCsr_of_ne _ _ hc, setCsr_comm _ _ _ hc, withEnable]

/-- An update of the other bits is the same wherever the enable is put. -/
theorem Csr.putEnable_apply {op : CsrUpdate} (h : (Request.updateCsr .mstatus op).SparesEnable)
    (status : UInt32) (enabled : Bool) :
    putEnable (op.apply status) enabled = op.apply (putEnable status enabled) := by
  refine eq_of_bitAt fun i _ => ?_
  cases op with
  | write value => exact absurd rfl h
  | setBits mask =>
      have hmask : bitAt mask 3 = false := h rfl
      simp only [CsrUpdate.apply, bitAt_putEnable, bitAt_or]
      by_cases hi : i = 3
      · rw [if_pos hi, if_pos hi, hi, hmask, Bool.or_false]
      · rw [if_neg hi, if_neg hi]
  | clearBits mask =>
      have hmask : bitAt mask 3 = false := h rfl
      simp only [CsrUpdate.apply, bitAt_putEnable, bitAt_and_not]
      by_cases hi : i = 3
      · rw [if_pos hi, if_pos hi, hi, hmask, Bool.not_false, Bool.and_true]
      · rw [if_neg hi, if_neg hi]

namespace Machine

/-- What a request does that does not use the enable, it does with the enable put anywhere. -/
theorem platform_withEnable {r : Request} {v : r.Reply} (hr : r.SparesEnable) (enabled : Bool)
    (h : platform bus r m = .returned v m') :
    platform bus r (m.withEnable enabled) = .returned v (m'.withEnable enabled) := by
  cases r with
  | load b offset =>
      obtain ⟨d, hd, rfl⟩ := exists_of_platform_load h
      exact platform_load hd
  | store b offset value =>
      obtain ⟨d, hd, rfl⟩ := exists_of_platform_store h
      exact platform_store hd
  | readCsr c =>
      have hread : (m.withEnable enabled).csrs.file.get c = m.csrs.file.get c :=
        get_setCsr_of_ne m _ (Ne.symm hr)
      have hafter : (m.afterCsrRead c).withEnable enabled
          = (m.withEnable enabled).afterCsrRead c := by
        cases c with
        | cycle =>
            obtain ⟨device, csrs, cycles, filter, handler⟩ := m
            cases cycles with
            | nil => rfl
            | cons next rest =>
                exact withEnable_setCsr ⟨device, csrs, rest, filter, handler⟩ hr next enabled
        | _ => rfl
      cases h
      rw [platform, hread, hafter]
  | updateCsr c op =>
      have hrefusal : (m.withEnable enabled).csrs.refusal c = m.csrs.refusal c := rfl
      cases hm : m.csrs.refusal c with
      | some e =>
          rw [platform_updateCsr_refused hm] at h
          cases h
          exact platform_updateCsr_refused (hrefusal.trans hm) op
      | none =>
          rw [platform_updateCsr hm] at h
          cases h
          rw [platform_updateCsr (hrefusal.trans hm)]
          by_cases hc : c = .mstatus
          · subst hc
            simp only [withEnable, get_setCsr_self, setCsr_setCsr, Csr.putEnable_apply hr]
          · rw [withEnable_setCsr m hc, withEnable, get_setCsr_of_ne m _ (Ne.symm hc)]
  | waitForInterrupt => cases h
  | _ =>
      cases h
      rfl

end Machine

/-- A program on a hart that does not use the enable in any request is indifferent to it. -/
theorem Indifferent.of_asks {x : Program α} (hx : Asks Request.SparesEnable x) :
    Indifferent (Machine.platform bus) x where
  keeps m hm := by
    refine hx.throughout (fun r s v t hr hs ht => ?_) rfl
    have hsame := Machine.platform_withEnable hr s.interruptsEnabled ht
    rw [Machine.withEnable_eq_self rfl, ht] at hsame
    injection hsame with _ hsame
    rw [← hs, hsame, Machine.interruptsEnabled_withEnable]
  ignores m v m' enabled _ h := by
    have hsim := hx.simulates (q := Machine.platform bus)
      (R := fun s t => t = s.withEnable enabled) ?_ rfl h
    · obtain ⟨t, ht, rfl⟩ := hsim
      exact ht
    · rintro r s w s' _ hr rfl hs
      exact ⟨s'.withEnable enabled, Machine.platform_withEnable hr enabled hs, rfl⟩

/-! ## Nests -/

/-- Operations in sequence and in critical sections. -/
inductive Nest : Type → Type 1
  | operation {α : Type} (x : Program α) : Nest α
  | andThen {α β : Type} (first : Nest α) (second : α → Nest β) : Nest β
  | criticalSection {α : Type} (body : Nest α) : Nest (Except DriverError α)

namespace Nest

/-- The nest as it runs. -/
def program {α : Type} : Nest α → Program α
  | operation x => x
  | andThen first second => first.program.bind fun v => (second v).program
  | criticalSection body => Interrupts.criticalSection body.program

/-- The operations alone, with no section around any of them. -/
def erase {α : Type} : Nest α → Program α
  | operation x => x
  | andThen first second => first.erase.bind fun v => (second v).erase
  | criticalSection body => body.erase.bind fun v => .done (.ok v)

/-- All operations of the nest are indifferent to the interrupt enable. -/
def Indifferent (p : Platform (Machine δ)) {α : Type} : Nest α → Prop
  | operation x => BoardSupport.Indifferent p x
  | andThen first second => first.Indifferent p ∧ ∀ v, (second v).Indifferent p
  | criticalSection body => body.Indifferent p

/-- A run of the nest from `m` comes through `s` inside of a section: after interrupts were
masked for it, and while its body runs. -/
def Inside (p : Platform (Machine δ)) {α : Type} : Nest α → Machine δ → Machine δ → Prop
  | operation _, _, _ => False
  | andThen first second, m, s => first.Inside p m s ∨
    ∃ v m', Returns p first.program m v m' ∧ (second v).Inside p m' s
  | criticalSection body, m, s =>
    ∃ enabled m', Returns p disable m (.ok enabled) m' ∧ Passes p body.program m' s

/-- A run of the nest from `m` comes through `s` outside of all sections: in an operation,
or before or after a section. -/
def Outside (p : Platform (Machine δ)) {α : Type} : Nest α → Machine δ → Machine δ → Prop
  | operation x, m, s => Passes p x m s
  | andThen first second, m, s => first.Outside p m s ∨
    ∃ v m', Returns p first.program m v m' ∧ (second v).Outside p m' s
  | criticalSection body, m, s =>
    s = m ∨ ∃ r, Returns p (Interrupts.criticalSection body.program) m r s

theorem indifferent_erase (hp : p.HoldsStatus) {nest : Nest α} (h : nest.Indifferent p) :
    BoardSupport.Indifferent p nest.erase := by
  induction nest with
  | operation x => exact h
  | andThen first second ihfirst ihsecond =>
      exact (ihfirst h.1).bind hp fun v => ihsecond v (h.2 v)
  | criticalSection body ih => exact (ih h).bind hp fun v => .done _

/-! ### What a nest returns -/

/-- A section around an indifferent program shows nothing of itself when it has ended. -/
theorem returns_criticalSection_indifferent (hp : p.HoldsStatus) {body : Program α}
    (hbody : BoardSupport.Indifferent p body) (h : m.csrs.refusal .mstatus = none)
    {r : Except DriverError α} :
    Returns p (Interrupts.criticalSection body) m r m' ↔
      Returns p (body.bind fun v => .done (.ok v)) m r m' := by
  rw [returns_criticalSection_iff hp h, returns_map]
  constructor
  · rintro ⟨v, left, hv, rfl, rfl⟩
    have hmasked : left.interruptsEnabled = false :=
      ((hbody.keeps m.masked h).finish hv).trans m.interruptsEnabled_masked
    have hback := hbody.ignores m.masked v left m.interruptsEnabled h hv
    rw [Machine.withEnable_masked, Machine.withEnable_eq_self rfl] at hback
    rw [hmasked, Bool.or_false]
    exact ⟨v, rfl, hback⟩
  · rintro ⟨v, rfl, hv⟩
    have hkept : m'.interruptsEnabled = m.interruptsEnabled := (hbody.keeps m h).finish hv
    refine ⟨v, m'.masked, hbody.ignores m v m' false h hv, rfl, ?_⟩
    rw [m'.interruptsEnabled_masked, Bool.or_false, Machine.withEnable_masked, ← hkept,
      Machine.withEnable_eq_self rfl]

/-- A nest returns what its operations alone return, and leaves the hart as they do. -/
theorem returns_program_iff (hp : p.HoldsStatus) {nest : Nest α} (hnest : nest.Indifferent p)
    (h : m.csrs.refusal .mstatus = none) {v : α} :
    Returns p nest.program m v m' ↔ Returns p nest.erase m v m' := by
  induction nest generalizing m m' with
  | operation x => rfl
  | andThen first second ihfirst ihsecond =>
      rw [program, erase, returns_bind, returns_bind]
      constructor
      · rintro ⟨w, left, hw, hv⟩
        exact ⟨w, left, (ihfirst hnest.1 h).mp hw,
          (ihsecond w (hnest.2 w) (hw.writable hp h)).mp hv⟩
      · rintro ⟨w, left, hw, hv⟩
        exact ⟨w, left, (ihfirst hnest.1 h).mpr hw,
          (ihsecond w (hnest.2 w) (hw.writable hp h)).mpr hv⟩
  | criticalSection body ih =>
      have hbody : body.Indifferent p := hnest
      rw [program, erase, ← returns_criticalSection_indifferent hp (indifferent_erase hp hbody) h,
        returns_criticalSection_iff hp h, returns_criticalSection_iff hp h]
      -- Both sections run their bodies from the masked hart.
      constructor
      · rintro ⟨w, left, hw, hrest⟩
        exact ⟨w, left, (ih (m := m.masked) hbody h).mp hw, hrest⟩
      · rintro ⟨w, left, hw, hrest⟩
        exact ⟨w, left, (ih (m := m.masked) hbody h).mpr hw, hrest⟩

/-- The enable is where it was when a nest has returned. -/
theorem interruptsEnabled_of_returns (hp : p.HoldsStatus) {nest : Nest α}
    (hnest : nest.Indifferent p) (h : m.csrs.refusal .mstatus = none) {v : α}
    (hv : Returns p nest.program m v m') : m'.interruptsEnabled = m.interruptsEnabled :=
  ((indifferent_erase hp hnest).keeps m h).finish ((returns_program_iff hp hnest h).mp hv)

/-! ### What a run of a nest comes through -/

theorem throughout_disable (hp : p.HoldsStatus) (h : m.csrs.refusal .mstatus = none) :
    Throughout p disable m fun s => s = m ∨ s = m.masked := by
  refine Throughout.ask (Or.inl rfl) fun status t ht => ?_
  cases (hp.read m).symm.trans ht
  refine Throughout.ask (Or.inl rfl) fun result t ht => ?_
  cases (hp.update _ m h).symm.trans ht
  exact Throughout.done (Or.inr rfl)

theorem throughout_restore (hp : p.HoldsStatus) (h : m.csrs.refusal .mstatus = none)
    (enabled : Bool) (v : α) : Throughout p (restore enabled v) m
      fun s => s = m ∨ s = m.withEnable (enabled || m.interruptsEnabled) := by
  cases enabled with
  | false => exact Throughout.done (Or.inl rfl)
  | true =>
      refine Throughout.ask (Or.inl rfl) fun result t ht => ?_
      cases (hp.update _ m h).symm.trans ht
      exact Throughout.done (Or.inr rfl)

/-- A run of a section comes through its start, the states of its body, and its end. -/
theorem passes_criticalSection (hp : p.HoldsStatus) (h : m.csrs.refusal .mstatus = none)
    {body : Program α} : Passes p (Interrupts.criticalSection body) m s ↔
      (∃ enabled m', Returns p disable m (.ok enabled) m' ∧ Passes p body m' s) ∨
        s = m ∨ ∃ r, Returns p (Interrupts.criticalSection body) m r s := by
  have hdisable := (completes_disable hp h).returns
  constructor
  · rw [criticalSection_eq]
    intro hs
    rcases passes_bind.mp hs with hs | ⟨result, masked, hmasked, hs⟩
    · rcases (throughout_disable hp h).of_passes hs with rfl | rfl
      · exact Or.inr (Or.inl rfl)
      · exact Or.inl ⟨_, _, hdisable, .start⟩
    · obtain ⟨rfl, rfl⟩ := hmasked.unique hdisable
      rcases passes_bind.mp hs with hs | ⟨v, left, hv, hs⟩
      · exact Or.inl ⟨_, _, hdisable, hs⟩
      · have hleft : left.csrs.refusal .mstatus = none := hv.writable hp h
        rcases (throughout_restore hp hleft _ v).of_passes hs with rfl | rfl
        · exact Or.inl ⟨_, _, hdisable, hv.passes⟩
        · exact Or.inr (Or.inr ⟨.ok v, hdisable.bind
            (hv.bind (completes_restore hp hleft m.interruptsEnabled v).returns)⟩)
  · rintro (⟨enabled, m', hm', hs⟩ | rfl | ⟨r, hr⟩)
    · rw [criticalSection_eq]
      exact passes_bind.mpr (Or.inr ⟨_, _, hm', passes_bind.mpr (Or.inl hs)⟩)
    · exact .start
    · exact hr.passes

/-- Every state of a run is inside of a section or outside of all of them. -/
theorem passes_program (hp : p.HoldsStatus) {nest : Nest α} (h : m.csrs.refusal .mstatus = none) :
    Passes p nest.program m s ↔ nest.Inside p m s ∨ nest.Outside p m s := by
  induction nest generalizing m with
  | operation x => exact ⟨Or.inr, fun hs => hs.resolve_left id⟩
  | andThen first second ihfirst ihsecond =>
      rw [program, passes_bind, ihfirst h, Inside, Outside]
      constructor
      · rintro ((hs | hs) | ⟨v, left, hv, hs⟩)
        · exact Or.inl (Or.inl hs)
        · exact Or.inr (Or.inl hs)
        · rcases (ihsecond v (hv.writable hp h)).mp hs with hs | hs
          · exact Or.inl (Or.inr ⟨v, left, hv, hs⟩)
          · exact Or.inr (Or.inr ⟨v, left, hv, hs⟩)
      · rintro ((hs | ⟨v, left, hv, hs⟩) | (hs | ⟨v, left, hv, hs⟩))
        · exact Or.inl (Or.inl hs)
        · exact Or.inr ⟨v, left, hv, (ihsecond v (hv.writable hp h)).mpr (Or.inl hs)⟩
        · exact Or.inl (Or.inr hs)
        · exact Or.inr ⟨v, left, hv, (ihsecond v (hv.writable hp h)).mpr (Or.inr hs)⟩
  | criticalSection body _ => exact passes_criticalSection hp h

/-- Outside of all sections the enable is what it was, and inside interrupts are masked. -/
theorem interruptsEnabled_of_passes (hp : p.HoldsStatus) {nest : Nest α}
    (hnest : nest.Indifferent p) (h : m.csrs.refusal .mstatus = none) :
    (nest.Inside p m s → s.interruptsEnabled = false) ∧
      (nest.Outside p m s → s.interruptsEnabled = m.interruptsEnabled) := by
  induction nest generalizing m with
  | operation x => exact ⟨False.elim, (hnest.keeps m h).of_passes⟩
  | andThen first second ihfirst ihsecond =>
      have hsecond : ∀ v left, Returns p first.program m v left →
          ((second v).Inside p left s → s.interruptsEnabled = false) ∧
            ((second v).Outside p left s → s.interruptsEnabled = m.interruptsEnabled) := by
        intro v left hv
        rw [← interruptsEnabled_of_returns hp hnest.1 h hv]
        exact ihsecond v (hnest.2 v) (hv.writable hp h)
      constructor
      · rintro (hs | ⟨v, left, hv, hs⟩)
        · exact (ihfirst hnest.1 h).1 hs
        · exact (hsecond v left hv).1 hs
      · rintro (hs | ⟨v, left, hv, hs⟩)
        · exact (ihfirst hnest.1 h).2 hs
        · exact (hsecond v left hv).2 hs
  | criticalSection body ih =>
      constructor
      · rintro ⟨enabled, masked, hmasked, hs⟩
        obtain ⟨-, rfl⟩ := hmasked.unique (completes_disable hp h).returns
        -- The body is a nest that starts with interrupts masked.
        have hbody := ih (m := m.masked) hnest h
        rw [m.interruptsEnabled_masked] at hbody
        exact ((passes_program (m := m.masked) hp h).mp hs).elim hbody.1 hbody.2
      · rintro (rfl | ⟨r, hr⟩)
        · rfl
        · have hwhole : (criticalSection body).Indifferent p := hnest
          exact interruptsEnabled_of_returns hp hwhole h hr

/-- A section in a section, with operations around the inner one. -/
def twoDeep : Nest (Except DriverError UInt32) :=
  criticalSection (andThen (operation (Csr.mie.setBits 0x80)) fun _ =>
    andThen (criticalSection (operation (Csr.mepc.write 4))) fun _ => operation Csr.mie.read)

theorem indifferent_twoDeep (bus : Bus δ) : twoDeep.Indifferent (Machine.platform bus) := by
  refine ⟨.of_asks (Asks.request ?_), fun _ => ⟨.of_asks (Asks.request ?_),
    fun _ => .of_asks (Asks.request ?_)⟩⟩
  · exact fun h => absurd h (by decide)
  · exact fun h => absurd h (by decide)
  · exact fun h => absurd h (by decide)

end Nest

/-- **Critical sections nest.** A section runs its body once, from the hart with interrupts
masked, and ends where the body ended, with the enable set if it was set before the section
or after the body. So a nest of sections around operations that are indifferent to the
enable returns what the operations alone return and leaves the hart as they do; inside of
each section interrupts are masked all along, and outside of all sections the enable is
what it was at the start. -/
theorem criticalSections_nest (hp : p.HoldsStatus) (h : m.csrs.refusal .mstatus = none) :
    (∀ (α : Type) (body : Program α) (trace : List Exchange) (r : Except DriverError α)
        (m' : Machine δ), Completes p (criticalSection body) m trace r m' ↔
      ∃ inner v left, Completes p body m.masked inner v left ∧ trace = sectionTrace m inner ∧
        r = .ok v ∧ m' = left.withEnable (m.interruptsEnabled || left.interruptsEnabled)) ∧
    ∀ (α : Type) (nest : Nest α), nest.Indifferent p →
      (∀ v m', Returns p nest.program m v m' ↔ Returns p nest.erase m v m') ∧
      (∀ v m', Returns p nest.program m v m' → m'.interruptsEnabled = m.interruptsEnabled) ∧
      (∀ s, Passes p nest.program m s ↔ nest.Inside p m s ∨ nest.Outside p m s) ∧
      (∀ s, nest.Inside p m s → s.interruptsEnabled = false) ∧
      ∀ s, nest.Outside p m s → s.interruptsEnabled = m.interruptsEnabled := by
  refine ⟨fun _ _ _ _ _ => completes_criticalSection hp h, fun _ nest hnest => ?_⟩
  refine ⟨fun _ _ => Nest.returns_program_iff hp hnest h,
    fun _ _ => Nest.interruptsEnabled_of_returns hp hnest h, fun _ => Nest.passes_program hp h, ?_⟩
  exact ⟨fun _ => (Nest.interruptsEnabled_of_passes hp hnest h).1,
    fun _ => (Nest.interruptsEnabled_of_passes hp hnest h).2⟩

/-- A hart with interrupts enabled. -/
def enabledHart : Machine RegisterModel where
  device := {}
  csrs := ⟨(CsrFile.zero.set .mstatus 0x88).set .mie 0x800, []⟩

/-- The inner section ends with interrupts still masked; the outer one enables them again. -/
theorem criticalSections_nest_twoDeep :
    ∃ left : Machine RegisterModel, left = (enabledHart.setCsr .mie 0x880).setCsr .mepc 4 ∧
      enabledHart.interruptsEnabled = true ∧
      Returns (Machine.platform RegisterModel.bus) Nest.twoDeep.program enabledHart (.ok 0x880)
        left ∧
      left.interruptsEnabled = true ∧
      Nest.twoDeep.Inside (Machine.platform RegisterModel.bus) enabledHart left.masked ∧
      left.masked.interruptsEnabled = false := by
  have hstart : enabledHart.interruptsEnabled = true := rfl
  have herased : Returns (Machine.platform RegisterModel.bus) Nest.twoDeep.erase enabledHart
      (.ok 0x880) ((enabledHart.setCsr .mie 0x880).setCsr .mepc 4) := ⟨0, rfl⟩
  have hinner : Returns (Machine.platform RegisterModel.bus) disable enabledHart (.ok true)
      enabledHart.masked := ⟨0, rfl⟩
  obtain ⟨-, hnest⟩ := criticalSections_nest (m := enabledHart)
    (Machine.holdsStatus_platform RegisterModel.bus) rfl
  obtain ⟨hiff, hkept, -, hinside, -⟩ :=
    hnest _ Nest.twoDeep (Nest.indifferent_twoDeep RegisterModel.bus)
  have hreturns := (hiff _ _).mpr herased
  have hlast : Nest.twoDeep.Inside (Machine.platform RegisterModel.bus) enabledHart
      ((enabledHart.setCsr .mie 0x880).setCsr .mepc 4).masked := by
    refine ⟨true, enabledHart.masked, hinner, Returns.passes (v := 0x880) ⟨0, rfl⟩⟩
  exact ⟨_, rfl, hstart, hreturns, (hkept _ _ hreturns).trans hstart, hlast, hinside _ hlast⟩

end BoardSupport

import BoardSupport.Proofs.Firmware.LineInput
import BoardSupport.Proofs.Firmware.MaskedCalls
import BoardSupport.Proofs.Program.Turns

/-!
# What passes over the console

`bytesTaken` and `bytesSent` are the bytes that the exchanges of a program take from the
console and send to it, and `Talks` says which they are. A text is sent as its bytes, and a
line is read as what is taken (`behaves_print_talks`, `behaves_readLine_talks`), as long as
interrupts can be masked: a call whose lock is refused is not made.
-/

namespace BoardSupport.Firmware

open Program
open Fifo (Moves)

/-! ## Bytes taken and sent -/

/-- The bytes that the exchanges take from the console, oldest first. -/
def bytesTaken (trace : List Exchange) : List UInt8 :=
  (trace.filterMap (Exchange.readOf? console.block .data)).map UInt32.toUInt8

/-- The bytes that they send to it. -/
def bytesSent (trace : List Exchange) : List UInt8 :=
  (trace.filterMap (Exchange.wroteTo? console.block .data)).map UInt32.toUInt8

theorem bytesTaken_append (before rest : List Exchange) :
    bytesTaken (before ++ rest) = bytesTaken before ++ bytesTaken rest := by
  rw [bytesTaken, List.filterMap_append, List.map_append, bytesTaken, bytesTaken]

theorem bytesSent_append (before rest : List Exchange) :
    bytesSent (before ++ rest) = bytesSent before ++ bytesSent rest := by
  rw [bytesSent, List.filterMap_append, List.map_append, bytesSent, bytesSent]

/-- The request is not for the data register of the console. -/
def Request.Idle (r : Request) : Prop :=
  r ≠ .load console.block Fifo.Register.data.offset ∧
    ∀ value, r ≠ .store console.block Fifo.Register.data.offset value

theorem idle_of_not_access {r : Request} (h : r.isAccess = false) : Request.Idle r := by
  constructor
  · rintro rfl
    cases h
  · rintro value rfl
    cases h

/-- The exchanges take these bytes from the console and send these to it. -/
structure Talks (taken sent : List UInt8) (trace : List Exchange) : Prop where
  taken : bytesTaken trace = taken
  sent : bytesSent trace = sent

section Talks

variable {taken taken' sent sent' : List UInt8} {trace trace' : List Exchange}

theorem Talks.append (h : Talks taken sent trace) (h' : Talks taken' sent' trace') :
    Talks (taken ++ taken') (sent ++ sent') (trace ++ trace') where
  taken := by rw [bytesTaken_append, h.taken, h'.taken]
  sent := by rw [bytesSent_append, h.sent, h'.sent]

theorem talks_nil : Talks [] [] [] := ⟨rfl, rfl⟩

theorem talks_of_idle (h : ∀ e ∈ trace, Request.Idle e.request) : Talks [] [] trace := by
  have hnone : trace.filterMap (Exchange.readOf? console.block .data) = [] := by
    refine List.filterMap_eq_nil_iff.mpr fun e he => Exchange.readOf?_eq_none.mpr ?_
    rintro ⟨word, rfl⟩
    exact (h _ he).1 rfl
  have hnothing : trace.filterMap (Exchange.wroteTo? console.block .data) = [] := by
    refine List.filterMap_eq_nil_iff.mpr fun e he => Exchange.wroteTo?_eq_none.mpr ?_
    rintro ⟨value, rfl⟩
    exact (h _ he).2 value rfl
  exact ⟨congrArg _ hnone, congrArg _ hnothing⟩

theorem talks_of_unseen (h : Unseen trace) : Talks [] [] trace :=
  talks_of_idle fun e he => idle_of_not_access (h e he)

theorem talks_of_moves (h : Moves console.block sent taken trace) : Talks taken sent trace := by
  refine ⟨h.readOf, ?_⟩
  rw [bytesSent, h.wroteTo, List.map_map]
  exact List.map_id'' UInt8.toUInt8_toUInt32 sent

/-- What devices do not see is nothing on the console. -/
theorem talks_of_wrapped (h : Wrapped (Moves console.block sent taken) trace) :
    Talks taken sent trace := by
  obtain ⟨head, body, tail, rfl, hbody, hhead, htail⟩ := h
  have htalks := ((talks_of_unseen hhead).append (talks_of_moves hbody)).append
    (talks_of_unseen htail)
  rwa [List.nil_append, List.nil_append, List.append_nil, List.append_nil] at htalks

end Talks

/-- The same, if `mstatus` could be written whenever interrupts were to be masked. -/
def TalksUnlessRefused (taken sent : List UInt8) (trace : List Exchange) : Prop :=
  ¬ MaskRefused trace → Talks taken sent trace

section Refused

variable {taken taken' sent sent' : List UInt8} {trace trace' : List Exchange}

theorem TalksUnlessRefused.append (h : TalksUnlessRefused taken sent trace)
    (h' : TalksUnlessRefused taken' sent' trace') :
    TalksUnlessRefused (taken ++ taken') (sent ++ sent') (trace ++ trace') := by
  intro hnone
  have hfirst : ¬ MaskRefused trace := fun hrefused =>
    hnone (hrefused.mono (List.subset_append_left trace trace'))
  have hrest : ¬ MaskRefused trace' := fun hrefused =>
    hnone (hrefused.mono (List.subset_append_right trace trace'))
  exact (h hfirst).append (h' hrest)

theorem talksUnlessRefused_nil : TalksUnlessRefused [] [] [] := fun _ => talks_nil

end Refused

/-! ## Texts and lines -/

/-- A text is sent. -/
theorem behaves_print_talks (text : String) :
    Behaves (print text) (fun _ => True) fun _ => TalksUnlessRefused [] text.toUTF8.toList := by
  refine (behaves_print (.print text) text).ends ?_
  rintro - t (hsent | ⟨-, hrefused | hunheard⟩)
  · exact fun _ => talks_of_wrapped hsent
  · exact fun hnone => absurd hrefused hnone
  · exact absurd trivial hunheard

theorem behaves_printLine_talks (text : String) :
    Behaves (printLine text) (fun _ => True) fun _ =>
      TalksUnlessRefused [] (text.toUTF8.toList ++ lineEnd.toUTF8.toList) :=
  (behaves_print_talks text).andThen fun _ _ ht =>
    (behaves_print_talks lineEnd).ends fun _ _ ht' => ht.append ht'

/-- A poll of the console takes what it gives. -/
theorem behaves_readConsoleByte :
    Behaves readConsoleByte (fun _ => True) fun byte => TalksUnlessRefused [byte] [] := by
  have hpoll := Interrupts.behaves_section_result trivial
    (console.behaves_tryReadByte.ends fun _ _ h => h) fun _ _ _ => trivial
  rw [readConsoleByte_eq]
  refine Behaves.poll (I := TalksUnlessRefused [] []) (fun _ _ => trivial) (fun t ht => ?_)
    talksUnlessRefused_nil
  refine (hpoll.map fun result t' h => ?_).mono (fun _ _ => trivial) fun _ _ h => h
  cases result with
  | error e => exact ht.append fun hnone => absurd h.2 hnone
  | ok v =>
      have htalks : TalksUnlessRefused v.toList [] t' := fun _ => talks_of_wrapped h
      cases v with
      | none => exact ht.append htalks
      | some byte => exact ht.append htalks

theorem behaves_readLine_talks (buffer : List UInt8) :
    Behaves (readLine buffer) (fun _ => True) fun line t =>
      ∃ taken, Uart.LineTaken buffer taken line.1 line.2 ∧ TalksUnlessRefused taken [] t := by
  have hline := Uart.behaves_fillLine (fun _ _ => True) (fun taken => TalksUnlessRefused taken [])
    talksUnlessRefused_nil (fun _ _ => trivial) (fun h h' => h.append h') behaves_readConsoleByte
    buffer
  exact hline.ends fun _ _ h => h

/-! ## Programs that leave the console alone -/

theorem idle_of_silent {α : Type} {x : Program α} (h : Silent x) : Asks Request.Idle x :=
  h.mono fun _ => idle_of_not_access

theorem yields_of_idle {α : Type} {x : Program α} (h : Asks Request.Idle x) :
    Yields x fun _ => Talks [] [] := (Yields.of_asks h).mono fun _ _ => talks_of_idle

theorem Yields.bind_idle {α β : Type} {x : Program α} {f : α → Program β}
    (hx : Yields x fun _ => Talks [] []) (hf : ∀ v, Yields (f v) fun _ => Talks [] []) :
    Yields (x.bind f) fun _ => Talks [] [] :=
  hx.bind fun v _ h => (hf v).mono fun _ _ h' => h.append h'

theorem yields_section {α : Type} {body : Program α} (h : Yields body fun _ => Talks [] []) :
    Yields (Interrupts.criticalSection body) fun _ => Talks [] [] := by
  rw [Interrupts.criticalSection_eq]
  refine Yields.bind_idle (yields_of_idle (idle_of_silent Interrupts.silent_disable)) fun result => ?_
  cases result with
  | error e => exact .done talks_nil
  | ok enabled =>
      exact Yields.bind_idle h fun v =>
        yields_of_idle (idle_of_silent (Interrupts.silent_restore enabled v))

end BoardSupport.Firmware

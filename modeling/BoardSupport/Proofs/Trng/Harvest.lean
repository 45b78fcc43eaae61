import Mathlib.Data.List.Induction
import BoardSupport.Trng
import BoardSupport.Proofs.Program.Exchanges
import BoardSupport.Proofs.Device.Access
import BoardSupport.Proofs.Register.Values

/-!
# Random bytes and the words they come from

Reading the control word takes its byte, so a reading too many loses entropy. What a run may
have read is told by the words alone: `harvest` is the bytes of the valid ones, and `Needed`
says that none of the words was read after enough had come. On every path a call has made
needed readings and nothing else (`behaves_getBytes`), and words that are needed and enough
are all that it takes to return (`completes_getBytes`). `getBytes_harvests` says both of any
platform that shows one word after another (`Source`).
-/

namespace BoardSupport.Trng

open Program

/-! ## Words -/

/-- The word holds a byte. -/
def valid (word : UInt32) : Bool := bitAt word 31

/-- The bytes of the valid words, in order. -/
def harvest (words : List UInt32) : List UInt8 := (words.filter valid).map UInt32.toUInt8

/-- When each of the words came, fewer than `n` valid ones had come before it. -/
def Needed (n : Nat) (words : List UInt32) : Prop :=
  ∀ i < words.length, (harvest (words.take i)).length < n

instance (n : Nat) (words : List UInt32) : Decidable (Needed n words) :=
  inferInstanceAs (Decidable (∀ i < words.length, _))

section Words

variable {n : Nat} {word : UInt32} {words before after : List UInt32}

theorem harvest_append (before after : List UInt32) :
    harvest (before ++ after) = harvest before ++ harvest after := by
  rw [harvest, List.filter_append, List.map_append, harvest, harvest]

theorem harvest_valid (h : valid word = true) (words : List UInt32) :
    harvest (word :: words) = word.toUInt8 :: harvest words := by
  rw [harvest, List.filter_cons_of_pos h, List.map_cons, harvest]

theorem harvest_invalid (h : valid word = false) (words : List UInt32) :
    harvest (word :: words) = harvest words := by
  rw [harvest, List.filter_cons_of_neg (by rw [h]; decide), harvest]

theorem needed_append : Needed n (before ++ after) ↔
    Needed n before ∧ Needed (n - (harvest before).length) after := by
  constructor
  · intro h
    constructor
    · intro i hi
      have hbefore := h i (by rw [List.length_append]; omega)
      rwa [List.take_append_of_le_length (Nat.le_of_lt hi)] at hbefore
    · intro i hi
      have hafter := h (before.length + i) (by rw [List.length_append]; omega)
      rw [List.take_length_add_append, harvest_append, List.length_append] at hafter
      omega
  · rintro ⟨hbefore, hafter⟩ i hi
    rcases Nat.lt_or_ge i before.length with hlt | hge
    · rw [List.take_append_of_le_length (Nat.le_of_lt hlt)]
      exact hbefore i hlt
    · obtain ⟨j, rfl⟩ := Nat.exists_eq_add_of_le hge
      have hlater := hafter j (by rw [List.length_append] at hi; omega)
      rw [List.take_length_add_append, harvest_append, List.length_append]
      omega

theorem needed_singleton : Needed n [word] ↔ 0 < n := by
  constructor
  · intro h
    exact h 0 Nat.one_pos
  · intro h i hi
    obtain rfl : i = 0 := Nat.lt_one_iff.mp hi
    exact h

theorem needed_valid (h : valid word = true) : Needed (n + 1) (word :: words) ↔ Needed n words := by
  rw [← List.singleton_append, needed_append, needed_singleton, harvest_valid h]
  exact and_iff_right (Nat.succ_pos n)

theorem needed_invalid (h : valid word = false) :
    Needed (n + 1) (word :: words) ↔ Needed (n + 1) words := by
  rw [← List.singleton_append, needed_append, needed_singleton, harvest_invalid h]
  exact and_iff_right (Nat.succ_pos n)

theorem needed_of_harvest_nil (h : harvest words = []) (n : Nat) : Needed (n + 1) words := by
  induction words with
  | nil =>
      intro i hi
      cases hi
  | cons word words ih =>
      cases hword : valid word with
      | true =>
          rw [harvest_valid hword] at h
          cases h
      | false =>
          rw [harvest_invalid hword] at h
          exact (needed_invalid hword).mpr (ih h)

theorem pos_of_needed_cons (h : Needed n (word :: words)) : 0 < n := h 0 (Nat.succ_pos _)

end Words

/-! ## One reading -/

def reading (b : Block) (word : UInt32) : Exchange := ⟨.load b controlOffset, word⟩

def readings (b : Block) (words : List UInt32) : List Exchange := words.map (reading b)

theorem readings_append (b : Block) (before after : List UInt32) :
    readings b (before ++ after) = readings b before ++ readings b after := List.map_append

/-- What a word gives. -/
def offered (word : UInt32) : Option UInt8 := if valid word then some word.toUInt8 else none

variable {σ : Type} {p : Platform σ} {s s' u : σ} (t : Trng)

/-- One reading, and its byte if it has one. -/
def attempt : Program (Option UInt8) := do
  let word ← t.readControl
  return if validField.isSet word then some (dataField.get word).toUInt8 else none

theorem toUInt8_data (word : UInt32) : (dataField.get word).toUInt8 = word.toUInt8 := by
  apply UInt8.toNat_inj.mp
  rw [Field.toNat_get_toUInt8 (by decide), Field.value, UInt32.toNat_toUInt8]
  exact congrArg (· % 2 ^ 8) (Nat.div_one _)

theorem offered_eq (word : UInt32) :
    (if validField.isSet word then some (dataField.get word).toUInt8 else none) = offered word := by
  rw [offered, toUInt8_data, validField, Field.isSet_bit (by decide), valid]

theorem completes_attempt {word : UInt32}
    (h : p (.load t.block controlOffset) s = .returned word s') :
    Completes p t.attempt s [reading t.block word] (offered word) s' := by
  have hread : Completes p t.readControl s [reading t.block word] word s' := completes_request h
  refine hread.bind_done ?_
  rw [offered_eq]
  rfl

theorem behaves_attempt : Behaves t.attempt (fun trace => trace = []) fun offer trace =>
    ∃ word, trace = [reading t.block word] ∧ offer = offered word := by
  have hread : Behaves t.readControl (fun trace => trace = []) fun word trace =>
      trace = [reading t.block word] := Behaves.request rfl fun _ => rfl
  exact hread.map fun word trace h => ⟨word, h, offered_eq word⟩

/-! ## What a call has read -/

/-- Under way `getByte` has read words without a byte, and it ends with the first that has one. -/
theorem behaves_getByte : Behaves t.getByte
    (fun trace => ∃ words, trace = readings t.block words ∧ harvest words = [])
    fun byte trace => ∃ words word, trace = readings t.block (words ++ [word]) ∧
      harvest words = [] ∧ valid word = true ∧ byte = word.toUInt8 := by
  refine Behaves.poll (fun _ h => h) ?_ ⟨[], rfl, rfl⟩
  rintro _ ⟨words, rfl, hnone⟩
  refine t.behaves_attempt.mono ?_ ?_
  · rintro _ rfl
    exact ⟨words, List.append_nil _, hnone⟩
  · rintro _ _ ⟨word, rfl, rfl⟩
    have htrace : readings t.block words ++ [reading t.block word]
        = readings t.block (words ++ [word]) := (readings_append _ words [word]).symm
    cases hword : valid word with
    | true =>
        rw [offered, if_pos hword]
        exact ⟨words, word, htrace, hnone, hword, rfl⟩
    | false =>
        rw [offered, if_neg (by rw [hword]; decide)]
        refine ⟨words ++ [word], htrace, ?_⟩
        rw [harvest_append, hnone, harvest_invalid hword]
        rfl

/-- At every point `getBytes` has read needed words and made no other access; when it returns,
its bytes are theirs. -/
theorem behaves_getBytes (n : Nat) : Behaves (t.getBytes n)
    (fun trace => ∃ words, trace = readings t.block words ∧ Needed n words)
    fun bytes trace => ∃ words, trace = readings t.block words ∧ Needed n words ∧
      harvest words = bytes ∧ bytes.length = n := by
  induction n with
  | zero =>
      refine Behaves.done ⟨[], rfl, ?_, rfl, rfl⟩
      intro i hi
      cases hi
  | succ n ih =>
      refine t.behaves_getByte.bind ?_ ?_
      · rintro _ ⟨words, rfl, hnone⟩
        exact ⟨words, rfl, needed_of_harvest_nil hnone n⟩
      · rintro _ _ ⟨words, word, rfl, hnone, hword, rfl⟩
        have hlater : ∀ rest, Needed n rest → Needed (n + 1) (words ++ [word] ++ rest) := by
          intro rest hrest
          rw [List.append_assoc, needed_append, hnone]
          exact ⟨needed_of_harvest_nil hnone n, (needed_valid hword).mpr hrest⟩
        refine ih.bind ?_ ?_
        · rintro _ ⟨rest, rfl, hrest⟩
          exact ⟨words ++ [word] ++ rest, (readings_append _ _ _).symm, hlater rest hrest⟩
        · rintro bytes _ ⟨rest, rfl, hrest, rfl, hlen⟩
          refine Behaves.done ⟨words ++ [word] ++ rest, ?_, hlater rest hrest, ?_, ?_⟩
          · rw [List.append_nil, readings_append _ (words ++ [word])]
          · rw [harvest_append, harvest_append, hnone, harvest_valid hword]
            rfl
          · rw [List.length_cons, hlen]

/-! ## Words that are enough -/

/-- `getBytes` returns on words that are needed and enough, and reads no others. -/
theorem completes_getBytes {n : Nat} {words : List UInt32} (hneeded : Needed n words)
    (hlen : (harvest words).length = n) (h : Answered p (readings t.block words) s u) :
    Completes p (t.getBytes n) s (readings t.block words) (harvest words) u := by
  induction words generalizing n s with
  | nil =>
      obtain rfl : 0 = n := hlen
      cases h
      exact completes_done.mpr ⟨rfl, rfl, rfl⟩
  | cons word words ih =>
      obtain ⟨k, rfl⟩ := Nat.exists_eq_add_one.mpr (pos_of_needed_cons hneeded)
      obtain ⟨mid, hfirst, hrest⟩ := Answered.first_iff.mp h
      have hattempt := t.completes_attempt (Answered.singleton_iff.mp hfirst)
      cases hword : valid word with
      | true =>
          rw [needed_valid hword] at hneeded
          rw [harvest_valid hword] at hlen ⊢
          rw [offered, if_pos hword] at hattempt
          have hmore := ih hneeded (Nat.succ.inj hlen) hrest
          exact hattempt.poll_leave.bind (hmore.bind_done rfl)
      | false =>
          rw [needed_invalid hword] at hneeded
          rw [harvest_invalid hword] at hlen ⊢
          rw [offered, if_neg (by rw [hword]; decide)] at hattempt
          -- The call that goes on from the next word begins with a byte of its own.
          obtain ⟨first, others, byte, later, htrace, hbyte, hothers⟩ :=
            completes_bind.mp (ih hneeded hlen hrest)
          have hall : Completes p (t.getBytes (k + 1)) s _ _ _ :=
            (hattempt.poll_again hbyte).bind hothers
          rw [List.append_assoc, ← htrace] at hall
          exact hall

/-- One byte is a call for one. -/
theorem completes_getByte {words : List UInt32} {byte : UInt8} (hneeded : Needed 1 words)
    (hbyte : harvest words = [byte]) (h : Answered p (readings t.block words) s u) :
    Completes p t.getByte s (readings t.block words) byte u := by
  have hone := t.completes_getBytes hneeded (congrArg List.length hbyte) h
  rw [hbyte] at hone
  obtain ⟨first, rest, v, mid, htrace, hfirst, hdone⟩ := completes_bind.mp hone
  obtain ⟨rfl, hv, rfl⟩ := completes_done.mp hdone
  cases hv
  rw [htrace, List.append_nil]
  exact hfirst

/-! ## A platform that shows one word after another -/

/-- The control word gives `word 0`, `word 1` and so on, and the platform is at `state k` when
it has been read `k` times. -/
structure Source (p : Platform σ) (b : Block) where
  word : Nat → UInt32
  state : Nat → σ
  shows : ∀ k, p (.load b controlOffset) (state k) = .returned (word k) (state (k + 1))

namespace Source

variable {b : Block} (source : Source p b)

/-- The first words. -/
def words (count : Nat) : List UInt32 := (List.range count).map source.word

/-- The first words are needed for `n` bytes, and are enough. -/
def Fills (n count : Nat) : Prop :=
  Needed n (source.words count) ∧ (harvest (source.words count)).length = n

theorem words_succ (count : Nat) :
    source.words (count + 1) = source.words count ++ [source.word count] := by
  rw [words, List.range_succ, List.map_append, List.map_singleton, words]

theorem answered (count : Nat) :
    Answered p (readings b (source.words count)) (source.state 0) (source.state count) := by
  induction count with
  | zero => exact .nil _
  | succ count ih =>
      rw [words_succ, readings_append]
      exact Answered.append_iff.mpr ⟨_, ih, Answered.singleton_iff.mpr (source.shows count)⟩

/-- Readings that the platform has answered are those of its first words. -/
theorem words_of_answered {words : List UInt32}
    (h : Answered p (readings b words) (source.state 0) u) :
    words = source.words words.length ∧ u = source.state words.length := by
  induction words using List.reverseRecOn generalizing u with
  | nil =>
      cases h
      exact ⟨rfl, rfl⟩
  | append_singleton words word ih =>
      rw [readings_append] at h
      obtain ⟨mid, hwords, hword⟩ := Answered.append_iff.mp h
      obtain ⟨hsame, rfl⟩ := ih hwords
      cases (Answered.singleton_iff.mp hword).symm.trans (source.shows words.length)
      rw [List.length_append, List.length_singleton, words_succ, ← hsame]
      exact ⟨rfl, rfl⟩

/-- The words are enough at some point, unless they never are. -/
theorem exists_fills_or_lt (n : Nat) :
    (∃ count, source.Fills n count) ∨ ∀ count, (harvest (source.words count)).length < n := by
  by_cases henough : ∃ count, source.Fills n count
  · exact Or.inl henough
  refine Or.inr fun count => ?_
  suffices h : Needed n (source.words count) ∧ (harvest (source.words count)).length < n from h.2
  induction count with
  | zero =>
      have hnone : Needed n (source.words 0) := fun i hi => absurd hi (Nat.not_lt_zero i)
      refine ⟨hnone, Nat.pos_of_ne_zero ?_⟩
      rintro rfl
      exact henough ⟨0, hnone, rfl⟩
  | succ count ih =>
      obtain ⟨hneeded, hless⟩ := ih
      have hnext : Needed n (source.words (count + 1)) := by
        rw [words_succ, needed_append, needed_singleton]
        exact ⟨hneeded, Nat.sub_pos_of_lt hless⟩
      refine ⟨hnext, lt_of_le_of_ne ?_ fun hlen => henough ⟨count + 1, hnext, hlen⟩⟩
      have hone : (harvest [source.word count]).length ≤ 1 := by
        rw [harvest, List.length_map]
        exact List.length_filter_le _ _
      rw [words_succ, harvest_append, List.length_append]
      omega

end Source

namespace Source

variable {t} (source : Source p t.block)

/-- Words without a byte, and the first that has one. -/
theorem fills_one {k : Nat} (hbefore : ∀ j < k, valid (source.word j) = false)
    (hword : valid (source.word k) = true) :
    source.Fills 1 (k + 1) ∧ harvest (source.words (k + 1)) = [(source.word k).toUInt8] := by
  have hnone : ∀ i, i ≤ k → harvest (source.words i) = [] := by
    intro i
    induction i with
    | zero => exact fun _ => rfl
    | succ i ih =>
        intro hi
        rw [words_succ, harvest_append, ih (Nat.le_of_succ_le hi),
          harvest_invalid (hbefore i hi)]
        rfl
  have hone : harvest (source.words (k + 1)) = [(source.word k).toUInt8] := by
    rw [words_succ, harvest_append, hnone k (Nat.le_refl k), harvest_valid hword]
    rfl
  refine ⟨⟨?_, congrArg List.length hone⟩, hone⟩
  rw [words_succ, needed_append, needed_singleton, hnone k (Nat.le_refl k)]
  exact ⟨needed_of_harvest_nil (hnone k (Nat.le_refl k)) 0, Nat.one_pos⟩

/-- Where the words are never enough, `getBytes` does not return. -/
theorem not_returns_getBytes {n : Nat}
    (hless : ∀ count, (harvest (source.words count)).length < n) (bytes : List UInt8) (s : σ) :
    ¬ Returns p (t.getBytes n) (source.state 0) bytes s := by
  intro h
  obtain ⟨_, hanswered, words, rfl, -, rfl, hlen⟩ := (t.behaves_getBytes n).of_returns h
  obtain ⟨hwords, -⟩ := source.words_of_answered hanswered
  have hfew := hless words.length
  rw [← hwords] at hfew
  omega

theorem not_returns_getByte (hnone : ∀ k, valid (source.word k) = false) (byte : UInt8) (s : σ) :
    ¬ Returns p t.getByte (source.state 0) byte s := by
  intro h
  obtain ⟨_, hanswered, words, word, rfl, -, hword, -⟩ := t.behaves_getByte.of_returns h
  rw [readings_append] at hanswered
  obtain ⟨mid, hwords, hlast⟩ := Answered.append_iff.mp hanswered
  obtain ⟨-, rfl⟩ := source.words_of_answered hwords
  cases (Answered.singleton_iff.mp hlast).symm.trans (source.shows words.length)
  rw [hnone] at hword
  cases hword

/-- At every point of a call the platform has been read, and only for words that were needed. -/
theorem exists_read_advance (n i : Nat) : ∃ count, Needed n (source.words count) ∧
    Answered p (readings t.block (source.words count)) (source.state 0)
      (advance p i (t.getBytes n) (source.state 0)).2 := by
  obtain ⟨trace, hanswered, hpoint⟩ := (t.behaves_getBytes n).of_advance p i (source.state 0)
  have hread : ∃ words, trace = readings t.block words ∧ Needed n words := by
    rcases hpoint with ⟨_, -, words, htrace, hneeded, -⟩ | ⟨-, words, htrace, hneeded⟩
    · exact ⟨words, htrace, hneeded⟩
    · exact ⟨words, htrace, hneeded⟩
  obtain ⟨words, rfl, hneeded⟩ := hread
  obtain ⟨hwords, -⟩ := source.words_of_answered hanswered
  rw [hwords] at hneeded hanswered
  exact ⟨words.length, hneeded, hanswered⟩

end Source

/-- **Random bytes are the valid words, each once.** On any platform that shows one word after
another: `getByte` reads up to the first valid word and returns its byte, and does not return
when there is none. `getBytes` reads up to the `n`-th valid word, so nothing when `n` is 0, and
returns the bytes of the valid words, in order; it does not return when there are never so
many. Whether it returns or not, at every point it has only read, and no word after enough. -/
theorem getBytes_harvests (t : Trng) (source : Source p t.block) :
    (∀ k, (∀ j < k, valid (source.word j) = false) → valid (source.word k) = true →
      Completes p t.getByte (source.state 0) (readings t.block (source.words (k + 1)))
        (source.word k).toUInt8 (source.state (k + 1))) ∧
    ((∀ k, valid (source.word k) = false) →
      ∀ byte s, ¬ Returns p t.getByte (source.state 0) byte s) ∧
    ∀ n, (∀ count, source.Fills n count →
        Completes p (t.getBytes n) (source.state 0) (readings t.block (source.words count))
          (harvest (source.words count)) (source.state count)) ∧
      ((∃ count, source.Fills n count) ∨
        (∀ count, (harvest (source.words count)).length < n) ∧
        ∀ bytes s, ¬ Returns p (t.getBytes n) (source.state 0) bytes s) ∧
      ∀ i, ∃ count, Needed n (source.words count) ∧
        Answered p (readings t.block (source.words count)) (source.state 0)
          (advance p i (t.getBytes n) (source.state 0)).2 := by
  refine ⟨fun k hbefore hword => ?_, source.not_returns_getByte, fun n => ⟨?_, ?_, ?_⟩⟩
  · obtain ⟨⟨hneeded, -⟩, hone⟩ := source.fills_one hbefore hword
    exact t.completes_getByte hneeded hone (source.answered (k + 1))
  · rintro count ⟨hneeded, hlen⟩
    exact t.completes_getBytes hneeded hlen (source.answered count)
  · exact (source.exists_fills_or_lt n).imp_right fun hless =>
      ⟨hless, source.not_returns_getBytes hless⟩
  · exact source.exists_read_advance n

/-- A valid word after one that holds data and is not valid, and another after two of these. -/
def sparse : Nat → UInt32
  | 1 => 0xC0000011
  | 4 => 0xC0000022
  | k => 0x40000001 + UInt32.ofNat k

/-- A block that shows these words; its state is the number of readings. -/
def sparseBus : Bus Nat := .single (fun _ k => .ok (sparse k, k + 1)) fun _ _ k => .ok k

/-- The first byte takes two readings, two bytes take five, and no bytes none. -/
theorem getBytes_harvests_sparse :
    let t : Trng := ⟨⟨0xC0000800⟩⟩
    let p := Machine.platform sparseBus
    let m (k : Nat) : Machine Nat := { device := k }
    (∃ trace, Completes p t.getByte (m 0) trace 0x11 (m 2) ∧ trace.length = 2) ∧
    (∃ trace, Completes p (t.getBytes 2) (m 0) trace [0x11, 0x22] (m 5) ∧ trace.length = 5) ∧
    Completes p (t.getBytes 0) (m 0) [] [] (m 0) := by
  intro t p m
  let source : Source p t.block := ⟨sparse, m, fun _ => rfl⟩
  obtain ⟨hbyte, -, hbytes⟩ := t.getBytes_harvests source
  have hnone : ∀ j < 1, valid (sparse j) = false := by decide
  have hone := hbyte 1 hnone (by decide)
  rw [show (source.word 1).toUInt8 = 0x11 from by decide] at hone
  have hfills : Needed 2 ((List.range 5).map sparse) ∧
      harvest ((List.range 5).map sparse) = [0x11, 0x22] := by decide
  have htwo := (hbytes 2).1 5 ⟨hfills.1, congrArg List.length hfills.2⟩
  rw [show harvest (source.words 5) = [0x11, 0x22] from hfills.2] at htwo
  exact ⟨⟨readings t.block (source.words 2), hone, rfl⟩,
    ⟨readings t.block (source.words 5), htwo, rfl⟩,
    (hbytes 0).1 0 ⟨fun _ h => absurd h (Nat.not_lt_zero _), rfl⟩⟩

end BoardSupport.Trng

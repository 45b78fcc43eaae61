import BoardSupport.Csr.Register
import BoardSupport.Fault

/-!
The CSR file of a hart: one word for each register, and the updates that software may ask for. The
read-only registers refuse every update; single registers can be made to refuse with an error of
their own.
-/
namespace BoardSupport

structure CsrFile where
  words : Vector UInt32 24
  deriving DecidableEq

namespace CsrFile

def zero : CsrFile := ⟨Vector.replicate 24 0⟩

def get (s : CsrFile) (c : Csr) : UInt32 := s.words[c.index]

/-- The file with one word replaced, as hardware does it. -/
def set (s : CsrFile) (c : Csr) (value : UInt32) : CsrFile := ⟨s.words.set c.index value⟩

@[simp] theorem get_set_self (s : CsrFile) (c : Csr) (v : UInt32) : (s.set c v).get c = v := by
  simp [get, set]

theorem get_set_of_ne (s : CsrFile) {c d : Csr} (v : UInt32) (h : c ≠ d) :
    (s.set c v).get d = s.get d := by
  have hi : c.index.val ≠ d.index.val := fun e => h (Csr.index_inj.1 (Fin.ext e))
  simp [get, set, hi]

theorem get_set (s : CsrFile) (c d : Csr) (v : UInt32) :
    (s.set c v).get d = if c = d then v else s.get d := by
  by_cases h : c = d
  · subst h; simp
  · simp [h, get_set_of_ne s v h]

/-- Two files are equal when every register agrees. -/
theorem ext_get {s t : CsrFile} (h : ∀ c, s.get c = t.get c) : s = t := by
  obtain ⟨s⟩ := s
  obtain ⟨t⟩ := t
  congr 1
  apply Vector.ext
  intro i hi
  obtain ⟨c, rfl⟩ : ∃ c : Csr, c.index.val = i := ⟨_, congrArg Fin.val (Csr.index_get ⟨i, hi⟩)⟩
  exact h c

end CsrFile

end BoardSupport

import BoardSupport.Fault

/-!
Bit fields of 32-bit registers. A field carries the proof that it is not empty and lies inside the
word, so its operations never shift too far.
-/
namespace BoardSupport

/-- A run of `width` bits of a 32-bit word, the lowest at `shift`. -/
structure Field where
  shift : Nat
  width : Nat
  width_pos : 0 < width
  fits : shift + width ≤ 32
  deriving DecidableEq

namespace Field

def span (shift width : Nat) (h : 0 < width ∧ shift + width ≤ 32 := by decide) : Field :=
  ⟨shift, width, h.1, h.2⟩

def bit (shift : Nat) (h : shift < 32 := by decide) : Field := ⟨shift, 1, Nat.one_pos, h⟩

def lowByte : Field := .span 0 8

/-- Builds a field from two words. An empty field is refused first, then a sum that leaves 32-bit
arithmetic, then a field that leaves the word. -/
def make (shift width : UInt32) : Except Fault Field :=
  if hw : 0 < width.toNat then
    if shift.toNat + width.toNat < UInt32.size then
      if h : shift.toNat + width.toNat ≤ 32 then .ok ⟨shift.toNat, width.toNat, hw, h⟩
      else .error .fieldBounds
    else .error .addOverflow
  else .error .fieldBounds

/-- The ones of the field, in place. -/
def mask (f : Field) : UInt32 :=
  ((0xFFFFFFFF : UInt32) >>> UInt32.ofNat (32 - f.width)) <<< UInt32.ofNat f.shift

/-- The value that `word` holds in the field. -/
def get (f : Field) (word : UInt32) : UInt32 := (word &&& f.mask) >>> UInt32.ofNat f.shift

/-- `value` in place; bits that do not fit are dropped. -/
def put (f : Field) (value : UInt32) : UInt32 := (value <<< UInt32.ofNat f.shift) &&& f.mask

/-- Whether any bit of the field is set. -/
def isSet (f : Field) (word : UInt32) : Bool := word &&& f.mask != 0

end Field

end BoardSupport

/-!
Bytes as UTF-8 text. Where the bytes are no text, the replacement character stands for each longest
beginning of a character that does not go on, and for each byte that cannot begin one.
-/
namespace BoardSupport.Text

/-- How far into a character the bytes have come. -/
inductive Decoding
  /-- Between two characters. -/
  | between
  /-- Inside a character with this value so far: `more` bytes are missing, and the next one has to
  lie between `low` and `high`. -/
  | inside (value more : Nat) (low high : UInt8)
  deriving DecidableEq, Repr

namespace Decoding

/-- Stands for bytes that are no character. -/
def replacement : Char := Char.ofNat 0xFFFD

/-- The first byte of a character: what is decoded by it, and how to go on. -/
def first (b : UInt8) : List Char × Decoding :=
  if b < 0x80 then ([Char.ofNat b.toNat], .between)
  else if 0xC2 ≤ b ∧ b ≤ 0xDF then ([], .inside (b.toNat - 0xC0) 1 0x80 0xBF)
  else if b = 0xE0 then ([], .inside 0 2 0xA0 0xBF)
  else if b = 0xED then ([], .inside 0xD 2 0x80 0x9F)
  else if 0xE1 ≤ b ∧ b ≤ 0xEF then ([], .inside (b.toNat - 0xE0) 2 0x80 0xBF)
  else if b = 0xF0 then ([], .inside 0 3 0x90 0xBF)
  else if 0xF1 ≤ b ∧ b ≤ 0xF3 then ([], .inside (b.toNat - 0xF0) 3 0x80 0xBF)
  else if b = 0xF4 then ([], .inside 4 3 0x80 0x8F)
  else ([replacement], .between)

/-- One byte: what is decoded by it, and how to go on. -/
def step (b : UInt8) : Decoding → List Char × Decoding
  | .between => first b
  | .inside value more low high =>
    if low ≤ b ∧ b ≤ high then
      let value := value * 64 + (b.toNat - 0x80)
      if more ≤ 1 then ([Char.ofNat value], .between) else ([], .inside value (more - 1) 0x80 0xBF)
    else
      let (chars, next) := first b
      (replacement :: chars, next)

/-- What the end of the bytes leaves. -/
def finish : Decoding → List Char
  | .between => []
  | .inside _ _ _ _ => [replacement]

end Decoding

/-- The characters of the bytes, from a point inside them. -/
def decodeFrom : Decoding → List UInt8 → List Char
  | d, [] => d.finish
  | d, b :: rest =>
    let (chars, next) := d.step b
    chars ++ decodeFrom next rest

/-- The text of the bytes. -/
def decode (bytes : List UInt8) : String := String.ofList (decodeFrom .between bytes)

end BoardSupport.Text

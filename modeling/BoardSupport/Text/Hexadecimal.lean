/-!
Hexadecimal text in lower case, as addresses, causes and words are shown.
-/
namespace BoardSupport.Text

/-- The digits of `n` in base sixteen, most significant first, without leading zeros. -/
def hexDigits (n : Nat) : List Char := Nat.toDigits 16 n

/-- `n` in base sixteen, marked as such. -/
def hex (n : Nat) : String := String.ofList ('0' :: 'x' :: hexDigits n)

/-- A 32-bit word in base sixteen, always eight digits wide. -/
def hexWord (w : UInt32) : String :=
  let digits := hexDigits w.toNat
  String.ofList ('0' :: 'x' :: (List.replicate (8 - digits.length) '0' ++ digits))

end BoardSupport.Text

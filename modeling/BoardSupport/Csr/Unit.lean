import BoardSupport.Csr.File

/-!
The CSRs of a hart as software reaches them: three kinds of update on a file that guards its
read-only registers.
-/
namespace BoardSupport

/-- What software may do to a register: replace it, or set or clear the bits of a mask. -/
inductive CsrUpdate
  | write (value : UInt32)
  | setBits (mask : UInt32)
  | clearBits (mask : UInt32)
  deriving DecidableEq, Repr

/-- The word after an update. -/
def CsrUpdate.apply : CsrUpdate → UInt32 → UInt32
  | .write value, _ => value
  | .setBits mask, word => word ||| mask
  | .clearBits mask, word => word &&& ~~~mask

/-- A CSR file together with the registers whose updates are refused for a reason of their own. -/
structure CsrUnit where
  file : CsrFile
  refusals : List (Csr × DriverError) := []

namespace CsrUnit

/-- The error that an update of `c` meets, if any. A refusal of its own comes before the rule for
read-only registers. -/
def refusal (u : CsrUnit) (c : Csr) : Option DriverError :=
  match u.refusals.lookup c with
  | some e => some e
  | none => if c.isReadOnly then some .readOnlyCsr else none

/-- Updates a register, or leaves the file as it was and says why. -/
def update (u : CsrUnit) (c : Csr) (op : CsrUpdate) : Except DriverError CsrUnit :=
  match u.refusal c with
  | some e => .error e
  | none => .ok { u with file := u.file.set c (op.apply (u.file.get c)) }

end CsrUnit

end BoardSupport

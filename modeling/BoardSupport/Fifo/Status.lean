import BoardSupport.Fault
import BoardSupport.Register.Field

/-!
The status words of a FIFO block: fill level, watermark and flags, and for the UART the receive
errors above them.
-/
namespace BoardSupport.Fifo

def fillLevelField : Field := .lowByte

/-- The fill level that raises the watermark flag. -/
def watermarkField : Field := .span 8 8

/-- Written to a status set alias, empties the FIFO. -/
def clearCommand : UInt32 := 0x80000000

/-- A flag that every status word has. -/
inductive Flag
  | full | empty | watermarkReached | overflow
  deriving DecidableEq, Repr

namespace Flag

def mask : Flag → UInt32
  | .full => 0x10000
  | .empty => 0x20000
  | .watermarkReached => 0x40000
  | .overflow => 0x80000

def name : Flag → String
  | .full => "FULL"
  | .empty => "EMPTY"
  | .watermarkReached => "WATERMARK_REACHED"
  | .overflow => "OVERFLOW"

def all : List Flag := [.full, .empty, .watermarkReached, .overflow]

end Flag

structure Status where
  word : UInt32
  deriving DecidableEq, Repr

namespace Status

def has (s : Status) (f : Flag) : Bool := s.word &&& f.mask != 0

/-- The flags that are set, the lowest bit first. -/
def flags (s : Status) : List Flag := Flag.all.filter s.has

/-- The word with only its flags left. -/
def flagBits (s : Status) : UInt32 :=
  s.word &&& Flag.all.foldl (fun m f => m ||| f.mask) 0

/-- The number of bytes in the FIFO, as far as the word can show it. -/
def fillLevel (s : Status) : UInt8 := (fillLevelField.get s.word).toUInt8

/-- The fill level that raises the watermark flag. -/
def watermark (s : Status) : UInt8 := (watermarkField.get s.word).toUInt8

/-- Whether a numbered bit is set. A number outside the word is a fault. -/
def bit (s : Status) (number : UInt32) : Except Fault Bool :=
  if number < 32 then .ok (s.word &&& (1 <<< number) != 0) else .error .shiftOverflow

end Status

inductive RxError
  /-- Data was read while the FIFO was empty. -/
  | underflow
  | noise | parity | frame
  deriving DecidableEq, Repr

namespace RxError

def mask : RxError → UInt32
  | .underflow => 0x100000
  | .noise => 0x200000
  | .parity => 0x400000
  | .frame => 0x800000

def name : RxError → String
  | .underflow => "UNDERFLOW"
  | .noise => "NOISE"
  | .parity => "PARITY"
  | .frame => "FRAME"

def all : List RxError := [.underflow, .noise, .parity, .frame]

end RxError

/-- A set of receive errors, as bits of the status word. -/
structure RxErrors where
  bits : UInt32
  deriving DecidableEq, Repr

namespace RxErrors

/-- The errors that a status word shows. -/
def ofStatus (word : UInt32) : RxErrors := ⟨word &&& RxError.all.foldl (fun m e => m ||| e.mask) 0⟩

def has (s : RxErrors) (e : RxError) : Bool := s.bits &&& e.mask != 0

/-- The errors in the set, the lowest bit first. -/
def errors (s : RxErrors) : List RxError := RxError.all.filter s.has

end RxErrors

end BoardSupport.Fifo

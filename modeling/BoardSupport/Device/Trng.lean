import BoardSupport.Device.Bus
import BoardSupport.Trng

/-!
A random number generator that gives a set byte after a set number of polls.
-/
namespace BoardSupport

structure TrngModel where
  simulated : Bool
  control : UInt32 := 0
  /-- The readings for which no data is valid yet. -/
  invalidPolls : Nat := 0
  data : UInt8 := 0
  reads : UInt32 := 0
  writes : Array UInt32 := #[]
  deriving DecidableEq, Repr

namespace TrngModel

/-- Gives `byte` once `polls` more readings have found no data. -/
def produceAfter (m : TrngModel) (polls : Nat) (byte : UInt8) : TrngModel :=
  { m with invalidPolls := polls, data := byte }

/-- The control word as far as it does not depend on data. -/
def baseWord (m : TrngModel) : UInt32 :=
  if m.simulated then m.control ||| Trng.simulatedField.mask else m.control

/-- What a reading shows and leaves. -/
def sample (m : TrngModel) : UInt32 × TrngModel :=
  if !Trng.enableField.isSet m.baseWord then (m.baseWord, m)
  else if m.invalidPolls = 0 then
    (m.baseWord ||| Trng.validField.mask ||| m.data.toUInt32, m)
  else (m.baseWord, { m with invalidPolls := m.invalidPolls - 1 })

def load (offset : Nat) (m : TrngModel) : Except Fault (UInt32 × TrngModel) :=
  if offset = Trng.controlOffset then
    if m.reads = 0xFFFFFFFF then .error .addOverflow
    else .ok ({ m with reads := m.reads + 1 } : TrngModel).sample
  else .error (.trngOffset offset)

/-- A write keeps only the enable bit. -/
def store (offset : Nat) (value : UInt32) (m : TrngModel) : Except Fault TrngModel :=
  if offset = Trng.controlOffset then
    .ok { m with writes := m.writes.push value, control := value &&& Trng.enableField.mask }
  else .error (.trngOffset offset)

def bus : Bus TrngModel := .single load store

end TrngModel

end BoardSupport

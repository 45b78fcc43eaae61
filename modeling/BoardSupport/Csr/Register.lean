/-!
The control and status registers that machine mode reaches: their numbers, and which of them
refuse writes.
-/
namespace BoardSupport

/-- A control and status register. Those that software cannot write come first. -/
inductive Csr
  | misa | mtval
  | cycle | time | instret
  | cycleh | timeh | instreth
  | mvendorid | marchid | mimpid | mhartid
  | mstatus | mie | mtvec | mcountinhibit
  | mscratch | mepc | mcause | mip
  | mcycle | minstret | mcycleh | minstreth
  deriving DecidableEq, Repr

namespace Csr

/-- The number that an instruction names the register by. -/
def number : Csr → Nat
  | .misa => 0x301
  | .mtval => 0x343
  | .cycle => 0xC00
  | .time => 0xC01
  | .instret => 0xC02
  | .cycleh => 0xC80
  | .timeh => 0xC81
  | .instreth => 0xC82
  | .mvendorid => 0xF11
  | .marchid => 0xF12
  | .mimpid => 0xF13
  | .mhartid => 0xF14
  | .mstatus => 0x300
  | .mie => 0x304
  | .mtvec => 0x305
  | .mcountinhibit => 0x320
  | .mscratch => 0x340
  | .mepc => 0x341
  | .mcause => 0x342
  | .mip => 0x344
  | .mcycle => 0xB00
  | .minstret => 0xB02
  | .mcycleh => 0xB80
  | .minstreth => 0xB82

def name : Csr → String
  | .misa => "Misa"
  | .mtval => "Mtval"
  | .cycle => "Cycle"
  | .time => "Time"
  | .instret => "Instret"
  | .cycleh => "Cycleh"
  | .timeh => "Timeh"
  | .instreth => "Instreth"
  | .mvendorid => "Mvendorid"
  | .marchid => "Marchid"
  | .mimpid => "Mimpid"
  | .mhartid => "Mhartid"
  | .mstatus => "Mstatus"
  | .mie => "Mie"
  | .mtvec => "Mtvec"
  | .mcountinhibit => "Mcountinhibit"
  | .mscratch => "Mscratch"
  | .mepc => "Mepc"
  | .mcause => "Mcause"
  | .mip => "Mip"
  | .mcycle => "Mcycle"
  | .minstret => "Minstret"
  | .mcycleh => "Mcycleh"
  | .minstreth => "Minstreth"

def isReadOnly : Csr → Bool
  | .misa | .mtval | .cycle | .time | .instret | .cycleh | .timeh | .instreth
  | .mvendorid | .marchid | .mimpid | .mhartid => true
  | _ => false

def all : List Csr :=
  [.misa, .mtval, .cycle, .time, .instret, .cycleh, .timeh, .instreth,
   .mvendorid, .marchid, .mimpid, .mhartid,
   .mstatus, .mie, .mtvec, .mcountinhibit, .mscratch, .mepc, .mcause, .mip,
   .mcycle, .minstret, .mcycleh, .minstreth]

/-- Every register in the order of the numbers. -/
def byNumber : List Csr := all.mergeSort fun a b => a.number ≤ b.number

def index (c : Csr) : Fin 24 := ⟨c.ctorIdx, by cases c <;> decide⟩

theorem get_index (c : Csr) : all.get c.index = c := by cases c <;> rfl

theorem index_get : ∀ i : Fin 24, (all.get i).index = i := by decide

theorem index_inj {a b : Csr} : a.index = b.index ↔ a = b := by
  constructor
  · intro h
    rw [← get_index a, h, get_index b]
  · rintro rfl
    rfl

end Csr

/-- The global interrupt enable bit of `mstatus`. -/
def Csr.interruptEnable : UInt32 := 0x8

/-- The bit of `mstatus` that keeps the interrupt enable of the interrupted code. -/
def Csr.previousEnable : UInt32 := 0x80

end BoardSupport

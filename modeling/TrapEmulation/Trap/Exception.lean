import TrapEmulation.Bytes

/-!
# Exception vectors

The processor reports a fault by the number of its vector. Reserved numbers and the numbers of
interrupts stand for no exception.
-/

namespace TrapEmulation

inductive Exception where
  | divideError
  | debug
  | nonMaskableInterrupt
  | breakpoint
  | overflow
  | boundRangeExceeded
  | invalidOpcode
  | deviceNotAvailable
  | doubleFault
  | invalidTss
  | segmentNotPresent
  | stackFault
  | generalProtection
  | pageFault
  | x87Fpu
  | alignmentCheck
  | machineCheck
  | simdFloatingPoint
  | virtualization
  | controlProtection
  deriving DecidableEq, Repr

namespace Exception

def vector : Exception → Byte
  | divideError => 0
  | debug => 1
  | nonMaskableInterrupt => 2
  | breakpoint => 3
  | overflow => 4
  | boundRangeExceeded => 5
  | invalidOpcode => 6
  | deviceNotAvailable => 7
  | doubleFault => 8
  | invalidTss => 10
  | segmentNotPresent => 11
  | stackFault => 12
  | generalProtection => 13
  | pageFault => 14
  | x87Fpu => 16
  | alignmentCheck => 17
  | machineCheck => 18
  | simdFloatingPoint => 19
  | virtualization => 20
  | controlProtection => 21

/-- Every exception, in the order of the vectors. -/
def all : List Exception :=
  [divideError, debug, nonMaskableInterrupt, breakpoint, overflow, boundRangeExceeded,
    invalidOpcode, deviceNotAvailable, doubleFault, invalidTss, segmentNotPresent, stackFault,
    generalProtection, pageFault, x87Fpu, alignmentCheck, machineCheck, simdFloatingPoint,
    virtualization, controlProtection]

/-- The exception that a vector number stands for. -/
def ofVector? (vector : Byte) : Option Exception :=
  all.find? fun e ↦ e.vector == vector

theorem ofVector?_vector (e : Exception) : ofVector? e.vector = some e := by
  cases e <;> rfl

theorem ofVector?_eq_invalidOpcode :
    ∀ vector : Byte, ofVector? vector = some invalidOpcode ↔ vector = 6 := by
  decide

end Exception

end TrapEmulation

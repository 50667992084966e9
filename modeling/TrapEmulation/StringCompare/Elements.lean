import TrapEmulation.StringCompare.Control

/-!
# Elements and lengths

An operand of 128 bits is read as a list of integers. How many of them are valid is told either by
the first zero element or by a register.
-/

namespace TrapEmulation.StringCompare

/-- The element at place `i`, zero beyond the last one. -/
def element (format : ElementFormat) (v : BitVec 128) (i : Nat) : Int :=
  let bits := v.extractLsb' (i * format.bits) format.bits
  if format.signed then bits.toInt else bits.toNat

/-- The first zero element ends the operand. -/
def implicitLength (format : ElementFormat) (v : BitVec 128) : Nat :=
  (List.range format.count).findIdx fun i ↦ element format v i == 0

/-- The absolute value of a signed register, no more than the number of elements. Only the low half
of the register counts unless the instruction is wide. -/
def explicitLength (format : ElementFormat) (raw : BitVec 64) (wide : Bool) : Nat :=
  let value := if wide then raw.toInt else (raw.setWidth 32).toInt
  min value.natAbs format.count

theorem implicitLength_le (format : ElementFormat) (v : BitVec 128) :
    implicitLength format v ≤ format.count :=
  Nat.le_trans List.findIdx_le_length (Nat.le_of_eq List.length_range)

theorem explicitLength_le (format : ElementFormat) (raw : BitVec 64) (wide : Bool) :
    explicitLength format raw wide ≤ format.count := Nat.min_le_right _ _

end TrapEmulation.StringCompare

import Mathlib.Algebra.BigOperators.Fin
import TrapEmulation.Encoding.Instruction
import TrapEmulation.Operation
import TrapEmulation.Proofs.Reference.Changes
import TrapEmulation.Proofs.Reference.Numbers

/-!
# Bit manipulation by arithmetic

What each bit-manipulation operation does is said here in terms of natural numbers: quotients and
remainders by powers of two, the place of the lowest set bit, and the rank of a place in a mask.  No
word operation takes part except the conjunction of `andn`.
-/

open scoped BigOperators

namespace TrapEmulation.Reference

/-! ## Numbers -/

/-- The place of the lowest set bit, if there is one. -/
def lowestSet? (w x : Nat) : Option Nat := (List.range w).find? fun place ↦ x.testBit place

/-- The number of places below the given one that the mask selects. -/
def rank (mask place : Nat) : Nat := ((Finset.range place).filter fun i ↦ mask.testBit i).card

/-- Every selected bit moves down to its rank. -/
def extract (w x mask : Nat) : Nat :=
  ∑ place ∈ Finset.range w,
    if mask.testBit place && x.testBit place then 2 ^ rank mask place else 0

/-- Every selected place takes the bit of its rank. -/
def deposit (w x mask : Nat) : Nat :=
  ∑ place ∈ Finset.range w,
    if mask.testBit place && x.testBit (rank mask place) then 2 ^ place else 0

/-! ## Flags -/

/-- The top bit of a result. -/
def topBit (w result : Nat) : Bool := decide (2 ^ (w - 1) ≤ result)

/-- The four flags of an operation that reports on its result. -/
def resultFlags (w result : Nat) (carry : Bool) : List (Nat × Bool) :=
  [(zeroFlag, result == 0), (signFlag, topBit w result), (carryFlag, carry), (overflowFlag, false)]

/-! ## Operations -/

/-- What an operation reads: the r/m operand, the extra register, the data register and the
immediate byte, and which registers the reg field and the extra field name. -/
structure BitOperands where
  width : Nat
  reg : Nat
  vvvv : Nat
  rm : Nat
  extra : Nat
  data : Nat
  immediate : Nat

/-- The number of bits that an operation works on. -/
def width (i : Instruction) : Nat :=
  match i.mode with
  | .bits64 => if i.extension.w then 64 else 32
  | .bits32 => 32

/-- What an encoding makes an operation read, given the value of its r/m operand. -/
def bitOperands (i : Instruction) (regs : Registers) (rm : Nat) : BitOperands where
  width := width i
  reg := i.modrm.reg.toNat + 8 * i.extension.r.toNat
  vvvv := i.vvvv.toNat
  rm := rm
  extra := register regs i.vvvv.toNat % 2 ^ width i
  data := register regs 2 % 2 ^ width i
  immediate := (i.immediate.map BitVec.toNat).getD 0

/-- What an operation writes. -/
def bitChanges (op : BitOp) (o : BitOperands) : Changes :=
  match op with
  | .rorx =>
    let count := o.immediate % o.width
    { gprs := [(o.reg, o.rm / 2 ^ count + o.rm % 2 ^ count * 2 ^ (o.width - count))] }
  | .andn =>
    let result := (2 ^ o.width - 1 - o.extra) &&& o.rm
    { gprs := [(o.reg, result)], flags := resultFlags o.width result false }
  | .blsr =>
    let result :=
      match lowestSet? o.width o.rm with
      | some place => o.rm - 2 ^ place
      | none => 0
    { gprs := [(o.vvvv, result)], flags := resultFlags o.width result (o.rm == 0) }
  | .blsmsk =>
    let result :=
      match lowestSet? o.width o.rm with
      | some place => 2 ^ (place + 1) - 1
      | none => 2 ^ o.width - 1
    { gprs := [(o.vvvv, result)]
      flags :=
        [(zeroFlag, false), (signFlag, topBit o.width result), (carryFlag, o.rm == 0),
          (overflowFlag, false)] }
  | .blsi =>
    let result :=
      match lowestSet? o.width o.rm with
      | some place => 2 ^ place
      | none => 0
    { gprs := [(o.vvvv, result)], flags := resultFlags o.width result (o.rm != 0) }
  | .bzhi =>
    let place := o.extra % 256
    let result := o.rm % 2 ^ place
    { gprs := [(o.reg, result)], flags := resultFlags o.width result (decide (o.width ≤ place)) }
  | .pext => { gprs := [(o.reg, extract o.width o.extra o.rm)] }
  | .pdep => { gprs := [(o.reg, deposit o.width o.extra o.rm)] }
  | .mulx =>
    let product := o.data * o.rm
    { gprs := [(o.reg, product / 2 ^ o.width), (o.vvvv, product % 2 ^ o.width)] }
  | .bextr =>
    let result := o.rm / 2 ^ (o.extra % 256) % 2 ^ (o.extra / 256 % 256)
    { gprs := [(o.reg, result)]
      flags := [(zeroFlag, result == 0), (carryFlag, false), (overflowFlag, false)] }
  | .shlx => { gprs := [(o.reg, o.rm * 2 ^ (o.extra % o.width) % 2 ^ o.width)] }
  | .sarx =>
    { gprs := [(o.reg, (signed o.width o.rm / 2 ^ (o.extra % o.width) % 2 ^ o.width).toNat)] }
  | .shrx => { gprs := [(o.reg, o.rm / 2 ^ (o.extra % o.width))] }

end TrapEmulation.Reference

import Mathlib.Algebra.BigOperators.Fin
import TrapEmulation.Encoding.Instruction
import TrapEmulation.Operation
import TrapEmulation.Proofs.Reference.Changes
import TrapEmulation.Proofs.Reference.Numbers

/-!
# String comparison by elements

A string comparison is said here one element at a time.  The control byte is read as a number, the
operands are read as numbers in base `2 ^ 8` or `2 ^ 16`, and each position of the result is a
statement about elements.  No matrix of comparisons is built.
-/

open scoped BigOperators

namespace TrapEmulation.Reference

/-! ## Elements -/

/-- The number of bits in an element. -/
def elementBits (control : Nat) : Nat := if control % 2 = 0 then 8 else 16

/-- The number of elements in an operand. -/
def elementCount (control : Nat) : Nat := if control % 2 = 0 then 16 else 8

/-- The element at a position. -/
def elementAt (control operand position : Nat) : Int :=
  let digit :=
    operand / 2 ^ (elementBits control * position) % 2 ^ elementBits control
  if control / 2 % 2 = 0 then digit else signed (elementBits control) digit

/-- The position of the first zero element, or the number of elements if there is none. -/
def terminatedLength (control operand : Nat) : Nat :=
  ((List.range (elementCount control)).find? fun position ↦
    elementAt control operand position == 0).getD (elementCount control)

/-- The absolute value of a register, no more than the number of elements. -/
def registerLength (control : Nat) (wide : Bool) (register : Nat) : Nat :=
  let bits := if wide then 64 else 32
  min (signed bits (register % 2 ^ bits)).natAbs (elementCount control)

/-! ## Results -/

/-- The strings that are compared, by their elements, with their lengths. -/
structure Strings where
  a : Nat → Int
  b : Nat → Int
  la : Nat
  lb : Nat

/-- Whether a position matches, before negation. -/
def matchesAt (control : Nat) (s : Strings) (j : Nat) : Bool :=
  match control / 4 % 4 with
  | 0 => decide (j < s.lb ∧ ∃ i < s.la, s.a i = s.b j)
  | 1 =>
    decide (j < s.lb ∧
      ∃ k < s.la, 2 * k + 1 < s.la ∧ s.a (2 * k) ≤ s.b j ∧ s.b j ≤ s.a (2 * k + 1))
  | 2 => decide ((j < s.la ∧ j < s.lb ∧ s.a j = s.b j) ∨ (s.la ≤ j ∧ s.lb ≤ j))
  | _ => decide (∀ k < min s.la (elementCount control - j), j + k < s.lb ∧ s.a k = s.b (j + k))

/-- The negation at a position: of every position, or of those within the second string. -/
def negatedAt (polarity lb j : Nat) (matched : Bool) : Bool :=
  match polarity with
  | 1 => !matched
  | 3 => if j < lb then !matched else matched
  | _ => matched

/-- The result at a position. -/
def resultAt (control : Nat) (s : Strings) (j : Nat) : Bool :=
  negatedAt (control / 16 % 4) s.lb j (matchesAt control s j)

/-- The lowest or the highest position that is set, or the number of positions if none is. -/
def position (highest : Bool) (count : Nat) (set : Nat → Bool) : Nat :=
  let positions := if highest then (List.range count).reverse else List.range count
  (positions.find? set).getD count

/-- The number in which every set position is `size` ones in a row. -/
def spread (size count : Nat) (set : Nat → Bool) : Nat :=
  ∑ j ∈ Finset.range count, if set j then (2 ^ size - 1) * 2 ^ (size * j) else 0

/-- The flags of a comparison. -/
def compareFlags (control : Nat) (s : Strings) : List (Nat × Bool) :=
  [(carryFlag, (List.range (elementCount control)).any (resultAt control s)),
    (zeroFlag, decide (s.lb < elementCount control)),
    (signFlag, decide (s.la < elementCount control)),
    (overflowFlag, resultAt control s 0), (adjustFlag, false), (parityFlag, false)]

/-- What a comparison of strings writes: a position to the count register, or a mask to the first
vector register. -/
def compareChanges (op : CompareOp) (control : Nat) (s : Strings) : Changes :=
  let count := elementCount control
  let set := resultAt control s
  let top := control / 64 % 2 == 1
  let mask := spread (if top then elementBits control else 1) count set
  match op with
  | .pcmpestri | .pcmpistri =>
    { gprs := [(1, position top count set)], flags := compareFlags control s }
  | .pcmpestrm | .pcmpistrm => { xmms := [(0, mask)], flags := compareFlags control s }

/-! ## Operands -/

/-- The lengths come from registers. -/
def explicit : CompareOp → Bool
  | .pcmpestrm | .pcmpestri => true
  | .pcmpistrm | .pcmpistri => false

/-- The control byte of an encoding. -/
def controlOf (i : Instruction) : Nat := (i.immediate.map BitVec.toNat).getD 0

/-- The strings that an encoding makes an operation compare, given the value of its r/m operand. -/
def stringsOf (op : CompareOp) (i : Instruction) (regs : Registers) (b : Nat) : Strings :=
  let control := controlOf i
  let a := vectorRegister regs (i.modrm.reg.toNat + 8 * i.extension.r.toNat)
  let wide := i.mode == .bits64 && i.extension.w
  { a := elementAt control a
    b := elementAt control b
    la :=
      if explicit op then registerLength control wide (register regs 0)
      else terminatedLength control a
    lb :=
      if explicit op then registerLength control wide (register regs 2)
      else terminatedLength control b }

end TrapEmulation.Reference

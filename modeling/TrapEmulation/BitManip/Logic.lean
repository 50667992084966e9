import TrapEmulation.LowMask
import TrapEmulation.Registers.Flags

/-!
# Masks and bit ranges

These operations clear, isolate or select bits of a word and report on the result in the flags.
Each is defined at every width, and the processor uses it at 32 and 64 bits. Flags that an
operation leaves undefined are not touched.
-/

namespace TrapEmulation.BitManip

variable {w : Nat}

/-- The flags of an operation that reports on its result. -/
def logicFlags (result : BitVec w) (carry : Bool) : FlagUpdate :=
  .ofList [(.zero, result == 0), (.sign, result.msb), (.carry, carry), (.overflow, false)]

def andn (a b : BitVec w) : BitVec w × FlagUpdate :=
  let r := ~~~a &&& b
  (r, logicFlags r false)

/-- Clears the lowest set bit. -/
def blsr (x : BitVec w) : BitVec w × FlagUpdate :=
  let r := x &&& (x - 1)
  (r, logicFlags r (x == 0))

/-- The bits up to and including the lowest set bit. The result is never zero. -/
def blsmsk (x : BitVec w) : BitVec w × FlagUpdate :=
  let r := x ^^^ (x - 1)
  (r, .ofList [(.zero, false), (.sign, r.msb), (.carry, x == 0), (.overflow, false)])

/-- The lowest set bit alone. -/
def blsi (x : BitVec w) : BitVec w × FlagUpdate :=
  let r := x &&& -x
  (r, logicFlags r (x != 0))

/-- Clears the bits from a position upwards. The position is the low byte of `index`. -/
def bzhi (x index : BitVec w) : BitVec w × FlagUpdate :=
  let position := index.toNat % 256
  let r := x &&& lowMask w position
  (r, logicFlags r (w ≤ position))

/-- Extracts a bit range. The low byte of `control` is its start and the next byte its length. A range
that starts past the last bit is empty. -/
def bextr (x control : BitVec w) : BitVec w × FlagUpdate :=
  let start := control.toNat % 256
  let length := control.toNat / 256 % 256
  let r := if w ≤ start then 0 else (x >>> start) &&& lowMask w length
  (r, .ofList [(.zero, r == 0), (.carry, false), (.overflow, false)])

end TrapEmulation.BitManip

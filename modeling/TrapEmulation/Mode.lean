import TrapEmulation.LowMask

/-!
# Processor modes

A thread runs either 32-bit or 64-bit code. The mode fixes how wide an address is, and addresses
wrap at that width.
-/

namespace TrapEmulation

abbrev Address := BitVec 64

inductive Mode where
  | bits32
  | bits64
  deriving DecidableEq, Repr

namespace Mode

/-- The number of bits in an address. -/
def width : Mode → Nat
  | bits32 => 32
  | bits64 => 64

/-- The bits that an address of this mode can have. -/
def mask (mode : Mode) : Address := lowMask 64 mode.width

/-- The address wrapped to the mode's width. -/
def clip (mode : Mode) (address : Address) : Address := address &&& mode.mask

end Mode

end TrapEmulation

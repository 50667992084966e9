/-!
# Bytes

Memory and instructions are made of bytes. A value that spans several of them is stored with its
least significant byte first, and `decodeLE` is that value.
-/

namespace TrapEmulation

abbrev Byte := BitVec 8

/-- The value of bytes stored least significant first. -/
def decodeLE : List Byte → Nat
  | [] => 0
  | byte :: rest => byte.toNat + 256 * decodeLE rest

end TrapEmulation

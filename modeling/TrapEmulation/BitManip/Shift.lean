import TrapEmulation.Bytes

/-!
# Shifts, rotation and multiplication

Counts are taken modulo the width. None of these operations touches a flag.
-/

namespace TrapEmulation.BitManip

variable {w : Nat}

def shlx (x count : BitVec w) : BitVec w := x <<< (count.toNat % w)

def shrx (x count : BitVec w) : BitVec w := x >>> (count.toNat % w)

/-- Shifts right and fills with the sign bit. -/
def sarx (x count : BitVec w) : BitVec w := x.sshiftRight (count.toNat % w)

def rorx (x : BitVec w) (count : Byte) : BitVec w := x.rotateRight (count.toNat % w)

/-- The high and the low half of the unsigned product. -/
def mulx (a b : BitVec w) : BitVec w × BitVec w :=
  let product := a.toNat * b.toNat
  (BitVec.ofNat w (product >>> w), BitVec.ofNat w product)

end TrapEmulation.BitManip

/-!
# Gathering and scattering bits

A mask selects positions of a word. Gathering packs the bits at the selected positions into the low
end of the result, and scattering spreads the low bits of a word over them.
-/

namespace TrapEmulation.BitManip

variable {w : Nat}

/-- The positions of the set bits, from the lowest to the highest. -/
def setPositions (mask : BitVec w) : List Nat := (List.range w).filter fun i ↦ mask.getLsbD i

/-- The bits of `x` at the positions, put in order from bit `place` upwards. -/
def gather (x : BitVec w) : List Nat → Nat → BitVec w
  | [], _ => 0
  | i :: rest, place =>
    (if x.getLsbD i then BitVec.twoPow w place else 0) ||| gather x rest (place + 1)

/-- The bits of `x` from bit `place` upwards, put at the positions in order. -/
def scatter (x : BitVec w) : List Nat → Nat → BitVec w
  | [], _ => 0
  | i :: rest, place =>
    (if x.getLsbD place then BitVec.twoPow w i else 0) ||| scatter x rest (place + 1)

/-- The bits of `x` that `mask` selects, in the low end. -/
def pext (x mask : BitVec w) : BitVec w := gather x (setPositions mask) 0

/-- The low bits of `x` at the positions that `mask` selects. -/
def pdep (x mask : BitVec w) : BitVec w := scatter x (setPositions mask) 0

end TrapEmulation.BitManip

/-!
# Low masks

Widths and lengths are applied to words by masks of low bits.
-/

namespace TrapEmulation

/-- The low `count` bits set; every bit once `count` reaches the width. -/
def lowMask (w count : Nat) : BitVec w := BitVec.ofNat w ((1 <<< count) - 1)

variable {w : Nat}

theorem getLsbD_lowMask (count i : Nat) :
    (lowMask w count).getLsbD i = (decide (i < w) && decide (i < count)) := by
  rw [lowMask, BitVec.getLsbD_ofNat, Nat.one_shiftLeft, Nat.testBit_two_pow_sub_one]

end TrapEmulation

import TrapEmulation.BitManip.Logic
import TrapEmulation.Proofs.Reference.BitManip

/-!
# Flags of the bit operations

What the operations on masks and ranges report, place by place of the flags register.  Most of them write
four flags; the sign is missing from the report of an extracted range, and the bits up to the lowest set one
are never reported to be zero.
-/

namespace TrapEmulation.BitManip

open Changes Reference

variable {w : Nat}

/-! ## Words and numbers -/

theorem beq_zero_eq (value : BitVec w) : (value == 0) = (value.toNat == 0) := by
  rw [Bool.eq_iff_iff, beq_iff_eq, beq_iff_eq]
  exact BitVec.toNat_eq (x := value) (y := 0)

theorem msb_eq_topBit (value : BitVec w) : value.msb = topBit w value.toNat :=
  BitVec.msb_eq_decide value

theorem positions_logicFlags (value : BitVec w) (carry : Bool) :
    positions [(.zero, value == 0), (.sign, value.msb), (.carry, carry), (.overflow, false)] =
      resultFlags w value.toNat carry := by
  rw [beq_zero_eq, msb_eq_topBit]
  rfl

/-! ## Operations -/

theorem written?_logicFlags (value : BitVec w) (carry : Bool) (place : Nat) :
    (logicFlags value carry).written? place =
      [(zeroFlag, value == 0), (signFlag, value.msb), (carryFlag, carry),
        (overflowFlag, false)].lookup place :=
  FlagUpdate.written?_ofList (by simp) place

theorem written?_andn (a b : BitVec w) (place : Nat) :
    (andn a b).2.written? place =
      [(zeroFlag, (andn a b).1 == 0), (signFlag, (andn a b).1.msb), (carryFlag, false),
        (overflowFlag, false)].lookup place :=
  written?_logicFlags _ _ place

theorem written?_blsr (x : BitVec w) (place : Nat) :
    (blsr x).2.written? place =
      [(zeroFlag, (blsr x).1 == 0), (signFlag, (blsr x).1.msb), (carryFlag, x == 0),
        (overflowFlag, false)].lookup place :=
  written?_logicFlags _ _ place

theorem written?_blsi (x : BitVec w) (place : Nat) :
    (blsi x).2.written? place =
      [(zeroFlag, (blsi x).1 == 0), (signFlag, (blsi x).1.msb), (carryFlag, x != 0),
        (overflowFlag, false)].lookup place :=
  written?_logicFlags _ _ place

theorem written?_blsmsk (x : BitVec w) (place : Nat) :
    (blsmsk x).2.written? place =
      [(zeroFlag, false), (signFlag, (blsmsk x).1.msb), (carryFlag, x == 0),
        (overflowFlag, false)].lookup place :=
  FlagUpdate.written?_ofList (by simp) place

theorem written?_bzhi (x index : BitVec w) (place : Nat) :
    (bzhi x index).2.written? place =
      [(zeroFlag, (bzhi x index).1 == 0), (signFlag, (bzhi x index).1.msb),
        (carryFlag, decide (w ≤ index.toNat % 256)), (overflowFlag, false)].lookup place :=
  written?_logicFlags _ _ place

theorem written?_bextr (x control : BitVec w) (place : Nat) :
    (bextr x control).2.written? place =
      [(zeroFlag, (bextr x control).1 == 0), (carryFlag, false),
        (overflowFlag, false)].lookup place :=
  FlagUpdate.written?_ofList (by simp) place

end TrapEmulation.BitManip

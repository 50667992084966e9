import TrapEmulation.BitManip.Logic
import TrapEmulation.BitManip.Shift
import TrapEmulation.Proofs.BitManip.Gather
import TrapEmulation.Proofs.BitManip.LowestBit

/-!
# The operations as arithmetic

Each operation on words gives the word of the number that arithmetic gives.  Counts are reduced by
the width before they are used, and bit ranges are quotients and remainders by powers of two.
-/

namespace TrapEmulation.BitManip

open Reference

variable {w : Nat}

/-! ## Masks and ranges -/

theorem toNat_andn (a b : BitVec w) : (andn a b).1.toNat = (2 ^ w - 1 - a.toNat) &&& b.toNat := by
  change (~~~a &&& b).toNat = _
  rw [BitVec.toNat_and, BitVec.toNat_not]

theorem toNat_bzhi (x index : BitVec w) :
    (bzhi x index).1.toNat = x.toNat % 2 ^ (index.toNat % 256) :=
  toNat_and_lowMask x (index.toNat % 256)

theorem toNat_bextr (x control : BitVec w) :
    (bextr x control).1.toNat =
      x.toNat / 2 ^ (control.toNat % 256) % 2 ^ (control.toNat / 256 % 256) := by
  change (if w ≤ control.toNat % 256 then 0
    else (x >>> (control.toNat % 256)) &&& lowMask w (control.toNat / 256 % 256)).toNat = _
  by_cases hpast : w ≤ control.toNat % 256
  · have hlt : x.toNat < 2 ^ (control.toNat % 256) :=
      Nat.lt_of_lt_of_le x.isLt (Nat.pow_le_pow_right (by decide) hpast)
    rw [if_pos hpast, Nat.div_eq_of_lt hlt, Nat.zero_mod]
    rfl
  · rw [if_neg hpast, toNat_and_lowMask, BitVec.toNat_ushiftRight, Nat.shiftRight_eq_div_pow]

/-- The lowest set bit is found by looking from below. -/
theorem lowestSet?_eq_some {x : BitVec w} {place : Nat} (h : lowestSet? w x.toNat = some place) :
    IsLowestBit x place := by
  obtain ⟨hset, hmem, hbelow⟩ := List.find?_range_eq_some.mp h
  rw [BitVec.testBit_toNat] at hset
  refine ⟨List.mem_range.mp hmem, hset, ?_⟩
  intro i hi
  have hclear := hbelow i hi
  rw [BitVec.testBit_toNat] at hclear
  simpa using hclear

theorem lowestSet?_eq_none {x : BitVec w} (h : lowestSet? w x.toNat = none) : x = 0 := by
  apply BitVec.eq_of_getLsbD_eq
  intro i hi
  have hclear := List.find?_range_eq_none.mp h i hi
  rw [BitVec.testBit_toNat] at hclear
  simpa using hclear

theorem toNat_blsr_eq (x : BitVec w) :
    (blsr x).1.toNat =
      match lowestSet? w x.toNat with
      | some place => x.toNat - 2 ^ place
      | none => 0 := by
  cases hlowest : lowestSet? w x.toNat with
  | some place => exact toNat_blsr (lowestSet?_eq_some hlowest)
  | none =>
    rw [lowestSet?_eq_none hlowest, blsr_zero]
    rfl

theorem toNat_blsmsk_eq (x : BitVec w) :
    (blsmsk x).1.toNat =
      match lowestSet? w x.toNat with
      | some place => 2 ^ (place + 1) - 1
      | none => 2 ^ w - 1 := by
  cases hlowest : lowestSet? w x.toNat with
  | some place => exact toNat_blsmsk (lowestSet?_eq_some hlowest)
  | none => rw [lowestSet?_eq_none hlowest, blsmsk_zero, BitVec.toNat_allOnes]

theorem toNat_blsi_eq (x : BitVec w) :
    (blsi x).1.toNat =
      match lowestSet? w x.toNat with
      | some place => 2 ^ place
      | none => 0 := by
  cases hlowest : lowestSet? w x.toNat with
  | some place => exact toNat_blsi (lowestSet?_eq_some hlowest)
  | none =>
    rw [lowestSet?_eq_none hlowest, blsi_zero]
    rfl

/-! ## Shifts, rotation and multiplication -/

theorem toNat_shlx (x count : BitVec w) :
    (shlx x count).toNat = x.toNat * 2 ^ (count.toNat % w) % 2 ^ w := by
  rw [shlx, BitVec.toNat_shiftLeft, Nat.shiftLeft_eq]

theorem toNat_shrx (x count : BitVec w) :
    (shrx x count).toNat = x.toNat / 2 ^ (count.toNat % w) := by
  rw [shrx, BitVec.toNat_ushiftRight, Nat.shiftRight_eq_div_pow]

/-- The quotient is rounded towards minus infinity. -/
theorem toInt_sarx (x count : BitVec w) :
    (sarx x count).toInt = x.toInt / 2 ^ (count.toNat % w) := by
  rw [sarx, BitVec.toInt_sshiftRight, Int.shiftRight_eq_div_pow]
  rfl

theorem toNat_sarx (x count : BitVec w) :
    (sarx x count).toNat = (signed w x.toNat / 2 ^ (count.toNat % w) % 2 ^ w).toNat := by
  have hword (word : BitVec w) : word.toNat = (word.toInt % 2 ^ w).toNat := by
    have hround := congrArg BitVec.toNat (BitVec.ofInt_toInt (x := word))
    rw [BitVec.toNat_ofInt] at hround
    exact hround.symm
  calc
    (sarx x count).toNat = ((sarx x count).toInt % 2 ^ w).toNat := hword _
    _ = (signed w x.toNat / 2 ^ (count.toNat % w) % 2 ^ w).toNat := by
      rw [toInt_sarx, signed_toNat]

/-- Rotating moves the low bits to the top. -/
theorem toNat_rorx (hw : 0 < w) (x : BitVec w) (count : Byte) :
    (rorx x count).toNat =
      x.toNat / 2 ^ (count.toNat % w) +
        x.toNat % 2 ^ (count.toNat % w) * 2 ^ (w - count.toNat % w) := by
  have hcount : count.toNat % w < w := Nat.mod_lt _ hw
  generalize hplaces : count.toNat % w = places at hcount
  have hpow : 2 ^ w = 2 ^ places * 2 ^ (w - places) := by
    rw [← Nat.pow_add, Nat.add_sub_cancel' (Nat.le_of_lt hcount)]
  have hquotient : x.toNat / 2 ^ places < 2 ^ (w - places) := by
    apply Nat.div_lt_of_lt_mul
    rw [← hpow]
    exact x.isLt
  calc
    (rorx x count).toNat =
        x.toNat >>> (places % w) ||| x.toNat <<< (w - places % w) % 2 ^ w := by
      rw [rorx, hplaces, BitVec.toNat_rotateRight]
    _ = x.toNat / 2 ^ places ||| x.toNat % 2 ^ places * 2 ^ (w - places) := by
      rw [Nat.mod_eq_of_lt hcount, Nat.shiftRight_eq_div_pow, Nat.shiftLeft_eq, hpow,
        Nat.mul_mod_mul_right]
    _ = x.toNat / 2 ^ places + x.toNat % 2 ^ places * 2 ^ (w - places) := by
      rw [Nat.or_comm, Nat.mul_comm, ← Nat.two_pow_add_eq_or_of_lt hquotient, Nat.add_comm]

theorem toNat_mulx_fst (a b : BitVec w) : (mulx a b).1.toNat = a.toNat * b.toNat / 2 ^ w := by
  have hproduct : a.toNat * b.toNat < 2 ^ w * 2 ^ w := Nat.mul_lt_mul'' a.isLt b.isLt
  calc
    (mulx a b).1.toNat = (a.toNat * b.toNat) >>> w % 2 ^ w := BitVec.toNat_ofNat _ _
    _ = a.toNat * b.toNat / 2 ^ w % 2 ^ w := by
      rw [Nat.shiftRight_eq_div_pow]
    _ = a.toNat * b.toNat / 2 ^ w := Nat.mod_eq_of_lt (Nat.div_lt_of_lt_mul hproduct)

theorem toNat_mulx_snd (a b : BitVec w) : (mulx a b).2.toNat = a.toNat * b.toNat % 2 ^ w :=
  BitVec.toNat_ofNat _ _

end TrapEmulation.BitManip

import Mathlib.Data.Nat.Prime.Basic
import TrapEmulation.Proofs.BitManip.Arithmetic

/-!
# Shifts, rotation and multiplication

Shifts are products and quotients by powers of two, the signed one rounded down.  A rotation moves every bit
around a circle with as many places as the word has bits.  Where that number divides 256, as it does for words
of 32 and 64 bits, rotation counts may be added as bytes, and a rotation is made of two shifts.
-/

namespace TrapEmulation.BitManip

variable {w : Nat}

/-! ## Rotation -/

/-- Every bit comes from so many places further on, around the circle. -/
theorem getLsbD_rorx (x : BitVec w) (count : Byte) {place : Nat} (hplace : place < w) :
    (rorx x count).getLsbD place = x.getLsbD ((place + count.toNat) % w) := by
  have hturn : count.toNat % w < w := Nat.mod_lt _ (Nat.zero_lt_of_lt hplace)
  rw [rorx, BitVec.getLsbD_rotateRight, Nat.mod_mod, ← Nat.add_mod_mod]
  generalize count.toNat % w = turn at hturn
  by_cases hlow : place < w - turn
  · have hsum : (place + turn) % w = turn + place := by
      rw [Nat.mod_eq_of_lt (by omega), Nat.add_comm]
    rw [decide_eq_true hlow, cond_true, hsum]
  · have hsum : (place + turn) % w = place - (w - turn) := by
      rw [Nat.mod_eq_sub_mod (by omega), Nat.mod_eq_of_lt (by omega)]
      omega
    rw [decide_eq_false hlow, cond_false, decide_eq_true hplace, Bool.true_and, hsum]

/-- One rotation after another is the rotation by the sum, although the sum wraps as a byte. -/
theorem rorx_rorx (hw : w ∣ 256) (x : BitVec w) (first second : Byte) :
    rorx (rorx x first) second = rorx x (first + second) := by
  apply BitVec.eq_of_getLsbD_eq
  intro place hplace
  have hsource : (place + second.toNat) % w < w := Nat.mod_lt _ (Nat.zero_lt_of_lt hplace)
  have hsum : ((place + second.toNat) % w + first.toNat) % w =
      (place + (first + second).toNat) % w := by
    calc
      ((place + second.toNat) % w + first.toNat) % w =
          (place + (first.toNat + second.toNat)) % w := by
        rw [Nat.mod_add_mod, Nat.add_assoc, Nat.add_comm second.toNat]
      _ = (place + (first.toNat + second.toNat) % 256 % w) % w := by
        rw [Nat.mod_mod_of_dvd _ hw, Nat.add_mod_mod]
      _ = (place + (first + second).toNat) % w := by
        rw [Nat.add_mod_mod, BitVec.toNat_add]
  rw [getLsbD_rorx _ second hplace, getLsbD_rorx x first hsource, getLsbD_rorx x _ hplace, hsum]

/-- A width that divides 256 is a power of two, and a word of that width has room for it. -/
theorem dvd_two_pow_self (hw : w ∣ 256) : w ∣ 2 ^ w := by
  obtain ⟨exponent, -, rfl⟩ := (Nat.dvd_prime_pow Nat.prime_two).mp (show w ∣ 2 ^ 8 from hw)
  exact Nat.pow_dvd_pow 2 (Nat.le_of_lt Nat.lt_two_pow_self)

/-- What goes out on the right comes back on the left.  A whole turn is no exception: the shift to the left is
then by nothing, and the word meets itself. -/
theorem rorx_eq_or (hw : w ∣ 256) (x : BitVec w) (count : Byte) :
    rorx x count =
      shrx x (.ofNat w count.toNat) ||| shlx x (.ofNat w (w - count.toNat % w)) := by
  have hcount (n : Nat) : (BitVec.ofNat w n).toNat % w = n % w := by
    rw [BitVec.toNat_ofNat, Nat.mod_mod_of_dvd _ (dvd_two_pow_self hw)]
  rw [rorx, BitVec.rotateRight_def, Nat.mod_mod, shrx, shlx, hcount, hcount]
  by_cases hturn : count.toNat % w = 0
  · rw [hturn, Nat.sub_zero, Nat.mod_self, BitVec.ushiftRight_zero, BitVec.shiftLeft_zero,
      BitVec.shiftLeft_eq_zero (Nat.le_refl w), BitVec.or_self]
    exact BitVec.or_zero
  · have hpos : 0 < w := Nat.pos_of_dvd_of_pos hw (by decide)
    have hlt : w - count.toNat % w < w := by omega
    rw [Nat.mod_eq_of_lt hlt]

/-! ## Products -/

/-- The two halves are the whole product. -/
theorem mulx_fst_snd (x y : BitVec w) :
    (mulx x y).1.toNat * 2 ^ w + (mulx x y).2.toNat = x.toNat * y.toNat := by
  rw [toNat_mulx_fst, toNat_mulx_snd, Nat.div_add_mod']

/-! ## The laws together -/

/-- Shifts are products and quotients by a power of two whose exponent is the count modulo the width; the
signed one rounds towards minus infinity.  Rotation reads every bit from around the circle, adds up, and is
made of two shifts.  A product is exactly its two halves. -/
theorem shift_rotate_multiply_laws (hw : w ∣ 256) (x y count : BitVec w) (i j : Byte) :
    (shlx x count).toNat = x.toNat * 2 ^ (count.toNat % w) % 2 ^ w ∧
    (shrx x count).toNat = x.toNat / 2 ^ (count.toNat % w) ∧
    (sarx x count).toInt = x.toInt / 2 ^ (count.toNat % w) ∧
    (∀ place < w, (rorx x i).getLsbD place = x.getLsbD ((place + i.toNat) % w)) ∧
    rorx (rorx x i) j = rorx x (.ofNat 8 ((i.toNat + j.toNat) % 256)) ∧
    rorx x i = shrx x (.ofNat w i.toNat) ||| shlx x (.ofNat w (w - i.toNat % w)) ∧
    (mulx x y).1.toNat * 2 ^ w + (mulx x y).2.toNat = x.toNat * y.toNat ∧
    (mulx x y).1.toNat < 2 ^ w ∧ (mulx x y).2.toNat < 2 ^ w := by
  have hsum : i + j = .ofNat 8 ((i.toNat + j.toNat) % 256) := by
    apply BitVec.eq_of_toNat_eq
    rw [BitVec.toNat_add, BitVec.toNat_ofNat, Nat.mod_mod]
  refine ⟨toNat_shlx x count, toNat_shrx x count, toInt_sarx x count,
    fun _ hplace ↦ getLsbD_rorx x i hplace, ?_, rorx_eq_or hw x i, mulx_fst_snd x y,
    (mulx x y).1.isLt, (mulx x y).2.isLt⟩
  rw [← hsum]
  exact rorx_rorx hw x i j

/-- A count above the width, an odd negative word, a sum of counts that wraps, and a product that fills both
halves. -/
theorem shift_rotate_multiply_laws_wrapping :
    64 ∣ 256 ∧
      (shlx (0x8000000000000003 : BitVec 64) 0xFFFFFFFF00000041).toNat = 6 ∧
      (sarx (0x8000000000000003 : BitVec 64) 0xFFFFFFFF00000041).toInt = -(2 ^ 62) + 1 ∧
      rorx (rorx (0x8000000000000003 : BitVec 64) 0xC3) 0x41 = rorx 0x8000000000000003 0x04 ∧
      (mulx (0x8000000000000003 : BitVec 64) 0xFFFFFFFFFFFFFFFF).1.toNat * 2 ^ 64 +
          (mulx (0x8000000000000003 : BitVec 64) 0xFFFFFFFFFFFFFFFF).2.toNat =
        0x8000000000000003 * 0xFFFFFFFFFFFFFFFF := by
  have hw : 64 ∣ 256 := by decide
  obtain ⟨hleft, -, hsigned, -, hrotated, -, hproduct, -, -⟩ :=
    shift_rotate_multiply_laws hw (0x8000000000000003 : BitVec 64) 0xFFFFFFFFFFFFFFFF
      0xFFFFFFFF00000041 0xC3 0x41
  exact ⟨hw, hleft, hsigned, hrotated, hproduct⟩

end TrapEmulation.BitManip

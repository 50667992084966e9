import TrapEmulation.Bytes
import TrapEmulation.Proofs.Checked.Arithmetic

/-!
# Checked words

Single bits, bit fields and masks of low bits are computed by shifts. The amounts are below the width
where the words are used, and then the shifts give what the word says.
-/

namespace TrapEmulation.Checked

variable {w : Nat}

/-! ## Bits -/

def bit (x : BitVec w) (i : Nat) : Run Bool := do
  let shifted ← shiftRight x i
  return shifted &&& 1 == 1

/-- The top bit. -/
def sign (x : BitVec w) : Run Bool := do
  let top ← sub w 1
  bit x top

/-- The bits of a byte from `place` upwards, as far as the mask keeps them. -/
def field (byte : Byte) (place : Nat) (mask : Byte) : Run Byte := do
  let shifted ← shiftRight byte place
  return shifted &&& mask

theorem bit_eq (x : BitVec w) {i : Nat} (h : i < w) : bit x i = pure (x.getLsbD i) := by
  have hlow : x >>> i &&& 1 = (BitVec.ofBool (x.getLsbD i)).setWidth w := by
    rw [BitVec.ofNat_eq_ofNat, BitVec.and_one_eq_setWidth_ofBool_getLsbD, BitVec.getLsbD_ushiftRight,
      Nat.add_zero]
  have hone : (BitVec.ofBool true).setWidth w = 1 :=
    BitVec.setWidth_ofNat_one_eq_ofNat_one_of_lt Nat.one_pos
  have hbit : (x >>> i &&& 1 == 1) = x.getLsbD i := by
    rw [hlow]
    cases x.getLsbD i with
    | false => simp [Nat.ne_of_gt (Nat.zero_lt_of_lt h)]
    | true => rw [hone, beq_self_eq_true]
  rw [bit, shiftRight, guarded_eq h, pure_bind, hbit]

theorem sign_eq (x : BitVec w) (h : 0 < w) : sign x = pure x.msb := by
  have hone : 1 ≤ w := h
  rw [sign, sub, guarded_eq hone, pure_bind, bit_eq x (Nat.sub_lt h Nat.one_pos),
    BitVec.msb_eq_getLsbD_last]

theorem field_eq (byte mask : Byte) {place : Nat} (h : place < 8) :
    field byte place mask = pure (byte >>> place &&& mask) := by
  rw [field, shiftRight, guarded_eq h, pure_bind]

/-! ## Low bits -/

/-- The low `count` bits set, computed as one less than a power of two below the width. -/
def lowBits (w count : Nat) : Run (BitVec w) :=
  if w ≤ count then
    pure (BitVec.allOnes w)
  else do
    let power ← shiftLeft 1 count
    return power - 1

/-- As `lowBits`, for masks of addresses and registers. The power has to be positive. -/
def maskBits (count : Nat) : Run (BitVec 64) :=
  if 64 ≤ count then
    pure (BitVec.allOnes 64)
  else do
    let power ← shiftLeft 1 count
    subWord power 1

theorem lowMask_of_le {count : Nat} (h : w ≤ count) : lowMask w count = BitVec.allOnes w := by
  apply BitVec.eq_of_getLsbD_eq
  intro i hi
  rw [getLsbD_lowMask, BitVec.getLsbD_allOnes, decide_eq_true (Nat.lt_of_lt_of_le hi h), Bool.and_true]

theorem shiftLeft_one {count : Nat} (h : count < w) :
    shiftLeft (1 : BitVec w) count = pure (BitVec.twoPow w count) := guarded_eq h _

theorem toNat_one (h : 0 < w) : (1 : BitVec w).toNat = 1 :=
  Nat.mod_eq_of_lt (Nat.one_lt_two_pow (Nat.ne_of_gt h))

theorem one_le_twoPow {count : Nat} (h : count < w) : 1 ≤ BitVec.twoPow w count := by
  rw [BitVec.le_def, BitVec.toNat_twoPow_of_lt h, toNat_one (Nat.zero_lt_of_lt h)]
  exact Nat.one_le_two_pow

theorem twoPow_sub_one {count : Nat} (h : count < w) :
    BitVec.twoPow w count - 1 = lowMask w count := by
  have hlt : 2 ^ count - 1 < 2 ^ w :=
    Nat.lt_of_le_of_lt (Nat.sub_le _ _) (Nat.pow_lt_pow_right Nat.one_lt_two h)
  apply BitVec.eq_of_toNat_eq
  rw [BitVec.toNat_sub_of_le (one_le_twoPow h), BitVec.toNat_twoPow_of_lt h,
    toNat_one (Nat.zero_lt_of_lt h), lowMask, BitVec.toNat_ofNat, Nat.one_shiftLeft,
    Nat.mod_eq_of_lt hlt]

theorem lowBits_eq (w count : Nat) : lowBits w count = pure (lowMask w count) := by
  rw [lowBits]
  split
  case isTrue h => rw [lowMask_of_le h]
  case isFalse h =>
    have hcount : count < w := Nat.lt_of_not_le h
    rw [shiftLeft_one hcount, pure_bind, twoPow_sub_one hcount]

theorem maskBits_eq (count : Nat) : maskBits count = pure (lowMask 64 count) := by
  rw [maskBits]
  split
  case isTrue h => rw [lowMask_of_le h]
  case isFalse h =>
    have hcount : count < 64 := Nat.lt_of_not_le h
    rw [shiftLeft_one hcount, pure_bind, subWord, guarded_eq (one_le_twoPow hcount),
      twoPow_sub_one hcount]

end TrapEmulation.Checked

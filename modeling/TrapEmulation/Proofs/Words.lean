import Mathlib.Algebra.Group.Int.Defs
import Mathlib.Algebra.Group.Nat.Defs
import TrapEmulation.Bytes
import TrapEmulation.Mode

/-!
# Words as numbers

Masking a word with low bits is taking the remainder by a power of two, and bytes are the digits of a
number in base 256.
-/

namespace TrapEmulation

/-! ## Masks -/

theorem toNat_and_lowMask {w : Nat} (x : BitVec w) (count : Nat) :
    (x &&& lowMask w count).toNat = x.toNat % 2 ^ count := by
  apply Nat.eq_of_testBit_eq
  intro i
  rw [BitVec.testBit_toNat, BitVec.getLsbD_and, getLsbD_lowMask, Nat.testBit_mod_two_pow,
    BitVec.testBit_toNat]
  by_cases h : i < w
  · simp [h, Bool.and_comm]
  · simp [BitVec.getLsbD_of_ge x i (Nat.le_of_not_lt h)]

/-- Less than one turn does not lead back to where it began. -/
theorem add_mod_ne {n step modulus : Nat} (hpos : 0 < step) (hstep : step < modulus) :
    (n + step) % modulus ≠ n := by
  intro heq
  have hn : n < modulus := by
    rw [← heq]
    exact Nat.mod_lt _ (Nat.zero_lt_of_lt hstep)
  rcases Nat.lt_or_ge (n + step) modulus with hfits | hwraps
  · rw [Nat.mod_eq_of_lt hfits] at heq
    omega
  · rw [Nat.mod_eq_sub_mod hwraps, Nat.mod_eq_of_lt (by omega)] at heq
    omega

namespace Mode

theorem thirtyTwo_le_width (mode : Mode) : 32 ≤ mode.width := by
  cases mode <;> decide

/-- Fifteen bytes do not go once around the address space. -/
theorem add_mod_width_ne (mode : Mode) {n length : Nat} (hpos : 0 < length) (hlength : length ≤ 15) :
    (n + length) % 2 ^ mode.width ≠ n := by
  have hturn : 2 ^ 32 ≤ 2 ^ mode.width := Nat.pow_le_pow_right (by decide) mode.thirtyTwo_le_width
  exact add_mod_ne hpos (by omega)

theorem toNat_clip (mode : Mode) (address : Address) :
    (mode.clip address).toNat = address.toNat % 2 ^ mode.width :=
  toNat_and_lowMask address mode.width

theorem two_pow_width_dvd (mode : Mode) : 2 ^ mode.width ∣ 2 ^ 64 := by
  cases mode <;> decide

/-- An address of the mode is a word as it stands. -/
theorem toNat_ofNat_mod (mode : Mode) (n : Nat) :
    (BitVec.ofNat 64 (n % 2 ^ mode.width)).toNat = n % 2 ^ mode.width := by
  have hlt : n % 2 ^ mode.width < 2 ^ 64 :=
    Nat.lt_of_lt_of_le (Nat.mod_lt _ (Nat.two_pow_pos _))
      (Nat.le_of_dvd (by decide) mode.two_pow_width_dvd)
  rw [BitVec.toNat_ofNat, Nat.mod_eq_of_lt hlt]

theorem clip_bits64 (address : Address) : bits64.clip address = address := by
  apply BitVec.eq_of_toNat_eq
  rw [toNat_clip]
  exact Nat.mod_eq_of_lt address.isLt

end Mode

/-! ## Little-endian values -/

theorem decodeLE_lt (bytes : List Byte) : decodeLE bytes < 256 ^ bytes.length := by
  induction bytes with
  | nil => simp [decodeLE]
  | cons byte rest ih =>
    have := byte.isLt
    simp only [decodeLE, List.length_cons, Nat.pow_succ]
    omega

theorem decodeLE_append (front back : List Byte) :
    decodeLE (front ++ back) = decodeLE front + 256 ^ front.length * decodeLE back := by
  induction front with
  | nil => rw [List.nil_append, decodeLE, List.length_nil, Nat.pow_zero, Nat.one_mul, Nat.zero_add]
  | cons byte rest ih =>
    rw [List.cons_append, decodeLE, decodeLE, ih, List.length_cons, Nat.pow_succ, Nat.mul_add,
      ← Nat.add_assoc, ← Nat.mul_assoc, Nat.mul_comm 256 (256 ^ rest.length)]

/-- The low `count` bytes of a value, least significant first. -/
def encodeLE : Nat → Nat → List Byte
  | 0, _ => []
  | count + 1, value => BitVec.ofNat 8 value :: encodeLE count (value / 256)

theorem length_encodeLE (count value : Nat) : (encodeLE count value).length = count := by
  induction count generalizing value with
  | zero => rfl
  | succ count ih => rw [encodeLE, List.length_cons, ih]

theorem decodeLE_encodeLE (count value : Nat) :
    decodeLE (encodeLE count value) = value % 256 ^ count := by
  induction count generalizing value with
  | zero => simp [encodeLE, decodeLE, Nat.mod_one]
  | succ count ih =>
    calc
      decodeLE (encodeLE (count + 1) value) = value % 256 + 256 * (value / 256 % 256 ^ count) := by
        rw [encodeLE, decodeLE, ih, BitVec.toNat_ofNat]
      _ = value % 256 ^ (count + 1) := by
        rw [Nat.pow_succ, Nat.mul_comm (256 ^ count), Nat.mod_mul]

theorem encodeLE_decodeLE (bytes : List Byte) :
    encodeLE bytes.length (decodeLE bytes) = bytes := by
  induction bytes with
  | nil => rfl
  | cons byte rest ih =>
    have hbyte := byte.isLt
    have hhead : BitVec.ofNat 8 (byte.toNat + 256 * decodeLE rest) = byte := by
      apply BitVec.eq_of_toNat_eq
      rw [BitVec.toNat_ofNat]
      omega
    have htail : (byte.toNat + 256 * decodeLE rest) / 256 = decodeLE rest := by omega
    rw [List.length_cons, decodeLE, encodeLE, hhead, htail, ih]

end TrapEmulation

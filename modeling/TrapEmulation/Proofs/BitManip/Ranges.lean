import TrapEmulation.Proofs.BitManip.Arithmetic
import TrapEmulation.Proofs.BitManip.Reports

/-!
# Bit ranges

A control word names a range by two bytes, its start and its length.  Extracting the range and clearing
everything above a place are a quotient and a remainder by powers of two, also where the range reaches past
the last bit or begins there, and nothing above the control bytes takes part.
-/

namespace TrapEmulation.BitManip

open Reference

variable {w : Nat}

/-! ## Bits -/

theorem getLsbD_bextr_iff (x control : BitVec w) (i : Nat) :
    (bextr x control).1.getLsbD i ↔
      i < control.toNat / 256 % 256 ∧ control.toNat % 256 + i < w ∧
        x.getLsbD (control.toNat % 256 + i) := by
  rw [← BitVec.testBit_toNat, toNat_bextr, Nat.testBit_mod_two_pow, Nat.testBit_div_two_pow,
    BitVec.testBit_toNat, Bool.and_eq_true, decide_eq_true_iff, Nat.add_comm i]
  constructor
  · intro ⟨hlength, hset⟩
    exact ⟨hlength, BitVec.lt_of_getLsbD hset, hset⟩
  · intro ⟨hlength, _, hset⟩
    exact ⟨hlength, hset⟩

theorem getLsbD_bzhi_iff (x index : BitVec w) (i : Nat) :
    (bzhi x index).1.getLsbD i ↔ i < index.toNat % 256 ∧ x.getLsbD i := by
  rw [← BitVec.testBit_toNat, toNat_bzhi, Nat.testBit_mod_two_pow, BitVec.testBit_toNat,
    Bool.and_eq_true, decide_eq_true_iff]

/-! ## Control words -/

/-- Two control words with the same two bytes name the same range. -/
theorem bextr_congr (x : BitVec w) {control other : BitVec w}
    (h : other.toNat % 2 ^ 16 = control.toNat % 2 ^ 16) : bextr x other = bextr x control := by
  have hstart : other.toNat % 256 = control.toNat % 256 := by omega
  have hlength : other.toNat / 256 % 256 = control.toNat / 256 % 256 := by omega
  rw [bextr, bextr, hstart, hlength]

theorem bzhi_congr (x : BitVec w) {index other : BitVec w}
    (h : other.toNat % 2 ^ 8 = index.toNat % 2 ^ 8) : bzhi x other = bzhi x index := by
  have hplace : other.toNat % 256 = index.toNat % 256 := h
  rw [bzhi, bzhi, hplace]

/-- Clearing from a place upwards is extracting the range that begins at zero and ends there. -/
theorem bzhi_eq_bextr (hw : 16 ≤ w) (x : BitVec w) {n : Nat} (hn : n < 256) :
    (bzhi x (.ofNat w n)).1 = (bextr x (.ofNat w (n * 256))).1 := by
  have hroom : 2 ^ 16 ≤ 2 ^ w := Nat.pow_le_pow_right Nat.two_pos hw
  have hindex : (BitVec.ofNat w n).toNat = n := by
    rw [BitVec.toNat_ofNat, Nat.mod_eq_of_lt (by omega)]
  have hcontrol : (BitVec.ofNat w (n * 256)).toNat = n * 256 := by
    rw [BitVec.toNat_ofNat, Nat.mod_eq_of_lt (by omega)]
  apply BitVec.eq_of_toNat_eq
  calc
    (bzhi x (.ofNat w n)).1.toNat = x.toNat % 2 ^ n := by
      rw [toNat_bzhi, hindex, Nat.mod_eq_of_lt hn]
    _ = x.toNat / 2 ^ 0 % 2 ^ n := by
      rw [Nat.pow_zero, Nat.div_one]
    _ = (bextr x (.ofNat w (n * 256))).1.toNat := by
      rw [toNat_bextr, hcontrol, Nat.mul_mod_left, Nat.mul_div_cancel n (by decide),
        Nat.mod_eq_of_lt hn]

/-! ## The laws together -/

/-- Both operations select exactly the bits of a range, for every control word: a quotient and a remainder for
extraction, a remainder for clearing.  Nothing above the control bytes matters, and the two agree where the
range begins at zero.  Clearing reports four flags, with a carry when the place lies past the last bit;
extraction reports three and leaves the sign as it was. -/
theorem bit_range_laws (x control : BitVec w) :
    (∀ i, (bextr x control).1.getLsbD i ↔
      i < control.toNat / 256 % 256 ∧ control.toNat % 256 + i < w ∧
        x.getLsbD (control.toNat % 256 + i)) ∧
    (bextr x control).1.toNat =
      x.toNat / 2 ^ (control.toNat % 256) % 2 ^ (control.toNat / 256 % 256) ∧
    (∀ i, (bzhi x control).1.getLsbD i ↔ i < control.toNat % 256 ∧ x.getLsbD i) ∧
    (bzhi x control).1.toNat = x.toNat % 2 ^ (control.toNat % 256) ∧
    (∀ other, other.toNat % 2 ^ 16 = control.toNat % 2 ^ 16 → bextr x other = bextr x control) ∧
    (∀ other, other.toNat % 2 ^ 8 = control.toNat % 2 ^ 8 → bzhi x other = bzhi x control) ∧
    (16 ≤ w → ∀ n < 256, (bzhi x (.ofNat w n)).1 = (bextr x (.ofNat w (n * 256))).1) ∧
    (∀ place, (bzhi x control).2.written? place =
      [(zeroFlag, (bzhi x control).1 == 0), (signFlag, (bzhi x control).1.msb),
        (carryFlag, decide (w ≤ control.toNat % 256)), (overflowFlag, false)].lookup place) ∧
    (∀ place, (bextr x control).2.written? place =
      [(zeroFlag, (bextr x control).1 == 0), (carryFlag, false),
        (overflowFlag, false)].lookup place) ∧
    ∀ rflags, ((bextr x control).2.apply rflags).getLsbD signFlag = rflags.getLsbD signFlag := by
  refine ⟨getLsbD_bextr_iff x control, toNat_bextr x control, getLsbD_bzhi_iff x control,
    toNat_bzhi x control, fun _ ↦ bextr_congr x, fun _ ↦ bzhi_congr x,
    fun hw _ hn ↦ bzhi_eq_bextr hw x hn, written?_bzhi x control, written?_bextr x control,
    fun rflags ↦ ?_⟩
  have hquiet : (bextr x control).2.written? signFlag = none := written?_bextr x control signFlag
  have hreserved : Flag.reservedMask.getLsbD signFlag = false := rfl
  rw [FlagUpdate.getLsbD_apply_eq_written?, hquiet, hreserved, Option.getD_none, Bool.or_false]

/-- A range of twenty bits from bit 24, of which only eight exist, under a control word with more set above its
two bytes; and a place between the two widths. -/
theorem bit_range_laws_pastTheEnd :
    (bextr (0xDEADBEEF : BitVec 32) 0xABCD1418).1.toNat = 0xDE ∧
      ((0xABCD1418 : BitVec 32).toNat % 2 ^ 16 = (0x1418 : BitVec 32).toNat % 2 ^ 16 ∧
        bextr (0xDEADBEEF : BitVec 32) 0xABCD1418 = bextr 0xDEADBEEF 0x1418) ∧
      (16 ≤ 32 ∧ 40 < 256 ∧
        (bzhi (0xDEADBEEF : BitVec 32) (.ofNat 32 40)).1 =
          (bextr 0xDEADBEEF (.ofNat 32 (40 * 256))).1) := by
  obtain ⟨-, hvalue, -⟩ := bit_range_laws (0xDEADBEEF : BitVec 32) 0xABCD1418
  obtain ⟨-, -, -, -, hcongr, -, hagree, -⟩ := bit_range_laws (0xDEADBEEF : BitVec 32) 0x1418
  exact ⟨hvalue, ⟨by decide, hcongr 0xABCD1418 (by decide)⟩, by decide, by decide,
    hagree (by decide) 40 (by decide)⟩

end TrapEmulation.BitManip

import TrapEmulation.Operand
import TrapEmulation.Proofs.Reference.Numbers

/-!
# Linear addresses as integers

The address of a memory operand is a sum of integers, reduced once at the address size of the
instruction and once more, after the base of the segment has been added, at the width of the mode.
Adding wrapping words gives the same address.
-/

namespace TrapEmulation.Reference

/-- The base that the encoding names: a register, or the end of the instruction, or nothing. -/
def base (i : Instruction) (regs : Registers) : Int :=
  match i.sib with
  | some s =>
    if s.base = 5 ∧ i.modrm.md = 0 then 0
    else register regs (s.base.toNat + 8 * i.extension.b.toNat)
  | none =>
    if i.modrm.rm = 5 ∧ i.modrm.md = 0 then
      match i.mode with
      | .bits64 => regs.rip.toNat + i.length
      | .bits32 => 0
    else register regs (i.modrm.rm.toNat + 8 * i.extension.b.toNat)

/-- The scaled index. -/
def scaledIndex (i : Instruction) (regs : Registers) : Int :=
  match i.sib with
  | some s =>
    let index := s.index.toNat + 8 * i.extension.x.toNat
    if index = 4 then 0 else register regs index * 2 ^ s.scale.toNat
  | none => 0

/-- The displacement, if there is one. -/
def displacement (i : Instruction) : Int := (i.displacement.map displacementValue).getD 0

/-- The base of the segment. -/
def segmentBase (i : Instruction) (regs : Registers) : Int :=
  match i.segment with
  | some .fs => regs.fsBase.toNat
  | some .gs => regs.gsBase.toNat
  | _ => 0

/-- The number of bits in an address within the segment. -/
def addressBits (i : Instruction) : Nat :=
  match i.mode with
  | .bits64 => if i.addressSizeOverride then 32 else 64
  | .bits32 => 32

/-- The number of bits in a linear address. -/
def linearBits : Mode → Nat
  | .bits32 => 32
  | .bits64 => 64

/-- The linear address of the memory operand. -/
def linearAddress (i : Instruction) (regs : Registers) : Int :=
  (segmentBase i regs +
    (base i regs + scaledIndex i regs + displacement i) % 2 ^ addressBits i) % 2 ^ linearBits i.mode

/-! ## Words -/

theorem ofInt_register (regs : Registers) (index : Nat) :
    BitVec.ofInt 64 (register regs index) = regs.gpr index := by
  rw [register_eq, BitVec.ofInt_natCast, BitVec.ofNat_toNat, BitVec.setWidth_eq]

theorem ofInt_base {i : Instruction} {regs : Registers} (hmode : i.mode = regs.mode) :
    BitVec.ofInt 64 (base i regs) =
      match i.sib with
      | some s => i.scaledBase s regs
      | none => i.plainBase regs := by
  unfold base
  cases i.sib with
  | some s =>
    change BitVec.ofInt 64 (if _ then _ else _) = i.scaledBase s regs
    unfold Instruction.scaledBase
    split
    · rfl
    · exact ofInt_register regs _
  | none =>
    change BitVec.ofInt 64 (if _ then _ else _) = i.plainBase regs
    unfold Instruction.plainBase
    split
    · cases hbits : i.mode with
      | bits64 =>
        have hip : regs.ip = regs.rip := by
          rw [Registers.ip, ← hmode, hbits, Mode.clip_bits64]
        change BitVec.ofInt 64 (regs.rip.toNat + i.length) = regs.ip + BitVec.ofNat 64 i.length
        rw [hip, BitVec.ofInt_add, BitVec.ofInt_natCast, BitVec.ofInt_natCast, BitVec.ofNat_toNat,
          BitVec.setWidth_eq]
      | bits32 => rfl
    · exact ofInt_register regs _

theorem ofInt_scaledIndex (i : Instruction) (regs : Registers) :
    BitVec.ofInt 64 (scaledIndex i regs) =
      match i.sib with
      | some s => i.scaledIndex s regs
      | none => 0 := by
  unfold scaledIndex
  cases i.sib with
  | none => rfl
  | some s =>
    change BitVec.ofInt 64 (if _ then _ else _) = i.scaledIndex s regs
    unfold Instruction.scaledIndex
    by_cases hnone : s.index.toNat + 8 * i.extension.x.toNat = 4
    · rw [if_pos hnone]
      simp only [hnone, ↓reduceIte]
      rfl
    · rw [if_neg hnone]
      simp only [hnone, ↓reduceIte]
      apply BitVec.eq_of_toNat_eq
      have hcast (value scale : Nat) :
          (value : Int) * 2 ^ scale = ((value * 2 ^ scale : Nat) : Int) := by
        rw [Int.natCast_mul, Int.natCast_pow]
        rfl
      rw [register_eq, hcast, BitVec.ofInt_natCast, BitVec.toNat_ofNat, BitVec.toNat_shiftLeft,
        Nat.shiftLeft_eq]

theorem ofInt_displacement (i : Instruction) :
    BitVec.ofInt 64 (displacement i) = i.displacementWord := by
  unfold displacement Instruction.displacementWord
  cases i.displacement with
  | none => rfl
  | some d => exact congrArg (BitVec.ofInt 64) (value_eq_displacementValue d).symm

/-- The sum of words is the sum of integers, wrapped. -/
theorem addressSum_eq {i : Instruction} {regs : Registers} (hmode : i.mode = regs.mode) :
    i.addressSum regs =
      BitVec.ofInt 64 (base i regs + scaledIndex i regs + displacement i) := by
  rw [BitVec.ofInt_add, BitVec.ofInt_add, ofInt_base hmode, ofInt_scaledIndex, ofInt_displacement]
  unfold Instruction.addressSum
  cases i.sib with
  | some s => rfl
  | none =>
    change _ = i.plainBase regs + 0#64 + i.displacementWord
    rw [BitVec.add_zero]

theorem addressBits_eq (i : Instruction) : i.addressBits = addressBits i := by
  unfold Instruction.addressBits addressBits
  cases i.mode <;> cases i.addressSizeOverride <;> rfl

theorem linearBits_eq (mode : Mode) : linearBits mode = mode.width := by
  cases mode <;> rfl

theorem segmentBase_eq (i : Instruction) (regs : Registers) :
    ((i.segmentBase regs).toNat : Int) = segmentBase i regs := by
  unfold Instruction.segmentBase segmentBase
  cases i.segment with
  | none => rfl
  | some segment => cases segment <;> rfl

/-- A wrapped integer masked to fewer bits is the remainder of the integer. -/
theorem toNat_ofInt_and_lowMask (z : Int) {bits : Nat} (hbits : bits ≤ 64) :
    ((BitVec.ofInt 64 z &&& lowMask 64 bits).toNat : Int) = z % 2 ^ bits := by
  have hdvd : (2 : Int) ^ bits ∣ 2 ^ 64 :=
    ⟨2 ^ (64 - bits), by rw [← Int.pow_add, Nat.add_sub_cancel' hbits]⟩
  have hwrapped : (((BitVec.ofInt 64 z).toNat : Nat) : Int) = z % 2 ^ 64 := by
    rw [BitVec.toNat_ofInt]
    exact Int.toNat_of_nonneg (Int.emod_nonneg z (by decide))
  calc
    ((BitVec.ofInt 64 z &&& lowMask 64 bits).toNat : Int) = (BitVec.ofInt 64 z).toNat % 2 ^ bits := by
      rw [toNat_and_lowMask, Int.natCast_emod, Int.natCast_pow]
      rfl
    _ = z % 2 ^ 64 % 2 ^ bits := by
      rw [hwrapped]
    _ = z % 2 ^ bits := Int.emod_emod_of_dvd z hdvd

theorem addressBits_le (i : Instruction) : addressBits i ≤ 64 := by
  unfold addressBits
  cases i.mode <;> cases i.addressSizeOverride <;> decide

/-- The effective address is the linear address. -/
theorem effectiveAddress_eq {i : Instruction} {regs : Registers} (hmode : i.mode = regs.mode) :
    ((i.effectiveAddress regs).toNat : Int) = linearAddress i regs := by
  have hdvd : (2 : Int) ^ i.mode.width ∣ 2 ^ 64 := by
    cases i.mode <;> decide
  have hoffset := toNat_ofInt_and_lowMask (base i regs + scaledIndex i regs + displacement i)
    (addressBits_le i)
  calc
    ((i.effectiveAddress regs).toNat : Int) =
        ((i.segmentBase regs).toNat + (i.addressSum regs &&& lowMask 64 i.addressBits).toNat) %
          2 ^ 64 % 2 ^ i.mode.width := by
      unfold Instruction.effectiveAddress
      rw [Mode.toNat_clip, BitVec.toNat_add, hmode, Int.natCast_emod, Int.natCast_emod,
        Int.natCast_add, Int.natCast_pow, Int.natCast_pow]
      rfl
    _ = (segmentBase i regs +
          (base i regs + scaledIndex i regs + displacement i) % 2 ^ addressBits i) %
          2 ^ 64 % 2 ^ i.mode.width := by
      rw [segmentBase_eq, addressSum_eq hmode, addressBits_eq, hoffset]
    _ = linearAddress i regs := by
      rw [linearAddress, linearBits_eq, Int.emod_emod_of_dvd _ hdvd]

end TrapEmulation.Reference

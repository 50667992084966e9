import Mathlib.Data.Int.ModEq
import TrapEmulation.Proofs.Encoding.WriteBack
import TrapEmulation.Proofs.Reference.Address

/-!
# The memory operand of a decoded instruction

Decoding and addressing together: the bytes say which registers make up the address, and the address is the
sum of integers that `Reference.linearAddress` gives.  What is cut off from the sum is cut off from each
register as well, so an address of 32 bits shows nothing of the upper halves of the registers.
-/

namespace TrapEmulation

namespace Reference

/-- The numbers of the registers that the address is computed from. -/
def addressRegisters (i : Instruction) : List Nat :=
  match i.sib with
  | some s =>
    let index := s.index.toNat + 8 * i.extension.x.toNat
    (if s.base = 5 ∧ i.modrm.md = 0 then [] else [s.base.toNat + 8 * i.extension.b.toNat]) ++
      if index = 4 then [] else [index]
  | none =>
    if i.modrm.rm = 5 ∧ i.modrm.md = 0 then [] else [i.modrm.rm.toNat + 8 * i.extension.b.toNat]

/-- Two snapshots agree in what the address is computed from: in the low bits of the registers and of the
instruction pointer, as many as the address has, and in the bases of the segments. -/
structure SameAddressInputs (i : Instruction) (regs other : Registers) : Prop where
  mode : other.mode = regs.mode
  fsBase : other.fsBase = regs.fsBase
  gsBase : other.gsBase = regs.gsBase
  rip : other.rip.toNat % 2 ^ addressBits i = regs.rip.toNat % 2 ^ addressBits i
  gpr : ∀ index ∈ addressRegisters i,
    (other.gpr index).toNat % 2 ^ addressBits i = (regs.gpr index).toNat % 2 ^ addressBits i

namespace SameAddressInputs

variable {i : Instruction} {regs other : Registers}

theorem register_modEq (h : SameAddressInputs i regs other) {index : Nat}
    (hindex : index ∈ addressRegisters i) :
    register other index ≡ register regs index [ZMOD 2 ^ addressBits i] := by
  rw [register_eq, register_eq]
  exact_mod_cast Int.natCast_modEq_iff.mpr (h.gpr index hindex)

theorem rip_modEq (h : SameAddressInputs i regs other) :
    (other.rip.toNat : Int) ≡ regs.rip.toNat [ZMOD 2 ^ addressBits i] := by
  exact_mod_cast Int.natCast_modEq_iff.mpr h.rip

theorem base_modEq (h : SameAddressInputs i regs other) :
    base i other ≡ base i regs [ZMOD 2 ^ addressBits i] := by
  have hregister := @h.register_modEq
  unfold addressRegisters at hregister
  unfold base
  cases hsib : i.sib with
  | some s =>
    rw [hsib] at hregister
    dsimp only at hregister ⊢
    split
    · rfl
    · next hbase =>
      rw [if_neg hbase] at hregister
      exact hregister (List.mem_append_left _ (List.mem_singleton_self _))
  | none =>
    rw [hsib] at hregister
    dsimp only at hregister ⊢
    split
    · cases i.mode with
      | bits64 => exact h.rip_modEq.add_right _
      | bits32 => rfl
    · next hbase =>
      rw [if_neg hbase] at hregister
      exact hregister (List.mem_singleton_self _)

theorem scaledIndex_modEq (h : SameAddressInputs i regs other) :
    scaledIndex i other ≡ scaledIndex i regs [ZMOD 2 ^ addressBits i] := by
  have hregister := @h.register_modEq
  unfold addressRegisters at hregister
  unfold scaledIndex
  cases hsib : i.sib with
  | none => rfl
  | some s =>
    rw [hsib] at hregister
    dsimp only at hregister ⊢
    split
    · rfl
    · next hindex =>
      rw [if_neg hindex] at hregister
      exact (hregister (List.mem_append_right _ (List.mem_singleton_self _))).mul_right _

theorem segmentBase_eq (h : SameAddressInputs i regs other) : segmentBase i other = segmentBase i regs := by
  unfold segmentBase
  rw [h.fsBase, h.gsBase]

theorem linearAddress_eq (h : SameAddressInputs i regs other) :
    linearAddress i other = linearAddress i regs := by
  have hsum := (h.base_modEq.add h.scaledIndex_modEq).add_right (displacement i)
  rw [linearAddress, linearAddress, h.segmentBase_eq, hsum]

end SameAddressInputs

theorem addressRegisters_lt {i : Instruction} (hcanonical : i.Canonical) :
    ∀ index ∈ addressRegisters i, index < 16 := by
  intro index hindex
  unfold addressRegisters at hindex
  cases hsib : i.sib with
  | some s =>
    have hfits : s.Fits := hcanonical.operands.sib_fits s hsib
    simp only [hsib, List.mem_append, List.mem_ite_nil_left, List.mem_singleton] at hindex
    obtain ⟨-, rfl⟩ | ⟨-, rfl⟩ := hindex
    · exact extended_lt_sixteen hfits.base_lt i.extension.b
    · exact extended_lt_sixteen hfits.index_lt i.extension.x
  | none =>
    simp only [hsib, List.mem_ite_nil_left, List.mem_singleton] at hindex
    obtain ⟨-, rfl⟩ := hindex
    exact extended_lt_sixteen hcanonical.operands.modrm_fits.rm_lt i.extension.b

end Reference

/-- Addresses that are the same integer are the same. -/
theorem eq_of_natCast_toNat_eq {address other : Address} (h : (address.toNat : Int) = other.toNat) :
    address = other :=
  BitVec.eq_of_toNat_eq (Int.ofNat.inj h)

open Reference

/-- The r/m operand of a decoded instruction, unless it is a register, is memory at the segment base plus the
sum of base, scaled index and displacement, where the sum wraps at the address size and the whole at the width
of the mode.  The address depends on nothing but the bits of its registers that the address size covers. -/
theorem effectiveAddress_of_decode {mode : Mode} {bytes : List Byte} {i : Instruction}
    {regs : Registers} (hdecode : decode mode bytes = .ok i) (hmode : regs.mode = mode)
    (hmemory : i.modrm.md ≠ 3) :
    i.rm regs = .memory (i.effectiveAddress regs) ∧
      ((i.effectiveAddress regs).toNat : Int) =
        (segmentBase i regs +
          (base i regs + scaledIndex i regs + displacement i) % 2 ^ addressBits i) %
          2 ^ linearBits mode ∧
      (∀ index ∈ addressRegisters i, index < 16) ∧
      ∀ other, SameAddressInputs i regs other → i.effectiveAddress other = i.effectiveAddress regs := by
  obtain ⟨hdecoded, hcanonical⟩ := canonical_of_decode hdecode
  have hsame : i.mode = regs.mode := hdecoded.trans hmode.symm
  have haddress := effectiveAddress_eq hsame
  refine ⟨Instruction.rm_eq_memory hmemory regs, ?_, addressRegisters_lt hcanonical, ?_⟩
  · rw [haddress, linearAddress, hdecoded]
  · intro other hother
    have hlinear := hother.linearAddress_eq
    rw [← haddress, ← effectiveAddress_eq (hsame.trans hother.mode.symm)] at hlinear
    exact eq_of_natCast_toNat_eq hlinear

/-- An address of 32 bits with every part: the base is in `r13`, the index in `r12`. -/
def narrowAddress : Instruction where
  mode := .bits64
  vex := some .threeByte
  extension := { x := true, b := true }
  vvvv := 3
  mandatory := .absent
  map := .map0F38
  opcode := 0xF2
  modrm := ⟨1, 0, 4⟩
  sib := some ⟨3, 4, 5⟩
  displacement := some (.disp8 0xFF)
  immediate := none
  segment := some .fs
  addressSizeOverride := true
  family := .bitManipulation
  length := 9

/-- The sum wraps: the index alone, eight times `0x20000000`, goes around once. -/
def narrowRegisters (upper : BitVec 32) : Registers :=
  { ((Registers.initial .bits64).setGpr 12 (upper ++ 0x20000000#32)).setGpr 13 (upper ++ 4#32) with
    fsBase := 0x7F0000000000 }

/-- An address sixteen bytes back from the end of the instruction, or from zero in 32-bit code. -/
def backwardAddress (mode : Mode) : Instruction where
  mode := mode
  vex := some .threeByte
  extension := {}
  vvvv := 3
  mandatory := .absent
  map := .map0F38
  opcode := 0xF2
  modrm := ⟨0, 0, 5⟩
  sib := none
  displacement := some (.disp32 0xFFFFFFF0)
  immediate := none
  segment := none
  addressSizeOverride := false
  family := .bitManipulation
  length := 9

/-- The instruction stands so low that going back leads around the end of the address space. -/
def backwardRegisters (mode : Mode) : Registers := { Registers.initial mode with rip := 4 }

theorem effectiveAddress_of_decode_narrow :
    decode .bits64 [0x64, 0x67, 0xC4, 0x82, 0x60, 0xF2, 0x44, 0xE5, 0xFF] = .ok narrowAddress ∧
      narrowAddress.effectiveAddress (narrowRegisters 0) = 0x7F0000000003 ∧
      narrowAddress.effectiveAddress (narrowRegisters 0xAAAAAAAA) = 0x7F0000000003 ∧
      (∀ mode, decode mode [0xC4, 0xE2, 0x60, 0xF2, 0x05, 0xF0, 0xFF, 0xFF, 0xFF] =
        .ok (backwardAddress mode)) ∧
      (backwardAddress .bits64).effectiveAddress (backwardRegisters .bits64) = 0xFFFFFFFFFFFFFFFD ∧
      (backwardAddress .bits32).effectiveAddress (backwardRegisters .bits32) = 0xFFFFFFF0 := by
  have hnarrow : decode .bits64 [0x64, 0x67, 0xC4, 0x82, 0x60, 0xF2, 0x44, 0xE5, 0xFF] =
      .ok narrowAddress := by
    rfl
  have hbackward (mode : Mode) :
      decode mode [0xC4, 0xE2, 0x60, 0xF2, 0x05, 0xF0, 0xFF, 0xFF, 0xFF] =
        .ok (backwardAddress mode) := by
    cases mode <;> rfl
  have hmode : (narrowRegisters 0).mode = .bits64 := rfl
  have hmode64 : (backwardRegisters .bits64).mode = .bits64 := rfl
  have hmode32 : (backwardRegisters .bits32).mode = .bits32 := rfl
  obtain ⟨-, haddress, -, hsame⟩ := effectiveAddress_of_decode hnarrow hmode (by decide)
  obtain ⟨-, haddress64, -⟩ := effectiveAddress_of_decode (hbackward .bits64) hmode64 (by decide)
  obtain ⟨-, haddress32, -⟩ := effectiveAddress_of_decode (hbackward .bits32) hmode32 (by decide)
  have hvalue : narrowAddress.effectiveAddress (narrowRegisters 0) = 0x7F0000000003 :=
    eq_of_natCast_toNat_eq (haddress.trans (by decide))
  refine ⟨hnarrow, hvalue, ?_, hbackward, ?_, ?_⟩
  · rw [hsame (narrowRegisters 0xAAAAAAAA) ⟨rfl, rfl, rfl, rfl, by decide⟩, hvalue]
  · exact eq_of_natCast_toNat_eq (haddress64.trans (by decide))
  · exact eq_of_natCast_toNat_eq (haddress32.trans (by decide))

end TrapEmulation

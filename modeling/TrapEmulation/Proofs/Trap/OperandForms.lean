import TrapEmulation.Memory.Window
import TrapEmulation.Proofs.Trap.Execution

/-!
# Register forms and memory forms

The r/m operand of an instruction is a register or a place in memory.  Everything else about the instruction is
encoded apart from it, so two forms that agree there do the same to the same operand: all that tells them
apart afterwards is their length.  This includes operands which are registers that the instruction writes.
-/

namespace TrapEmulation

open Reference

variable {σ : Type} [UserMemory σ]

/-- What an instruction encodes apart from its r/m operand. -/
def Instruction.apartFromRm (i : Instruction) : Instruction :=
  { i with
    extension := { i.extension with x := false, b := false }
    modrm := ⟨0, i.modrm.reg, 0⟩
    sib := none
    displacement := none
    segment := none
    addressSizeOverride := false
    length := 0 }

theorem Instruction.operation?_apartFromRm (i : Instruction) :
    i.apartFromRm.operation? = i.operation? := by
  rfl

namespace Operation

theorem operandWidth_apartFromRm (operation : Operation) (i : Instruction) :
    operation.operandWidth i.apartFromRm = operation.operandWidth i := by
  cases operation <;> rfl

/-- Only the length of an effect depends on how the operand was encoded. -/
theorem effect_apartFromRm {w : Nat} (operation : Operation) (i : Instruction) (regs : Registers)
    (rm : BitVec w) :
    { operation.effect i.apartFromRm regs rm with length := i.length } = operation.effect i regs rm := by
  cases operation with
  | bit op => cases op <;> rfl
  | compare op => cases op <;> rfl

/-- Operands of one width are told apart by their numbers. -/
theorem effect_congr {v w : Nat} (operation : Operation) (i : Instruction) (regs : Registers)
    (hwidth : v = w) {rm : BitVec v} {rm' : BitVec w} (hvalue : rm.toNat = rm'.toNat) :
    operation.effect i regs rm = operation.effect i regs rm' := by
  subst hwidth
  rw [BitVec.eq_of_toNat_eq hvalue]

theorem effect_operand_forms {v w : Nat} (operation : Operation) {i j : Instruction}
    (hsame : i.apartFromRm = j.apartFromRm) (regs : Registers) (hwidth : v = w)
    {rm : BitVec v} {rm' : BitVec w} (hvalue : rm.toNat = rm'.toNat) :
    operation.effect j regs rm' = { operation.effect i regs rm with length := j.length } := by
  rw [← effect_apartFromRm operation j, ← effect_apartFromRm operation i, hsame,
    effect_congr operation j.apartFromRm regs hwidth hvalue]

end Operation

/-- The register form of an instruction and a memory form of it do the same to the same operand.  The memory
form reads its operand once, and if that fails the fault is all there is. -/
theorem execute_operand_forms (operation : Operation) {i j : Instruction}
    (hsame : i.apartFromRm = j.apartFromRm) (hregister : i.modrm.md = 3) (hmemory : j.modrm.md ≠ 3)
    (regs : Registers) (memory : σ) :
    j.operation? = i.operation? ∧
      (∀ (cells : Vector Byte (operandBytes operation i)) (after : σ),
        UserMemory.read memory (j.effectiveAddress regs) (operandBytes operation i) =
            (.ok cells, after) →
          cells.toList = encodeLE (operandBytes operation i) (rmValue operation i regs) →
            ∃ effect, effect.length = i.length ∧
              operation.execute i regs memory = (.ok effect, memory) ∧
              operation.execute j regs memory = (.ok { effect with length := j.length }, after)) ∧
      ∀ (fault : MemoryFault) (after : σ),
        UserMemory.read memory (j.effectiveAddress regs) (operandBytes operation i) =
            (.error fault, after) →
          operation.execute j regs memory = (.error (.memory fault), after) := by
  have hoperation : j.operation? = i.operation? := by
    rw [← i.operation?_apartFromRm, hsame, j.operation?_apartFromRm]
  have hwidth : operation.operandWidth i = operation.operandWidth j := by
    rw [← operation.operandWidth_apartFromRm i, hsame, operation.operandWidth_apartFromRm]
  have hcount : operandBytes operation j = operandBytes operation i := by
    rw [← operation.bytes_operandWidth, ← hwidth, operation.bytes_operandWidth]
  refine ⟨hoperation, ?_, ?_⟩
  · intro cells after hcells hvalue
    obtain ⟨rm, hrm, hfirst⟩ := operation.execute_register hregister regs memory
    obtain ⟨rm', hrm', hsecond⟩ := Operation.execute_memory hmemory hcount hcells
    -- Both operands are the number in the register, cut to the width of the operand.
    have hequal : rm.toNat = rm'.toNat := by
      have hfits : rm.toNat < 256 ^ operandBytes operation i := by
        rw [← operation.bytes_operandWidth, ← OperandWidth.two_pow_bits]
        exact rm.isLt
      rw [hrm', hvalue, decodeLE_encodeLE, ← hrm, Nat.mod_eq_of_lt hfits]
    refine ⟨_, operation.length_effect i regs rm, hfirst, ?_⟩
    rw [hsecond, operation.effect_operand_forms hsame regs (congrArg OperandWidth.bits hwidth) hequal]
  · intro fault after hfault
    exact Operation.execute_memory_error hmemory hcount hfault

/-! ## One instruction in both forms -/

/-- The register form clears the lowest set bit of its own operand. -/
def registerBlsr : Instruction where
  mode := .bits64
  vex := some .threeByte
  extension := {}
  vvvv := 1
  mandatory := .absent
  map := .map0F38
  opcode := 0xF3
  modrm := ⟨3, 1, 1⟩
  sib := none
  displacement := none
  immediate := none
  segment := none
  addressSizeOverride := false
  family := .bitManipulation
  length := 5

/-- The memory form has a segment, a scaled index and a displacement, and computes a narrow address. -/
def memoryBlsr : Instruction :=
  { registerBlsr with
    extension := { x := true, b := true }
    modrm := ⟨1, 1, 4⟩
    sib := some ⟨3, 4, 5⟩
    displacement := some (.disp8 0xFF)
    segment := some .fs
    addressSizeOverride := true
    length := 9 }

def blsrRegisters : Registers :=
  (((Registers.initial .bits64).setGpr 1 0xFFFFFFFF00000018).setGpr 12 0x20000000).setGpr 13 4

/-- The operand stands in front of the end of readable memory. -/
def blsrMemory : AddressSpace := [⟨3, #[0x18, 0x00, 0x00, 0x00]⟩]

def blsrEffect : Effect where
  writes := [.gpr 1 0x10]
  flags := some (.ofList [(.zero, false), (.sign, false), (.carry, false), (.overflow, false)])
  length := 5

theorem execute_operand_forms_blsr :
    decode .bits64 [0xC4, 0xE2, 0x70, 0xF3, 0xC9] = .ok registerBlsr ∧
      decode .bits64 [0x64, 0x67, 0xC4, 0x82, 0x70, 0xF3, 0x4C, 0xE5, 0xFF] = .ok memoryBlsr ∧
      (Operation.bit .blsr).execute registerBlsr blsrRegisters blsrMemory =
        (.ok blsrEffect, blsrMemory) ∧
      (Operation.bit .blsr).execute memoryBlsr blsrRegisters blsrMemory =
        (.ok { blsrEffect with length := 9 }, blsrMemory) ∧
      (Operation.bit .blsr).execute memoryBlsr blsrRegisters ([] : AddressSpace) =
        (.error (.memory ⟨3⟩), []) := by
  have hapart : registerBlsr.apartFromRm = memoryBlsr.apartFromRm := rfl
  have hforms (memory : AddressSpace) :=
    execute_operand_forms (.bit .blsr) hapart rfl (by decide) blsrRegisters memory
  obtain ⟨-, hsame, -⟩ := hforms blsrMemory
  obtain ⟨effect, -, hfirst, hsecond⟩ := hsame #v[0x18, 0, 0, 0] blsrMemory rfl rfl
  have heffect : effect = blsrEffect := by
    have hexecute : (Operation.bit .blsr).execute registerBlsr blsrRegisters blsrMemory =
        (.ok blsrEffect, blsrMemory) := by
      rfl
    rw [hexecute] at hfirst
    cases hfirst
    rfl
  rw [heffect] at hfirst hsecond
  obtain ⟨-, -, hfault⟩ := hforms []
  exact ⟨rfl, rfl, hfirst, hsecond, hfault ⟨3⟩ [] rfl⟩

end TrapEmulation

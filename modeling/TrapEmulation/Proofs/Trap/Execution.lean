import TrapEmulation.Proofs.Memory.Agreement
import TrapEmulation.Proofs.Trap.Encodings

/-!
# One operand

Both engines work in the same way: they read the r/m operand once, at a width that the operation and the
instruction fix, and compute the effect from its value.  Whatever relates two executions can therefore be
said about the two operands, without telling the engines apart.
-/

namespace TrapEmulation

open Reference

variable {σ τ : Type} [UserMemory σ] [UserMemory τ]

theorem OperandWidth.two_pow_bits (width : OperandWidth) : 2 ^ width.bits = 256 ^ width.bytes :=
  Nat.pow_mul 2 8 width.bytes

namespace Operation

/-- The width of the r/m operand. -/
def operandWidth : Operation → Instruction → OperandWidth
  | .bit _, i => i.gprWidth
  | .compare _, _ => .w128

/-- What an operation does, given the value of its r/m operand. -/
def effect {w : Nat} (operation : Operation) (i : Instruction) (regs : Registers) (rm : BitVec w) :
    Effect :=
  match operation with
  | .bit op => BitManip.effect op i regs rm
  | .compare op => StringCompare.effect op i regs (rm.setWidth 128)

theorem bytes_operandWidth (operation : Operation) (i : Instruction) :
    (operation.operandWidth i).bytes = operandBytes operation i := by
  cases operation with
  | bit op => exact (width_div_eight i).symm
  | compare op => rfl

theorem length_effect {w : Nat} (operation : Operation) (i : Instruction) (regs : Registers)
    (rm : BitVec w) : (operation.effect i regs rm).length = i.length := by
  cases operation with
  | bit op => exact BitManip.length_effect op i regs rm
  | compare op => rfl

/-- Executing an operation is reading its r/m operand and computing the effect. -/
theorem execute_eq (operation : Operation) (i : Instruction) (regs : Registers) (memory : σ) :
    operation.execute i regs memory =
      match (i.rm regs).read regs memory (operation.operandWidth i) with
      | (.error fault, after) => (.error (.memory fault), after)
      | (.ok rm, after) => (.ok (operation.effect i regs rm), after) := by
  cases operation with
  | bit op =>
    change BitManip.execute (.bit op) i regs memory = _
    rw [BitManip.execute]
    cases h : (i.rm regs).read regs memory i.gprWidth with
    | mk answer after => cases answer <;> simp only [operandWidth, effect, h]
  | compare op =>
    change StringCompare.execute (.compare op) i regs memory = _
    rw [StringCompare.execute]
    cases h : (i.rm regs).read regs memory .w128 with
    | mk answer after =>
      cases answer with
      | error fault => simp only [operandWidth, h]
      | ok rm =>
        simp only [operandWidth, effect, h]
        rfl

theorem execute_fst (operation : Operation) (i : Instruction) (regs : Registers) (memory : σ) :
    (operation.execute i regs memory).1 =
      (((i.rm regs).read regs memory (operation.operandWidth i)).1.mapError .memory).map
        (operation.effect i regs) := by
  rw [execute_eq]
  cases (i.rm regs).read regs memory (operation.operandWidth i) with
  | mk answer after => cases answer <;> rfl

/-- Whatever is read, the instruction pointer moves on by the length of the instruction. -/
theorem length_of_execute {operation : Operation} {i : Instruction} {regs : Registers} {memory : σ}
    {effect : Effect} (hexecute : (operation.execute i regs memory).1 = .ok effect) :
    effect.length = i.length := by
  rw [execute_fst] at hexecute
  cases hread : ((i.rm regs).read regs memory (operation.operandWidth i)).1 with
  | error fault =>
    rw [hread] at hexecute
    cases hexecute
  | ok rm =>
    rw [hread] at hexecute
    cases hexecute
    exact operation.length_effect i regs rm

theorem execute_of_operand {operation : Operation} {i : Instruction} {regs : Registers}
    {memory after : σ} {rm : BitVec (operation.operandWidth i).bits}
    (hread : (i.rm regs).read regs memory (operation.operandWidth i) = (.ok rm, after)) :
    operation.execute i regs memory = (.ok (operation.effect i regs rm), after) := by
  rw [execute_eq, hread]

theorem execute_of_operand_error {operation : Operation} {i : Instruction} {regs : Registers}
    {memory after : σ} {fault : MemoryFault}
    (hread : (i.rm regs).read regs memory (operation.operandWidth i) = (.error fault, after)) :
    operation.execute i regs memory = (.error (.memory fault), after) := by
  rw [execute_eq, hread]

/-! ## The operand -/

/-- A register is read without looking at the memory. -/
theorem execute_register (operation : Operation) {i : Instruction} (hregister : i.modrm.md = 3)
    (regs : Registers) (memory : σ) :
    ∃ rm : BitVec (operation.operandWidth i).bits, rm.toNat = rmValue operation i regs ∧
      operation.execute i regs memory = (.ok (operation.effect i regs rm), memory) := by
  have hrm : i.rm regs = .register i.rmIndex := Instruction.rm_eq_register hregister regs
  cases operation with
  | bit op =>
    have hvalue : ((regs.gpr i.rmIndex).setWidth i.gprWidth.bits).toNat =
        rmValue (.bit op) i regs := by
      rw [BitVec.toNat_setWidth, BitManip.bits_gprWidth]
      rfl
    refine ⟨_, hvalue, execute_of_operand ?_⟩
    rw [hrm]
    exact read_register i i.rmIndex regs memory
  | compare op =>
    refine ⟨regs.xmm i.rmIndex, rfl, execute_of_operand ?_⟩
    rw [hrm]
    rfl

/-- Memory is read at the effective address, and only there. -/
theorem read_memory (operation : Operation) {i : Instruction} (hmemory : i.modrm.md ≠ 3)
    (regs : Registers) (memory : σ) :
    (i.rm regs).read regs memory (operation.operandWidth i) =
      UserMemory.readWord memory (i.effectiveAddress regs) (operation.operandWidth i).bytes := by
  rw [Instruction.rm_eq_memory hmemory]
  cases operation.operandWidth i <;> rfl

theorem execute_memory {operation : Operation} {i : Instruction} {regs : Registers} {memory after : σ}
    (hmemory : i.modrm.md ≠ 3) {count : Nat} (hcount : operandBytes operation i = count)
    {cells : Vector Byte count}
    (hread : UserMemory.read memory (i.effectiveAddress regs) count = (.ok cells, after)) :
    ∃ rm : BitVec (operation.operandWidth i).bits, rm.toNat = decodeLE cells.toList ∧
      operation.execute i regs memory = (.ok (operation.effect i regs rm), after) := by
  obtain rfl : (operation.operandWidth i).bytes = count := (operation.bytes_operandWidth i).trans hcount
  have hfits : decodeLE cells.toList < 2 ^ (operation.operandWidth i).bits := by
    have hlt := decodeLE_lt cells.toList
    rwa [Vector.length_toList, ← OperandWidth.two_pow_bits] at hlt
  refine ⟨BitVec.ofNat _ (decodeLE cells.toList), ?_, execute_of_operand ?_⟩
  · rw [BitVec.toNat_ofNat, Nat.mod_eq_of_lt hfits]
  · rw [read_memory operation hmemory, UserMemory.readWord, hread]
    rfl

theorem execute_memory_error {operation : Operation} {i : Instruction} {regs : Registers}
    {memory after : σ} {fault : MemoryFault} (hmemory : i.modrm.md ≠ 3) {count : Nat}
    (hcount : operandBytes operation i = count)
    (hread : UserMemory.read memory (i.effectiveAddress regs) count = (.error fault, after)) :
    operation.execute i regs memory = (.error (.memory fault), after) := by
  obtain rfl : (operation.operandWidth i).bytes = count := (operation.bytes_operandWidth i).trans hcount
  apply execute_of_operand_error
  rw [read_memory operation hmemory, UserMemory.readWord, hread]
  rfl

/-- Execution looks at the memory only where the r/m operand is. -/
theorem execute_congr {operation : Operation} {i : Instruction} {regs : Registers} {memory : σ}
    {other : τ}
    (halike : i.modrm.md ≠ 3 → UserMemory.AnswersAlike memory other (i.effectiveAddress regs)
      (operandBytes operation i)) :
    (operation.execute i regs memory).1 = (operation.execute i regs other).1 := by
  have hread : ((i.rm regs).read regs memory (operation.operandWidth i)).1 =
      ((i.rm regs).read regs other (operation.operandWidth i)).1 := by
    by_cases hregister : i.modrm.md = 3
    · rw [Instruction.rm_eq_register hregister regs]
      cases operation.operandWidth i <;> rfl
    · have hword := (halike hregister).readWord
      rw [← operation.bytes_operandWidth] at hword
      rw [read_memory operation hregister, read_memory operation hregister]
      exact hword
  rw [execute_fst, execute_fst, hread]

end Operation

end TrapEmulation

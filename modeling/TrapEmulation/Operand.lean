import TrapEmulation.Encoding.Instruction
import TrapEmulation.Memory.UserMemory
import TrapEmulation.Registers.Snapshot

/-!
# Operands

The r/m operand of an instruction is a register or a place in memory. A memory address is a sum of
registers and a displacement, taken at the address size of the instruction, to which the base of an
overriding segment is added; the whole wraps at the width of the mode.
-/

namespace TrapEmulation

inductive OperandWidth where
  | w32
  | w64
  | w128
  deriving DecidableEq, Repr

namespace OperandWidth

def bytes : OperandWidth → Nat
  | w32 => 4
  | w64 => 8
  | w128 => 16

def bits (width : OperandWidth) : Nat := 8 * width.bytes

end OperandWidth

/-- The width of an instruction's general register operands. -/
def Instruction.gprWidth (i : Instruction) : OperandWidth := if i.wide then .w64 else .w32

/-! ## Addresses -/

namespace Instruction

/-- The number of bits in which the instruction computes an address. -/
def addressBits (i : Instruction) : Nat :=
  if i.mode = .bits64 ∧ i.addressSizeOverride = false then 64 else 32

/-- The base of an overriding segment. Only FS and GS have one. -/
def segmentBase (i : Instruction) (regs : Registers) : Address :=
  match i.segment with
  | some .fs => regs.fsBase
  | some .gs => regs.gsBase
  | _ => 0

def displacementWord (i : Instruction) : Address :=
  match i.displacement with
  | some d => BitVec.ofInt 64 d.value
  | none => 0

/-- The base of a scaled-index operand. The register number 5 means none where the encoding says so,
whatever its extension. -/
def scaledBase (i : Instruction) (s : Sib) (regs : Registers) : Address :=
  if s.base = 5 ∧ i.modrm.md = 0 then 0
  else regs.gpr (s.base.toNat + 8 * i.extension.b.toNat)

/-- The index of a scaled-index operand. The extended register number 4 means none. -/
def scaledIndex (i : Instruction) (s : Sib) (regs : Registers) : Address :=
  let index := s.index.toNat + 8 * i.extension.x.toNat
  if index = 4 then 0 else regs.gpr index <<< s.scale.toNat

/-- What the displacement is added to if there is no scaled index: a register, or in its place the
address of the next instruction in 64-bit mode and nothing in 32-bit mode. -/
def plainBase (i : Instruction) (regs : Registers) : Address :=
  if i.modrm.rm = 5 ∧ i.modrm.md = 0 then
    match i.mode with
    | .bits64 => regs.ip + BitVec.ofNat 64 i.length
    | .bits32 => 0
  else
    regs.gpr i.rmIndex

/-- The sum that makes up an address within its segment. -/
def addressSum (i : Instruction) (regs : Registers) : Address :=
  match i.sib with
  | some s => i.scaledBase s regs + i.scaledIndex s regs + i.displacementWord
  | none => i.plainBase regs + i.displacementWord

/-- The linear address of the memory operand. -/
def effectiveAddress (i : Instruction) (regs : Registers) : Address :=
  regs.mode.clip (i.segmentBase regs + (i.addressSum regs &&& lowMask 64 i.addressBits))

end Instruction

/-! ## Reading -/

/-- A register, general or vector by the width read, or memory at a linear address. -/
inductive Operand where
  | register (index : Nat)
  | memory (address : Address)
  deriving DecidableEq, Repr

/-- The r/m operand. -/
def Instruction.rm (i : Instruction) (regs : Registers) : Operand :=
  if i.modrm.isRegister then .register i.rmIndex else .memory (i.effectiveAddress regs)

theorem Instruction.rm_eq_register {i : Instruction} (hregister : i.modrm.md = 3) (regs : Registers) :
    i.rm regs = .register i.rmIndex := by
  rw [rm, ModRm.isRegister, hregister]
  rfl

theorem Instruction.rm_eq_memory {i : Instruction} (hmemory : i.modrm.md ≠ 3) (regs : Registers) :
    i.rm regs = .memory (i.effectiveAddress regs) := by
  rw [rm, ModRm.isRegister, beq_eq_false_iff_ne.mpr hmemory]
  rfl

/-- The operand's value. Reads of 128 bits take a vector register and narrower ones a general one. -/
def Operand.read {σ : Type} [UserMemory σ] (operand : Operand) (regs : Registers) (memory : σ)
    (width : OperandWidth) : Except MemoryFault (BitVec width.bits) × σ :=
  match operand, width with
  | .register index, .w128 => (.ok (regs.xmm index), memory)
  | .register index, width => (.ok ((regs.gpr index).setWidth width.bits), memory)
  | .memory address, width => UserMemory.readWord memory address width.bytes

end TrapEmulation

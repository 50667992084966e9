import TrapEmulation.Operand
import TrapEmulation.Proofs.Checked.Registers
import TrapEmulation.Proofs.Encoding.Operands

/-!
# Checked operands

An address is computed only for an operand in memory, its index is shifted by a scale of two bits, and
a value read from memory fits the sixteen bytes that are set aside for it. The fields of a decoded
instruction fit their places, and then no rule is broken.
-/

namespace TrapEmulation.Checked

/-- The fields that operands are found by fit their places. -/
structure FieldsFit (i : Instruction) : Prop where
  modrm_fits : i.modrm.Fits
  sib_fits : ∀ s ∈ i.sib, s.Fits

/-! ## Register numbers -/

def regIndex (i : Instruction) : Run Nat := registerNumber i.modrm.reg i.extension.r

def rmIndex (i : Instruction) : Run Nat := registerNumber i.modrm.rm i.extension.b

variable {i : Instruction}

theorem FieldsFit.regIndex_eq (h : FieldsFit i) : regIndex i = pure i.regIndex :=
  registerNumber_eq h.modrm_fits.reg_lt i.extension.r

theorem FieldsFit.rmIndex_eq (h : FieldsFit i) : rmIndex i = pure i.rmIndex :=
  registerNumber_eq h.modrm_fits.rm_lt i.extension.b

/-! ## Addresses -/

def scaledBase (i : Instruction) (s : Sib) (regs : Registers) : Run Address :=
  if s.base = 5 ∧ i.modrm.md = 0 then
    return 0
  else do
    let number ← registerNumber s.base i.extension.b
    gpr regs number

def scaledIndex (i : Instruction) (s : Sib) (regs : Registers) : Run Address := do
  let number ← registerNumber s.index i.extension.x
  if number = 4 then
    return 0
  else do
    let index ← gpr regs number
    shiftLeft index s.scale.toNat

def plainBase (i : Instruction) (regs : Registers) : Run Address :=
  if i.modrm.rm = 5 ∧ i.modrm.md = 0 then
    match i.mode with
    | .bits64 => do
      let here ← ip regs
      return here + BitVec.ofNat 64 i.length
    | .bits32 => return 0
  else do
    let number ← rmIndex i
    gpr regs number

def addressSum (i : Instruction) (regs : Registers) : Run Address :=
  match i.sib with
  | some s => do
    let base ← scaledBase i s regs
    let index ← scaledIndex i s regs
    return base + index + i.displacementWord
  | none => do
    let base ← plainBase i regs
    return base + i.displacementWord

/-- The linear address of the memory operand. There has to be one. -/
def effectiveAddress (i : Instruction) (regs : Registers) : Run Address := do
  require (i.modrm.isRegister = false)
  let addressMask ← maskBits i.addressBits
  let sum ← addressSum i regs
  let modeMask ← maskBits regs.mode.width
  return (i.segmentBase regs + (sum &&& addressMask)) &&& modeMask

theorem scaledBase_eq (i : Instruction) {s : Sib} (h : s.Fits) (regs : Registers) :
    scaledBase i s regs = pure (i.scaledBase s regs) := by
  unfold scaledBase Instruction.scaledBase
  split
  case isTrue => rfl
  case isFalse => rw [registerNumber_eq h.base_lt, pure_bind, gpr_eq_pure]

theorem scaledIndex_eq (i : Instruction) {s : Sib} (h : s.Fits) (regs : Registers) :
    scaledIndex i s regs = pure (i.scaledIndex s regs) := by
  have hscale : s.scale.toNat < 64 := Nat.lt_trans h.scale_lt (by decide)
  unfold scaledIndex Instruction.scaledIndex
  rw [registerNumber_eq h.index_lt, pure_bind]
  dsimp only
  split
  case isTrue => rfl
  case isFalse => rw [gpr_eq_pure, pure_bind, shiftLeft, guarded_eq hscale]

theorem FieldsFit.plainBase_eq (h : FieldsFit i) (regs : Registers) :
    plainBase i regs = pure (i.plainBase regs) := by
  unfold plainBase Instruction.plainBase
  split
  case isTrue =>
    cases i.mode with
    | bits64 => simp only [ip_eq_pure, pure_bind]
    | bits32 => rfl
  case isFalse => rw [h.rmIndex_eq, pure_bind, gpr_eq_pure]

theorem FieldsFit.addressSum_eq (h : FieldsFit i) (regs : Registers) :
    addressSum i regs = pure (i.addressSum regs) := by
  unfold addressSum Instruction.addressSum
  cases hsib : i.sib with
  | some s =>
    have hfits : s.Fits := h.sib_fits s hsib
    simp only [scaledBase_eq i hfits, scaledIndex_eq i hfits, pure_bind]
  | none => simp only [h.plainBase_eq, pure_bind]

theorem FieldsFit.effectiveAddress_eq (h : FieldsFit i) (hmemory : i.modrm.isRegister = false)
    (regs : Registers) : effectiveAddress i regs = pure (i.effectiveAddress regs) := by
  rw [effectiveAddress, require, guarded_eq hmemory, pure_bind, maskBits_eq, pure_bind,
    h.addressSum_eq, pure_bind, maskBits_eq, pure_bind, Instruction.effectiveAddress, Mode.clip,
    Mode.mask]

/-- An operand in a register has no address. -/
example (regs : Registers) (h : i.modrm.isRegister = true) :
    effectiveAddress i regs = .error .assertion := by
  rw [effectiveAddress, require, guarded, h]
  rfl

/-! ## Reading -/

/-- The r/m operand. -/
def rm (i : Instruction) (regs : Registers) : Run Operand :=
  if i.modrm.isRegister then do
    let number ← rmIndex i
    return .register number
  else do
    let address ← effectiveAddress i regs
    return .memory address

/-- The operand's value. Bytes from memory go to the front of a buffer of sixteen. -/
def read {σ : Type} [UserMemory σ] (operand : Operand) (regs : Registers) (memory : σ)
    (width : OperandWidth) : Run (Except MemoryFault (BitVec width.bits) × σ) :=
  match operand, width with
  | .register index, .w128 => do
    let value ← xmm regs index
    return (.ok value, memory)
  | .register index, width => do
    let value ← gpr regs index
    let mask ← maskBits width.bits
    return (.ok ((value &&& mask).setWidth width.bits), memory)
  | .memory address, width => do
    let _ ← slice (Vector.replicate 16 (0 : Byte)) 0 width.bytes
    return UserMemory.readWord memory address width.bytes

theorem FieldsFit.rm_eq (h : FieldsFit i) (regs : Registers) : rm i regs = pure (i.rm regs) := by
  unfold rm Instruction.rm
  split
  case isTrue => rw [h.rmIndex_eq, pure_bind]
  case isFalse hregister =>
    rw [h.effectiveAddress_eq (Bool.eq_false_iff.mpr hregister), pure_bind]

theorem setWidth_and_lowMask (x : BitVec 64) (count : Nat) :
    (x &&& lowMask 64 count).setWidth count = x.setWidth count := by
  apply BitVec.eq_of_getLsbD_eq
  intro i hi
  rw [BitVec.getLsbD_setWidth, BitVec.getLsbD_setWidth, BitVec.getLsbD_and, getLsbD_lowMask]
  by_cases hwidth : i < 64
  · simp [hi, hwidth]
  · rw [BitVec.getLsbD_of_ge x i (Nat.le_of_not_lt hwidth), Bool.false_and]

theorem read_eq {σ : Type} [UserMemory σ] (operand : Operand) (regs : Registers) (memory : σ)
    (width : OperandWidth) :
    read operand regs memory width = pure (operand.read regs memory width) := by
  cases operand with
  | register index =>
    cases width with
    | w128 => simp only [read, xmm_eq_pure, pure_bind, Operand.read]
    | w32 => simp only [read, gpr_eq_pure, maskBits_eq, pure_bind, setWidth_and_lowMask, Operand.read]
    | w64 => simp only [read, gpr_eq_pure, maskBits_eq, pure_bind, setWidth_and_lowMask, Operand.read]
  | memory address =>
    have hroom : 0 ≤ width.bytes ∧ width.bytes ≤ 16 := by cases width <;> decide
    rw [read, slice, guarded_eq hroom, pure_bind]
    rfl

end TrapEmulation.Checked

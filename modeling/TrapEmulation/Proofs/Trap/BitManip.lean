import TrapEmulation.Memory.Window
import TrapEmulation.Proofs.BitManip.Effects
import TrapEmulation.Proofs.OpcodeTable
import TrapEmulation.Proofs.Trap.Handled

/-!
# Traps of bit-manipulation instructions

Every encoding of a bit-manipulation operation that can be read, together with its operand, is
handled, and the registers are afterwards those that arithmetic gives.
-/

namespace TrapEmulation

open Reference

variable {σ : Type} [UserMemory σ]

/-! ## Encodings -/

/-- How an operation is told from others. -/
structure BitEncoding where
  mandatory : MandatoryPrefix
  map : OpcodeMap
  opcode : Byte
  /-- What the reg field holds where it extends the opcode. -/
  digit : Option Byte := none
  deriving DecidableEq, Repr

def bitEncoding : BitOp → BitEncoding
  | .rorx => { mandatory := .pF2, map := .map0F3A, opcode := 0xF0 }
  | .andn => { mandatory := .absent, map := .map0F38, opcode := 0xF2 }
  | .blsr => { mandatory := .absent, map := .map0F38, opcode := 0xF3, digit := some 1 }
  | .blsmsk => { mandatory := .absent, map := .map0F38, opcode := 0xF3, digit := some 2 }
  | .blsi => { mandatory := .absent, map := .map0F38, opcode := 0xF3, digit := some 3 }
  | .bzhi => { mandatory := .absent, map := .map0F38, opcode := 0xF5 }
  | .pext => { mandatory := .pF3, map := .map0F38, opcode := 0xF5 }
  | .pdep => { mandatory := .pF2, map := .map0F38, opcode := 0xF5 }
  | .mulx => { mandatory := .pF2, map := .map0F38, opcode := 0xF6 }
  | .bextr => { mandatory := .absent, map := .map0F38, opcode := 0xF7 }
  | .shlx => { mandatory := .p66, map := .map0F38, opcode := 0xF7 }
  | .sarx => { mandatory := .pF3, map := .map0F38, opcode := 0xF7 }
  | .shrx => { mandatory := .pF2, map := .map0F38, opcode := 0xF7 }

/-- The body encodes the operation.  A rotation has no use for the extra register. -/
structure EncodesBit (mode : Mode) (op : BitOp) (body : Body) : Prop where
  vex : ∃ v, body.vex = some v ∧ v.mandatory = (bitEncoding op).mandatory ∧
    (op = .rorx → v.vvvvIn mode = 0)
  map : body.map = (bitEncoding op).map
  opcode : body.opcode = (bitEncoding op).opcode
  digit : ∀ digit ∈ (bitEncoding op).digit, body.operands.modrm.reg = digit

/-- Every operation has a row with its encoding. -/
theorem exists_row (op : BitOp) :
    ∃ row ∈ opcodeTable, row.operation = .bit op ∧ row.map = (bitEncoding op).map ∧
      row.opcode = (bitEncoding op).opcode ∧ row.mandatory = (bitEncoding op).mandatory ∧
      row.reg = (bitEncoding op).digit ∧ row.vvvvUnused = decide (op = .rorx) ∧ row.vexOnly := by
  cases op <;> decide

theorem operation?_of_encodesBit {mode : Mode} {op : BitOp} {body : Body}
    (hencodes : EncodesBit mode op body) (prefixes : List Byte) :
    (describe mode prefixes body).operation? = some (.bit op) := by
  obtain ⟨row, hrow, hoperation, hmap, hopcode, hmandatory, hreg, hunused, -⟩ := exists_row op
  obtain ⟨v, hvex, hmandatory', hvvvv⟩ := hencodes.vex
  have hcovers : row.covers (describe mode prefixes body) := by
    rw [OpcodeRow.covers_iff]
    refine ⟨hmap.trans hencodes.map.symm, hopcode.trans hencodes.opcode.symm, ?_, ?_, ?_, ?_⟩
    · rw [hmandatory, ← hmandatory', describe, hvex]
    · intro reg hmem
      rw [hreg] at hmem
      exact (hencodes.digit reg hmem).symm
    · intro _
      rw [Instruction.isVex, describe, hvex]
      rfl
    · intro _ hrowUnused
      rw [hunused, decide_eq_true_iff] at hrowUnused
      rw [describe, hvex]
      exact hvvvv hrowUnused
  rw [operation?_of_covers hrow hcovers, hoperation]

/-- There are no other encodings of an operation. -/
theorem encodesBit_of_operation? {mode : Mode} {op : BitOp} {prefixes : List Byte} {body : Body}
    (hsome : (describe mode prefixes body).operation? = some (.bit op)) : EncodesBit mode op body := by
  obtain ⟨row, hrow, hoperation, hmap, hopcode, hmandatory, hreg, hunused, hvexOnly⟩ := exists_row op
  rw [← hoperation, operation?_eq_some_iff hrow, OpcodeRow.covers_iff] at hsome
  obtain ⟨hmap', hopcode', hmandatory', hreg', hisVex, hvvvv⟩ := hsome
  have hisSome : body.vex.isSome := by
    have hvex := hisVex hvexOnly
    rwa [Instruction.isVex, describe, Option.isSome_map] at hvex
  obtain ⟨v, hvex⟩ := Option.isSome_iff_exists.mp hisSome
  have hmandatoryVex : (describe mode prefixes body).mandatory = v.mandatory := by
    rw [describe, hvex]
  have hvvvvVex : (describe mode prefixes body).vvvv = v.vvvvIn mode := by
    rw [describe, hvex]
  refine ⟨⟨v, hvex, ?_, ?_⟩, hmap'.symm.trans hmap, hopcode'.symm.trans hopcode, ?_⟩
  · rw [← hmandatoryVex, ← hmandatory', hmandatory]
  · intro hrorx
    rw [← hvvvvVex]
    exact hvvvv (hisVex hvexOnly) (by rw [hunused, hrorx]; rfl)
  · intro digit hdigit
    rw [← hreg] at hdigit
    exact (hreg' digit hdigit).symm

theorem family_of_encodesBit {mode : Mode} {op : BitOp} {body : Body}
    (hencodes : EncodesBit mode op body) : body.family = .bitManipulation := by
  rw [Body.family, hencodes.opcode]
  cases op <;> rfl

/-! ## Execution -/

theorem width_div_eight (i : Instruction) : width i / 8 = i.gprWidth.bytes := by
  unfold width Instruction.gprWidth Instruction.wide
  cases i.mode <;> cases i.extension.w <;> rfl

/-- The low part of a general register is read at the width of the instruction. -/
theorem read_register (i : Instruction) (index : Nat) (regs : Registers) (memory : σ) :
    (Operand.register index).read regs memory i.gprWidth =
      (.ok ((regs.gpr index).setWidth i.gprWidth.bits), memory) := by
  unfold Instruction.gprWidth
  cases i.wide <;> rfl

/-- Executing an operation whose operand can be read makes the changes that arithmetic gives. -/
theorem execute_bit (op : BitOp) {i : Instruction} {regs : Registers} {memory after : σ}
    {value : Nat} (hmode : i.mode = regs.mode) (hindex : i.regIndex < 16)
    (hoperand : ReadsOperand i regs (width i / 8)
      (register regs (rmRegister i) % 2 ^ width i) memory after value) :
    ∃ effect : Effect, (Operation.bit op).execute i regs memory = (.ok effect, after) ∧
      effect.commit regs = (bitChanges op (bitOperands i regs value)).apply i.length regs ∧
      effect.length = i.length := by
  let inRegister : BitVec i.gprWidth.bits := (regs.gpr i.rmIndex).setWidth i.gprWidth.bits
  have hvalue : inRegister.toNat = register regs (rmRegister i) % 2 ^ width i := by
    rw [register_eq, BitVec.toNat_setWidth, BitManip.bits_gprWidth]
    rfl
  rw [width_div_eight, ← hvalue] at hoperand
  obtain ⟨rm, hread, rfl⟩ := read_rm hmode (read_register i _ regs memory) hoperand
  have hexecute : (Operation.bit op).execute i regs memory =
      (.ok (BitManip.effect op i regs rm), after) := by
    change BitManip.execute (.bit op) i regs memory = _
    rw [BitManip.execute, hread]
  refine ⟨BitManip.effect op i regs rm, hexecute, ?_, ?_⟩
  · exact BitManip.commit_effect op hindex regs (BitManip.bits_gprWidth i) rm
  · cases op <;> rfl

/-- The trap of a readable bit-manipulation encoding with a readable operand is handled, and the
registers change as arithmetic says. -/
theorem handleTrap_bitManip {config : EmulatorConfig} {regs : Registers} {memory after : σ}
    {op : BitOp} {prefixes : List Byte} {body : Body} {value : Nat}
    (henabled : config.bitManipulation = true) (huser : regs.cs.toNat % 4 = 3)
    (hencodes : EncodesBit regs.mode op body) (hlegal : body.Legal)
    (hadmits : Admits regs.mode prefixes body)
    (hserves : UserMemory.Serves regs.mode.mask memory regs.ip (prefixes ++ body.bytes))
    (hoperand :
      let i := describe regs.mode prefixes body
      ReadsOperand i regs (width i / 8) (register regs (rmRegister i) % 2 ^ width i)
        (afterFetch regs memory) after value) :
    let i := describe regs.mode prefixes body
    handleTrap config regs memory 6 =
      { outcome := .handled
        registers := (bitChanges op (bitOperands i regs value)).apply i.length regs
        memory := after
        log := [.emulated regs.ip (.bit op) i.length] } := by
  intro i
  have hindex : i.regIndex < 16 := regIndex_lt_sixteen hlegal.operands.modrm_fits
  obtain ⟨effect, hexecute, hcommit, hlength⟩ := execute_bit op rfl hindex hoperand
  have hallows : config.allows body.family = true := by
    rw [family_of_encodesBit hencodes]
    exact henabled
  rw [handleTrap_of_execute huser hlegal hadmits hserves hallows
    (operation?_of_encodesBit hencodes prefixes) hexecute, hcommit, hlength]

/-- A conjunction with a memory operand in GS, at an address of 32 bits, eight bytes below `rbx`. -/
def segmentedAndnBody : Body where
  vex := some { r := false, x := false, b := false, w := true, vvvv := 3, mandatory := .absent }
  map := .map0F38
  opcode := 0xF2
  operands := ⟨⟨1, 1, 4⟩, some ⟨2, 0, 3⟩, some (.disp8 0xF8)⟩
  immediate := none

/-- The instruction overlaps its operand in memory. -/
def segmentedAndnMemory : Window where
  base := 0x1000
  cells :=
    #[0x65, 0x67, 0xC4, 0xE2, 0xE0, 0xF2, 0x4C, 0x83, 0xF8, 0x11, 0x22, 0x33, 0x44, 0x55, 0x66, 0x77]

def segmentedAndnRegisters : Registers :=
  { (Registers.initial .bits64).setGpr 3 0x400000010 with rip := 0x1000, gsBase := 0x1000 }

theorem handleTrap_segmentedAndn :
    handleTrap {} segmentedAndnRegisters segmentedAndnMemory 6 =
      { outcome := .handled
        registers :=
          { segmentedAndnRegisters.setGpr 1 0x77665540332211E8 with rip := 0x1009 }
        memory := segmentedAndnMemory
        log := [.emulated 0x1000 (.bit .andn) 9] } := by
  have hencodes : EncodesBit .bits64 .andn segmentedAndnBody :=
    ⟨⟨_, rfl, rfl, by decide⟩, rfl, rfl, by rintro digit ⟨⟩⟩
  have hlegal : segmentedAndnBody.Legal := by
    refine ⟨.inl ⟨rfl, rfl, by decide⟩, ⟨⟨by decide, by decide, by decide⟩, by decide, ?_, ?_, ?_⟩,
      by decide⟩
    · rintro s ⟨⟩
      exact ⟨by decide, by decide, by decide⟩
    · simp [segmentedAndnBody]
    · simp [segmentedAndnBody]
  have hadmits : Admits .bits64 [0x65, 0x67] segmentedAndnBody := by
    refine ⟨by decide, by decide, by rintro ⟨⟩, ⟨fun _ ↦ by decide, by rintro ⟨⟩⟩, by decide⟩
  have hserves : UserMemory.Serves Mode.bits64.mask segmentedAndnMemory 0x1000
      ([0x65, 0x67] ++ segmentedAndnBody.bytes) :=
    ⟨_, rfl, _, rfl, _, rfl, _, rfl, _, rfl, _, rfl, _, rfl, _, rfl, _, rfl, trivial⟩
  have hoperand : ReadsOperand (describe .bits64 [0x65, 0x67] segmentedAndnBody)
      segmentedAndnRegisters 8 0 segmentedAndnMemory segmentedAndnMemory 0x77665544332211F8 := by
    refine ⟨#v[0xF8, 0x11, 0x22, 0x33, 0x44, 0x55, 0x66, 0x77], rfl, rfl⟩
  have hregisters :
      (bitChanges .andn (bitOperands (describe .bits64 [0x65, 0x67] segmentedAndnBody)
        segmentedAndnRegisters 0x77665544332211F8)).apply 9 segmentedAndnRegisters =
      { segmentedAndnRegisters.setGpr 1 0x77665540332211E8 with rip := 0x1009 } := by
    decide +kernel
  rw [← hregisters]
  have huser : segmentedAndnRegisters.cs.toNat % 4 = 3 := by decide
  exact handleTrap_bitManip rfl huser hencodes hlegal hadmits hserves hoperand

end TrapEmulation

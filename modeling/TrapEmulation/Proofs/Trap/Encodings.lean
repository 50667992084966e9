import TrapEmulation.Proofs.Encoding.WriteBack
import TrapEmulation.Proofs.Memory.Layout
import TrapEmulation.Proofs.Trap.BitManip
import TrapEmulation.Proofs.Trap.StringCompare

/-!
# Encodings of either family

An `Encoding` is an operation with prefixes and a body that encode it.  What an operation reads and
what it changes is defined here by cases on its family, so that the trap of an encoding can be described
without telling the families apart.  The memory is one that reading does not change.
-/

namespace TrapEmulation

open Reference

variable {σ : Type} [UserMemory σ]

/-! ## Operations -/

namespace Reference

/-- The number of bytes of a memory operand. -/
def operandBytes (operation : Operation) (i : Instruction) : Nat :=
  match operation with
  | .bit _ => width i / 8
  | .compare _ => 16

/-- What an operation reads in the register of the r/m field. -/
def rmValue (operation : Operation) (i : Instruction) (regs : Registers) : Nat :=
  match operation with
  | .bit _ => register regs (rmRegister i) % 2 ^ width i
  | .compare _ => vectorRegister regs (rmRegister i)

/-- What an operation writes, given the value of its r/m operand. -/
def changes (operation : Operation) (i : Instruction) (regs : Registers) (value : Nat) : Changes :=
  match operation with
  | .bit op => bitChanges op (bitOperands i regs value)
  | .compare op => compareChanges op (controlOf i) (stringsOf op i regs value)

end Reference

/-! ## Encodings -/

/-- An operation as it is written in memory. -/
structure Encoding where
  operation : Operation
  prefixes : List Byte
  body : Body
  deriving DecidableEq, Repr

namespace Encoding

def bytes (e : Encoding) : List Byte := e.prefixes ++ e.body.bytes

/-- What the bytes mean in a mode. -/
def instruction (e : Encoding) (mode : Mode) : Instruction := describe mode e.prefixes e.body

/-- The prefixes and the body make up an instruction of the mode, and it is the operation. -/
structure Legal (e : Encoding) (mode : Mode) : Prop where
  encodes :
    match e.operation with
    | .bit op => EncodesBit mode op e.body
    | .compare op => EncodesCompare mode e.prefixes op e.body
  body : e.body.Legal
  admits : Admits mode e.prefixes e.body

/-- The memory operand can be read, if there is one. -/
def OperandReadable (e : Encoding) (regs : Registers) (memory : σ) : Prop :=
  let i := e.instruction regs.mode
  i.modrm.md ≠ 3 →
    ∃ cells : Vector Byte (operandBytes e.operation i),
      (UserMemory.read memory (BitVec.ofInt 64 (linearAddress i regs)) _).1 = .ok cells

/-- The emulator takes what it fetches at the instruction pointer for this encoding. -/
def Selected (e : Encoding) (config : EmulatorConfig) (regs : Registers) (memory : σ) : Prop :=
  ∃ bytes, (UserMemory.fetch regs.mode.mask memory regs.ip maxInstructionLength).1 = .ok bytes ∧
    config.select regs.mode bytes = .ok (e.operation, e.instruction regs.mode)

/-- Executing the encoding on the first registers gives the second ones. -/
def Executes (e : Encoding) (memory : σ) (regs after : Registers) : Prop :=
  let i := e.instruction regs.mode
  ∃ value, ReadsOperand i regs (operandBytes e.operation i) (rmValue e.operation i regs)
      memory memory value ∧
    after = (changes e.operation i regs value).apply e.bytes.length regs

variable {e : Encoding}

theorem length_instruction (e : Encoding) (mode : Mode) :
    (e.instruction mode).length = e.bytes.length := by
  rw [bytes, List.length_append]
  rfl

namespace Legal

variable {mode : Mode}

theorem five_le_length (hlegal : e.Legal mode) : 5 ≤ e.bytes.length := by
  rw [bytes, List.length_append]
  exact Nat.le_trans hlegal.body.five_le_length (Nat.le_add_left _ _)

theorem length_le_fifteen (hlegal : e.Legal mode) : e.bytes.length ≤ 15 := by
  rw [bytes, List.length_append]
  exact hlegal.admits.length_le

theorem operation?_eq (hlegal : e.Legal mode) :
    (e.instruction mode).operation? = some e.operation := by
  obtain ⟨operation, prefixes, body⟩ := e
  cases operation with
  | bit op => exact operation?_of_encodesBit hlegal.encodes prefixes
  | compare op => exact operation?_of_encodesCompare hlegal.encodes

end Legal

/-- The legal encodings of the enabled families are exactly what the emulator selects. -/
theorem selects_iff_exists_encoding {config : EmulatorConfig} {mode : Mode} {bytes : List Byte}
    {operation : Operation} {i : Instruction} :
    config.select mode bytes = .ok (operation, i) ↔
      config.allows i.family = true ∧
        ∃ (e : Encoding) (rest : List Byte), e.Legal mode ∧ bytes = e.bytes ++ rest ∧
          e.operation = operation ∧ e.instruction mode = i := by
  rw [EmulatorConfig.select_eq_ok_iff, decode_eq_ok_iff]
  constructor
  · rintro ⟨⟨prefixes, body, rest, hbytes, hlegal, hadmits, rfl⟩, hallows, hoperation⟩
    refine ⟨hallows, ⟨operation, prefixes, body⟩, rest, ⟨?_, hlegal, hadmits⟩, hbytes, rfl, rfl⟩
    cases operation with
    | bit op => exact encodesBit_of_operation? hoperation
    | compare op => exact encodesCompare_of_operation? hoperation
  · rintro ⟨hallows, e, rest, hlegal, hbytes, rfl, rfl⟩
    exact ⟨⟨e.prefixes, e.body, rest, hbytes, hlegal.body, hlegal.admits, rfl⟩, hallows,
      hlegal.operation?_eq⟩

/-! ## Execution -/

/-- An operand that can be read has a value. -/
theorem OperandReadable.exists_value {regs : Registers} {memory : σ}
    (hreadable : e.OperandReadable regs memory) (hpure : UserMemory.Pure memory) :
    let i := e.instruction regs.mode
    ∃ value, ReadsOperand i regs (operandBytes e.operation i) (rmValue e.operation i regs)
      memory memory value := by
  intro i
  by_cases hmd : i.modrm.md = 3
  · refine ⟨rmValue e.operation i regs, ?_⟩
    rw [ReadsOperand, if_pos hmd]
    exact ⟨rfl, rfl⟩
  · obtain ⟨cells, hcells⟩ := hreadable hmd
    refine ⟨decodeLE cells.toList, ?_⟩
    rw [ReadsOperand, if_neg hmd]
    exact ⟨cells, Prod.ext hcells (hpure _ _), rfl⟩

/-- The engine of the family makes the changes of the operation. -/
theorem Legal.exists_effect {regs : Registers} {memory after : σ} {value : Nat}
    (hlegal : e.Legal regs.mode) :
    let i := e.instruction regs.mode
    ReadsOperand i regs (operandBytes e.operation i) (rmValue e.operation i regs)
      memory after value →
    ∃ effect : Effect, e.operation.execute i regs memory = (.ok effect, after) ∧
      effect.commit regs = (changes e.operation i regs value).apply i.length regs ∧
      effect.length = i.length := by
  intro i hoperand
  have hindex : i.regIndex < 16 := regIndex_lt_sixteen hlegal.body.operands.modrm_fits
  obtain ⟨operation, prefixes, body⟩ := e
  cases operation with
  | bit op => exact execute_bit op rfl hindex hoperand
  | compare op => exact execute_compare op rfl hoperand

/-- Executing an encoding moves the instruction pointer past it. -/
theorem Executes.toNat_ip {regs after : Registers} {memory : σ}
    (hexecutes : e.Executes memory regs after) :
    after.ip.toNat = (regs.ip.toNat + e.bytes.length) % 2 ^ regs.mode.width := by
  obtain ⟨value, -, rfl⟩ := hexecutes
  exact Changes.toNat_ip_apply _ _ regs

/-- Executing an encoding does not leave the instruction pointer where it is. -/
theorem Executes.ip_ne {regs after : Registers} {memory : σ}
    (hexecutes : e.Executes memory regs after) (hlegal : e.Legal regs.mode) : after.ip ≠ regs.ip := by
  have hpositive : 0 < e.bytes.length := Nat.lt_of_lt_of_le (by decide) hlegal.five_le_length
  intro heq
  have hip := hexecutes.toNat_ip
  rw [heq] at hip
  exact regs.mode.add_mod_width_ne hpositive hlegal.length_le_fifteen hip.symm

/-- The mode and the privilege level stay as they are. -/
theorem Executes.frame {regs after : Registers} {memory : σ}
    (hexecutes : e.Executes memory regs after) : after.mode = regs.mode ∧ after.cs = regs.cs := by
  obtain ⟨value, -, rfl⟩ := hexecutes
  exact ⟨Changes.mode_apply _ _ regs, Changes.cs_apply _ _ regs⟩

/-! ## Traps -/

theorem allows_of_both {config : EmulatorConfig} (hbit : config.bitManipulation = true)
    (hcompare : config.stringCompare = true) (family : Family) : config.allows family = true := by
  cases family with
  | bitManipulation => exact hbit
  | stringCompare => exact hcompare

/-- What a trap does that executes the encoding. -/
structure HandledBy (e : Encoding) (config : EmulatorConfig) (regs : Registers) (memory : σ)
    (trap : TrapResult σ) : Prop where
  outcome : trap.outcome = .handled
  selected : e.Selected config regs memory
  executes : e.Executes memory regs trap.registers
  memory : trap.memory = memory
  log : trap.log = [.emulated regs.ip e.operation e.bytes.length]

/-- The trap of an encoding that stands in memory, and whose operand can be read, executes it. -/
theorem Legal.handledBy {config : EmulatorConfig} {regs : Registers} {memory : σ} {start : Nat}
    (hlegal : e.Legal regs.mode) (hbit : config.bitManipulation = true)
    (hcompare : config.stringCompare = true) (huser : regs.cs.toNat % 4 = 3)
    (hpure : UserMemory.Pure memory) (hholds : UserMemory.Holds regs.mode memory start e.bytes)
    (hip : regs.ip.toNat % 2 ^ regs.mode.width = start % 2 ^ regs.mode.width)
    (hreadable : e.OperandReadable regs memory) :
    e.HandledBy config regs memory (handleTrap config regs memory 6) := by
  have hserves := hholds.serves hpure hip
  have hallows := allows_of_both hbit hcompare e.body.family
  have hafter : afterFetch regs memory = memory := hpure.fetch regs.ip maxInstructionLength
  obtain ⟨bytes, hfetch, hselect⟩ :=
    select_encoding hlegal.body hlegal.admits hserves hallows hlegal.operation?_eq
  obtain ⟨value, hoperand⟩ := hreadable.exists_value hpure
  obtain ⟨effect, hexecute, hcommit, hlength⟩ := hlegal.exists_effect hoperand
  rw [← hafter] at hexecute
  rw [length_instruction] at hcommit hlength
  have htrap := handleTrap_of_execute huser hlegal.body hlegal.admits hserves hallows
    hlegal.operation?_eq hexecute
  rw [htrap, hcommit, hlength]
  exact {
    outcome := rfl
    selected := ⟨bytes, congrArg Prod.fst hfetch, hselect⟩
    executes := ⟨value, hoperand, rfl⟩
    memory := hafter
    log := rfl }

end Encoding

end TrapEmulation

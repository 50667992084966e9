import TrapEmulation.BitManip.Execute
import TrapEmulation.Decode.Instruction
import TrapEmulation.OpcodeTable
import TrapEmulation.StringCompare.Execute

/-!
# Emulating one instruction

The instruction at the instruction pointer is fetched, decoded, checked against the configuration
and looked up in the opcode table, and only then executed. The first stage that fails gives the
error. Nothing is applied to the registers here.
-/

namespace TrapEmulation

/-- Which families are emulated. -/
structure EmulatorConfig where
  bitManipulation : Bool := true
  stringCompare : Bool := true
  deriving DecidableEq, Repr

def EmulatorConfig.allows (config : EmulatorConfig) : Family → Bool
  | .bitManipulation => config.bitManipulation
  | .stringCompare => config.stringCompare

/-- An instruction that was executed and what it is going to change. -/
structure Emulated where
  operation : Operation
  effect : Effect
  deriving DecidableEq, Repr

namespace EmulatorConfig

/-- The instruction that the bytes begin with and its operation, if it may be emulated. -/
def select (config : EmulatorConfig) (mode : Mode) (bytes : List Byte) :
    Except EmulationError (Operation × Instruction) :=
  match decode mode bytes with
  | .error error => .error (.decode error)
  | .ok i =>
    if config.allows i.family then
      match i.operation? with
      | some operation => .ok (operation, i)
      | none => .error .unsupported
    else
      .error (.disabled i.family)

end EmulatorConfig

variable {σ : Type} [UserMemory σ]

/-- Executes an operation in the engine of its family. -/
def Operation.execute (operation : Operation) (i : Instruction) (regs : Registers) (memory : σ) :
    Except EmulationError Effect × σ :=
  match operation with
  | .bit _ => BitManip.execute operation i regs memory
  | .compare _ => StringCompare.execute operation i regs memory

/-- Emulates the instruction at the instruction pointer without changing the registers. -/
def emulate (config : EmulatorConfig) (regs : Registers) (memory : σ) :
    Except EmulationError Emulated × σ :=
  match UserMemory.fetch regs.mode.mask memory regs.ip maxInstructionLength with
  | (.error fault, memory) => (.error (.fetch fault), memory)
  | (.ok bytes, memory) =>
    match config.select regs.mode bytes with
    | .error error => (.error error, memory)
    | .ok (operation, i) =>
      match operation.execute i regs memory with
      | (.error error, memory) => (.error error, memory)
      | (.ok effect, memory) => (.ok ⟨operation, effect⟩, memory)

end TrapEmulation

import TrapEmulation.Log
import TrapEmulation.Trap.Emulator
import TrapEmulation.Trap.Exception

/-!
# Dispatching a trap

A trap is handled if it is an invalid opcode, was raised in user mode, and its instruction can be
emulated. Any other trap is forwarded with a reason, and the registers stay as they are.
-/

namespace TrapEmulation

/-- Why a trap is left to the host. -/
inductive ForwardReason where
  | otherTrap (vector : Byte)
  | kernelOrigin
  | emulation (error : EmulationError)
  deriving DecidableEq, Repr

inductive TrapOutcome where
  | handled
  | forward (reason : ForwardReason)
  deriving DecidableEq, Repr

/-- What is left after a trap. -/
structure TrapResult (σ : Type) where
  outcome : TrapOutcome
  registers : Registers
  memory : σ
  log : List LogEvent

/-- What an emulation reports: its instruction, if it succeeded. -/
def emulationLog (regs : Registers) : Except EmulationError Emulated → List LogEvent
  | .ok e => [.emulated regs.ip e.operation e.effect.length]
  | .error _ => []

variable {σ : Type} [UserMemory σ]

def handleTrap (config : EmulatorConfig) (regs : Registers) (memory : σ) (vector : Byte) :
    TrapResult σ :=
  if Exception.ofVector? vector ≠ some .invalidOpcode then
    ⟨.forward (.otherTrap vector), regs, memory, []⟩
  else if !regs.isUser then
    ⟨.forward .kernelOrigin, regs, memory, [.kernelFault regs.ip]⟩
  else
    match emulate config regs memory with
    | (.ok e, memory) => ⟨.handled, e.effect.commit regs, memory, emulationLog regs (.ok e)⟩
    | (.error error, memory) =>
      ⟨.forward (.emulation error), regs, memory, [.notEmulated regs.ip error]⟩

end TrapEmulation

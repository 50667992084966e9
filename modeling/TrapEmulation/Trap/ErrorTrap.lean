import TrapEmulation.Trap.Dispatcher

/-!
# The error-trap routine

The host passes every fault to its error-trap routine. `errorTrap` stands in the place of that
routine: it deals with the faults that can be emulated, and hands every other one to the host's own
routine just as it arrived.
-/

namespace TrapEmulation

/-- What the host passes to its error-trap routine besides the registers. -/
structure TrapFrame where
  errorCode : Int
  trap : BitVec 64
  signal : Int
  deriving DecidableEq, Repr

/-- The host's own error-trap routine. It may change the registers, and state `ω` of its own. -/
structure HostRoutine (ω : Type) where
  call : ω → Registers → TrapFrame → Registers × ω

/-- What is left after the routine. -/
structure ErrorTrapResult (σ ω : Type) where
  handled : Bool
  registers : Registers
  memory : σ
  host : ω
  log : List LogEvent

variable {σ ω : Type}

/-- Calls the host's own routine, after what was logged before. -/
def HostRoutine.forward (routine : HostRoutine ω) (host : ω) (regs : Registers) (memory : σ)
    (frame : TrapFrame) (log : List LogEvent) : ErrorTrapResult σ ω :=
  let (registers, host) := routine.call host regs frame
  { handled := false, registers, memory, host,
    log := log ++ [.hostRoutineCalled frame.trap frame.signal] }

/-- Emulates the faulting instruction or passes the fault on. Only a fault of user mode whose number
is that of a vector is offered to the dispatcher. -/
def errorTrap [UserMemory σ] (config : EmulatorConfig) (routine : HostRoutine ω) (host : ω)
    (regs : Registers) (memory : σ) (frame : TrapFrame) : ErrorTrapResult σ ω :=
  if regs.isUser ∧ frame.trap.toNat < 256 then
    let result := handleTrap config regs memory (frame.trap.setWidth 8)
    match result.outcome with
    | .handled => ⟨true, result.registers, result.memory, host, result.log⟩
    | .forward _ =>
      routine.forward host result.registers result.memory frame result.log
  else
    routine.forward host regs memory frame []

end TrapEmulation

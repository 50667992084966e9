import TrapEmulation.EmulationError
import TrapEmulation.Host.HookError
import TrapEmulation.Operation

/-!
# The log

What happens is reported as events in the order in which it happens. An event is shown as one line:
its level, what it is, and the values that belong to it.
-/

namespace TrapEmulation

inductive LogEvent where
  /-- The instruction at an address was executed. -/
  | emulated (ip : Address) (operation : Operation) (length : Nat)
  /-- An invalid opcode was met in kernel mode. -/
  | kernelFault (ip : Address)
  | notEmulated (ip : Address) (error : EmulationError)
  /-- The fault goes to the host's own routine. -/
  | hostRoutineCalled (trap : BitVec 64) (signal : Int)
  | symbolUnresolved (name : String)
  | attachFailed (name : String) (code : Int)
  | notRestored (error : Host.HookError)
  | moduleLoaded
  | moduleUnloaded
  deriving DecidableEq, Repr

namespace LogEvent

def valueText (key value : String) : String := " " ++ key ++ "=" ++ value

def line : LogEvent → String
  | emulated ip operation length =>
    "TRACE emulated" ++ valueText "rip" (toString ip.toNat) ++ valueText "insn" operation.mnemonic ++
      valueText "len" (toString length)
  | kernelFault ip => "DEBUG #UD in kernel mode, forwarding" ++ valueText "rip" (toString ip.toNat)
  | notEmulated ip error =>
    "DEBUG not emulated, forwarding" ++ valueText "rip" (toString ip.toNat) ++
      valueText "err" error.message
  | hostRoutineCalled trap signal =>
    "TRACE calling original error trap" ++ valueText "trap" (toString trap.toNat) ++
      valueText "signal" (toString signal)
  | symbolUnresolved name => "DEBUG unresolved symbol" ++ valueText "name" name
  | attachFailed name code =>
    "DEBUG attach failed" ++ valueText "name" name ++ valueText "code" (toString code)
  | notRestored error => "WARN " ++ error.message
  | moduleLoaded => "INFO module loaded"
  | moduleUnloaded => "INFO module unloaded"

end LogEvent

end TrapEmulation

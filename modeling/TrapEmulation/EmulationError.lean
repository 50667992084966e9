import TrapEmulation.Decode.Reader
import TrapEmulation.Encoding.Instruction
import TrapEmulation.Memory.UserMemory

/-!
# Why a fault is not emulated

Each of these causes ends in the fault being forwarded to the host's own handler.
-/

namespace TrapEmulation

inductive EmulationError where
  /-- No byte of the instruction could be read. -/
  | fetch (fault : MemoryFault)
  | decode (error : DecodeError)
  /-- The encoding names no operation, or not one of the engine that was asked. -/
  | unsupported
  /-- The memory operand could not be read. -/
  | memory (fault : MemoryFault)
  | disabled (family : Family)
  deriving DecidableEq, Repr

def EmulationError.message : EmulationError → String
  | fetch fault => "instruction fetch failed: " ++ fault.message
  | decode error => "decode failed: " ++ error.message
  | unsupported => "no emulation for this encoding"
  | memory fault => "operand read failed: " ++ fault.message
  | disabled family => family.name ++ " emulation is disabled"

end TrapEmulation

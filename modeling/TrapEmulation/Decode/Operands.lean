import TrapEmulation.Decode.Reader
import TrapEmulation.Encoding.Fields

/-!
# Operand bytes

The opcode is followed by the byte that names the operands. If it names memory, a scaled index and
a displacement may follow, and which of them do is fixed by the fields read before.
-/

namespace TrapEmulation

/-- The bytes that name an instruction's operands. -/
structure OperandBytes where
  modrm : ModRm
  sib : Option Sib
  displacement : Option Displacement
  deriving DecidableEq, Repr

namespace OperandBytes

/-- The memory operand has a scaled index. -/
def needsSib (m : ModRm) : Bool := !m.isRegister && m.rm == 4

/-- The field in the place of the base register. -/
def baseField (m : ModRm) (sib : Option Sib) : Byte :=
  match sib with
  | some s => s.base
  | none => m.rm

/-- The number of displacement bytes. -/
def displacementSize (m : ModRm) (sib : Option Sib) : Nat :=
  if m.isRegister then 0
  else if m.md = 1 then 1
  else if m.md = 2 then 4
  else if baseField m sib = 5 then 4
  else 0

def readSib (m : ModRm) : Reader (Option Sib) :=
  if needsSib m then do
    let byte ← Reader.next
    return some (.ofByte byte)
  else
    return none

def readDisplacement (size : Nat) : Reader (Option Displacement) :=
  match size with
  | 0 => return none
  | 1 => do
    let byte ← Reader.next
    return some (.disp8 byte)
  | size => do
    let bytes ← Reader.take size
    return some (.disp32 (BitVec.ofNat 32 (decodeLE bytes)))

/-- Reads the operand bytes up to the immediate. -/
def read : Reader OperandBytes := do
  let modrm := ModRm.ofByte (← Reader.next)
  let sib ← readSib modrm
  let displacement ← readDisplacement (displacementSize modrm sib)
  return { modrm, sib, displacement }

end OperandBytes

end TrapEmulation

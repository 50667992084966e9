import TrapEmulation.Encoding.Fields
import TrapEmulation.Mode

/-!
# Decoded instructions

An `Instruction` records exactly what was encoded: raw register fields, the bits that extend them,
and every optional part that was present. Full register numbers are derived from it.
-/

namespace TrapEmulation

/-- The two groups of instructions that can be emulated. -/
inductive Family where
  | bitManipulation
  | stringCompare
  deriving DecidableEq, Repr

def Family.name : Family → String
  | bitManipulation => "BitManipulation"
  | stringCompare => "StringCompare"

structure Instruction where
  mode : Mode
  vex : Option VexForm
  extension : Extension
  /-- The extra register of a VEX encoding, zero for any other. -/
  vvvv : BitVec 4
  mandatory : MandatoryPrefix
  map : OpcodeMap
  opcode : Byte
  modrm : ModRm
  sib : Option Sib
  displacement : Option Displacement
  immediate : Option Byte
  segment : Option Segment
  addressSizeOverride : Bool
  family : Family
  /-- The number of bytes from the first prefix to the last operand byte. -/
  length : Nat
  deriving DecidableEq, Repr

namespace Instruction

def isVex (i : Instruction) : Bool := i.vex.isSome

/-- The register that the reg field names. -/
def regIndex (i : Instruction) : Nat := i.modrm.reg.toNat + 8 * i.extension.r.toNat

/-- The register that the r/m field names, which counts as an operand if `modrm.isRegister`. -/
def rmIndex (i : Instruction) : Nat := i.modrm.rm.toNat + 8 * i.extension.b.toNat

/-- The wide bit is set and the mode honours it. -/
def wide (i : Instruction) : Bool := i.mode == .bits64 && i.extension.w

end Instruction

end TrapEmulation

import TrapEmulation.Registers.Snapshot

/-!
# Effects

What an emulated instruction changes is computed first, as an `Effect`, and applied afterwards in
one go. So an instruction that cannot be completed leaves no trace.
-/

namespace TrapEmulation

/-- A new value for one register. As with every access, the register number counts modulo
sixteen. -/
inductive RegWrite where
  | gpr (index : Nat) (value : BitVec 64)
  | xmm (index : Nat) (value : BitVec 128)
  deriving DecidableEq, Repr

def RegWrite.apply (regs : Registers) : RegWrite → Registers
  | gpr index value => regs.setGpr index value
  | xmm index value => regs.setXmm index value

/-- The changes one instruction makes. -/
structure Effect where
  /-- In the order in which they are applied, so that the last write to a register stays. -/
  writes : List RegWrite
  flags : Option FlagUpdate
  /-- The length of the instruction, by which the instruction pointer moves on. -/
  length : Nat
  deriving DecidableEq, Repr

namespace Effect

def applyFlags (regs : Registers) : Option FlagUpdate → Registers
  | some update => regs.applyFlags update
  | none => regs

/-- The registers after the instruction. -/
def commit (effect : Effect) (regs : Registers) : Registers :=
  let written := effect.writes.foldl RegWrite.apply regs
  (applyFlags written effect.flags).advance (BitVec.ofNat 64 effect.length)

end Effect

end TrapEmulation

import TrapEmulation.Effect
import TrapEmulation.EmulationError
import TrapEmulation.Operand
import TrapEmulation.Operation
import TrapEmulation.StringCompare.Outcome

/-!
# The string-compare engine

The first operand is the vector register that the reg field names and the second is the r/m operand.
A position goes to the count register and a mask to the first vector register.
-/

namespace TrapEmulation.StringCompare

/-- The vector register that receives a mask. -/
def maskRegister : Nat := 0

/-- The lengths of the operands come from registers. -/
def isExplicit : CompareOp → Bool
  | .pcmpestrm | .pcmpestri => true
  | .pcmpistrm | .pcmpistri => false

/-- The output is a position. -/
def givesIndex : CompareOp → Bool
  | .pcmpestri | .pcmpistri => true
  | .pcmpestrm | .pcmpistrm => false

/-- The lengths of the two operands. Explicit ones are in the accumulator and the data register. -/
def lengths (op : CompareOp) (format : ElementFormat) (i : Instruction) (regs : Registers)
    (a b : BitVec 128) : Nat × Nat :=
  if isExplicit op then
    (explicitLength format (regs.gpr Registers.rax) i.wide,
      explicitLength format (regs.gpr Registers.rdx) i.wide)
  else
    (implicitLength format a, implicitLength format b)

/-- The register write that an outcome amounts to. -/
def output (op : CompareOp) (control : Control) (o : Outcome) : RegWrite :=
  if givesIndex op then .gpr Registers.rcx (BitVec.ofNat 64 (o.index control.msb))
  else .xmm maskRegister (o.mask control.msb)

/-- What an operation does, given the value of its second operand. -/
def effect (op : CompareOp) (i : Instruction) (regs : Registers) (b : BitVec 128) : Effect :=
  let control := Control.ofByte (i.immediate.getD 0)
  let a := regs.xmm i.regIndex
  let (la, lb) := lengths op control.format i regs a b
  let o := compare control a b la lb
  ⟨[output op control o], some o.flags, i.length⟩

/-- Executes an operation. The operand is read before a foreign operation is turned down. -/
def execute {σ : Type} [UserMemory σ] (operation : Operation) (i : Instruction) (regs : Registers)
    (memory : σ) : Except EmulationError Effect × σ :=
  match (i.rm regs).read regs memory .w128 with
  | (.error fault, memory) => (.error (.memory fault), memory)
  | (.ok b, memory) =>
    match operation with
    | .compare op => (.ok (effect op i regs b), memory)
    | .bit _ => (.error .unsupported, memory)

end TrapEmulation.StringCompare

import TrapEmulation.BitManip.Gather
import TrapEmulation.BitManip.Logic
import TrapEmulation.BitManip.Shift
import TrapEmulation.Effect
import TrapEmulation.EmulationError
import TrapEmulation.Operand
import TrapEmulation.Operation

/-!
# The bit-manipulation engine

The operands are the r/m operand, the register named by the reg field and the extra register of the
VEX prefix, all at the width of the instruction; a multiplication takes its other factor from the
data register. Results are zero-extended into their registers.
-/

namespace TrapEmulation.BitManip

variable {w : Nat}

/-- The write of a zero-extended result. -/
def write (index : Nat) (value : BitVec w) : RegWrite := .gpr index (value.setWidth 64)

/-- One result, and the flags that go with it. -/
def result (i : Instruction) (index : Nat) (value : BitVec w × FlagUpdate) : Effect :=
  ⟨[write index value.1], some value.2, i.length⟩

/-- One result and no flags. -/
def quietResult (i : Instruction) (index : Nat) (value : BitVec w) : Effect :=
  ⟨[write index value], none, i.length⟩

/-- The low half is written first: if both halves go to one register, the high half stays. -/
def productResult (i : Instruction) (high low : BitVec w) : Effect :=
  ⟨[write i.vvvv.toNat low, write i.regIndex high], none, i.length⟩

/-- What an operation does, given the value of its r/m operand. -/
def effect (op : BitOp) (i : Instruction) (regs : Registers) (rm : BitVec w) : Effect :=
  let v := (regs.gpr i.vvvv.toNat).setWidth w
  match op with
  | .rorx => quietResult i i.regIndex (rorx rm (i.immediate.getD 0))
  | .andn => result i i.regIndex (andn v rm)
  | .blsr => result i i.vvvv.toNat (blsr rm)
  | .blsmsk => result i i.vvvv.toNat (blsmsk rm)
  | .blsi => result i i.vvvv.toNat (blsi rm)
  | .bzhi => result i i.regIndex (bzhi rm v)
  | .pext => quietResult i i.regIndex (pext v rm)
  | .pdep => quietResult i i.regIndex (pdep v rm)
  | .mulx =>
    let (high, low) := mulx ((regs.gpr Registers.rdx).setWidth w) rm
    productResult i high low
  | .bextr => result i i.regIndex (bextr rm v)
  | .shlx => quietResult i i.regIndex (shlx rm v)
  | .sarx => quietResult i i.regIndex (sarx rm v)
  | .shrx => quietResult i i.regIndex (shrx rm v)

/-- Executes an operation. The operand is read before a foreign operation is turned down. -/
def execute {σ : Type} [UserMemory σ] (operation : Operation) (i : Instruction) (regs : Registers)
    (memory : σ) : Except EmulationError Effect × σ :=
  match (i.rm regs).read regs memory i.gprWidth with
  | (.error fault, memory) => (.error (.memory fault), memory)
  | (.ok rm, memory) =>
    match operation with
    | .bit op => (.ok (effect op i regs rm), memory)
    | .compare _ => (.error .unsupported, memory)

end TrapEmulation.BitManip

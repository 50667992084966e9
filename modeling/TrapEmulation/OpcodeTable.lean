import TrapEmulation.Operation

/-!
# The opcode table

A decoded instruction names an operation if some row of the table covers it. The decoder recognizes
more encodings than the table has rows for; the rest have no emulation.
-/

namespace TrapEmulation

/-- The encodings of one operation. -/
structure OpcodeRow where
  map : OpcodeMap
  opcode : Byte
  mandatory : MandatoryPrefix
  /-- What the reg field has to hold where it extends the opcode. -/
  reg : Option Byte := none
  vexOnly : Bool := true
  /-- The extra register of a VEX encoding is not an operand and has to be zero. -/
  vvvvUnused : Bool := false
  operation : Operation
  deriving DecidableEq, Repr

namespace OpcodeRow

/-- The row of a string comparison, which has both a legacy and a VEX encoding. -/
def ofCompare (opcode : Byte) (op : CompareOp) : OpcodeRow where
  map := .map0F3A
  opcode := opcode
  mandatory := .p66
  vexOnly := false
  vvvvUnused := true
  operation := .compare op

def covers (row : OpcodeRow) (i : Instruction) : Bool :=
  row.map == i.map && row.opcode == i.opcode && row.mandatory == i.mandatory &&
    row.reg.all (· == i.modrm.reg) && (i.isVex || !row.vexOnly) &&
    !(i.isVex && row.vvvvUnused && i.vvvv != 0)

end OpcodeRow

def opcodeTable : List OpcodeRow :=
  [{ map := .map0F3A, opcode := 0xF0, mandatory := .pF2, vvvvUnused := true, operation := .bit .rorx },
    { map := .map0F38, opcode := 0xF2, mandatory := .absent, operation := .bit .andn },
    { map := .map0F38, opcode := 0xF3, mandatory := .absent, reg := some 1, operation := .bit .blsr },
    { map := .map0F38, opcode := 0xF3, mandatory := .absent, reg := some 2, operation := .bit .blsmsk },
    { map := .map0F38, opcode := 0xF3, mandatory := .absent, reg := some 3, operation := .bit .blsi },
    { map := .map0F38, opcode := 0xF5, mandatory := .absent, operation := .bit .bzhi },
    { map := .map0F38, opcode := 0xF5, mandatory := .pF3, operation := .bit .pext },
    { map := .map0F38, opcode := 0xF5, mandatory := .pF2, operation := .bit .pdep },
    { map := .map0F38, opcode := 0xF6, mandatory := .pF2, operation := .bit .mulx },
    { map := .map0F38, opcode := 0xF7, mandatory := .absent, operation := .bit .bextr },
    { map := .map0F38, opcode := 0xF7, mandatory := .p66, operation := .bit .shlx },
    { map := .map0F38, opcode := 0xF7, mandatory := .pF3, operation := .bit .sarx },
    { map := .map0F38, opcode := 0xF7, mandatory := .pF2, operation := .bit .shrx },
    .ofCompare 0x60 .pcmpestrm,
    .ofCompare 0x61 .pcmpestri,
    .ofCompare 0x62 .pcmpistrm,
    .ofCompare 0x63 .pcmpistri]

/-- The operation of an instruction, if there is one. -/
def Instruction.operation? (i : Instruction) : Option Operation :=
  (opcodeTable.find? fun row ↦ row.covers i).map OpcodeRow.operation

end TrapEmulation

import TrapEmulation.Encoding.Instruction

/-!
# Emulated operations

There are thirteen bit-manipulation operations on general registers and four packed string
comparisons on vector registers. Each has an engine of its own.
-/

namespace TrapEmulation

inductive BitOp where
  | rorx
  | andn
  | blsr
  | blsmsk
  | blsi
  | bzhi
  | pext
  | pdep
  | mulx
  | bextr
  | shlx
  | sarx
  | shrx
  deriving DecidableEq, Repr

/-- The letters tell where the lengths come from, a register (`e`) or a terminator (`i`), and what
is produced, a mask (`m`) or an index (`i`). -/
inductive CompareOp where
  | pcmpestrm
  | pcmpestri
  | pcmpistrm
  | pcmpistri
  deriving DecidableEq, Repr

inductive Operation where
  | bit (op : BitOp)
  | compare (op : CompareOp)
  deriving DecidableEq, Repr

def BitOp.mnemonic : BitOp → String
  | rorx => "rorx"
  | andn => "andn"
  | blsr => "blsr"
  | blsmsk => "blsmsk"
  | blsi => "blsi"
  | bzhi => "bzhi"
  | pext => "pext"
  | pdep => "pdep"
  | mulx => "mulx"
  | bextr => "bextr"
  | shlx => "shlx"
  | sarx => "sarx"
  | shrx => "shrx"

def CompareOp.mnemonic : CompareOp → String
  | pcmpestrm => "pcmpestrm"
  | pcmpestri => "pcmpestri"
  | pcmpistrm => "pcmpistrm"
  | pcmpistri => "pcmpistri"

namespace Operation

def mnemonic : Operation → String
  | bit op => op.mnemonic
  | compare op => op.mnemonic

def family : Operation → Family
  | bit _ => .bitManipulation
  | compare _ => .stringCompare

end Operation

end TrapEmulation

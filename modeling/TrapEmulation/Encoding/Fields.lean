import TrapEmulation.Bytes

/-!
# Fields of an encoded instruction

An instruction is a handful of packed fields. Register fields are kept as they stand in the
encoding, three bits or fewer each, and the bits that extend them to sixteen registers are kept
apart in `Extension`.
-/

namespace TrapEmulation

/-! ## Opcode selection -/

/-- The prefix that takes part in selecting an opcode. -/
inductive MandatoryPrefix where
  | absent
  | p66
  | pF3
  | pF2
  deriving DecidableEq, Repr

namespace MandatoryPrefix

/-- The prefix that the low two bits of a VEX payload byte stand for. -/
def ofPp (byte : Byte) : MandatoryPrefix :=
  match byte.extractLsb' 0 2 with
  | 0b00 => absent
  | 0b01 => p66
  | 0b10 => pF3
  | 0b11 => pF2

/-- The two-bit number of the prefix. -/
def pp : MandatoryPrefix → Nat
  | absent => 0
  | p66 => 1
  | pF3 => 2
  | pF2 => 3

theorem ofPp_pp (p : MandatoryPrefix) : ofPp (BitVec.ofNat 8 p.pp) = p := by
  cases p <;> rfl

end MandatoryPrefix

/-- The table in which an opcode byte is looked up, named by the escape bytes that select it. -/
inductive OpcodeMap where
  | map0F
  | map0F38
  | map0F3A
  deriving DecidableEq, Repr

namespace OpcodeMap

/-- The map that the low five bits of a VEX payload byte select. -/
def ofSelector? (byte : Byte) : Option OpcodeMap :=
  match byte.extractLsb' 0 5 with
  | 1 => some map0F
  | 2 => some map0F38
  | 3 => some map0F3A
  | _ => none

/-- The number that selects the map. -/
def selector : OpcodeMap → Nat
  | map0F => 1
  | map0F38 => 2
  | map0F3A => 3

theorem ofSelector?_selector (map : OpcodeMap) :
    ofSelector? (BitVec.ofNat 8 map.selector) = some map := by
  cases map <;> rfl

end OpcodeMap

/-- How many bytes a VEX prefix takes. -/
inductive VexForm where
  | twoByte
  | threeByte
  deriving DecidableEq, Repr

/-- Bits that extend register fields to four bits, and the width bit, from REX or VEX. -/
structure Extension where
  r : Bool := false
  x : Bool := false
  b : Bool := false
  w : Bool := false
  deriving DecidableEq, Repr

/-- The bits that a REX byte carries. -/
def Extension.ofRex (byte : Byte) : Extension where
  w := byte.getLsbD 3
  r := byte.getLsbD 2
  x := byte.getLsbD 1
  b := byte.getLsbD 0

/-! ## Operands -/

/-- Packs a two-bit and two three-bit fields into a byte; what does not fit a field is dropped. -/
def packFields (high middle low : Byte) : Byte :=
  (high <<< 6) ||| ((middle &&& 7) <<< 3) ||| (low &&& 7)

/-- The byte that names the operands. -/
structure ModRm where
  md : Byte
  reg : Byte
  rm : Byte
  deriving DecidableEq, Repr

namespace ModRm

def ofByte (byte : Byte) : ModRm where
  md := byte >>> 6
  reg := (byte >>> 3) &&& 7
  rm := byte &&& 7

def toByte (m : ModRm) : Byte := packFields m.md m.reg m.rm

/-- The r/m operand is a register and not memory. -/
def isRegister (m : ModRm) : Bool := m.md == 3

theorem toByte_ofByte : ∀ byte : Byte, (ofByte byte).toByte = byte := by decide

theorem ofByte_md_lt : ∀ byte : Byte, (ofByte byte).md.toNat < 4 := by decide

theorem ofByte_reg_lt : ∀ byte : Byte, (ofByte byte).reg.toNat < 8 := by decide

theorem ofByte_rm_lt : ∀ byte : Byte, (ofByte byte).rm.toNat < 8 := by decide

end ModRm

/-- The byte that names a scaled index and a base register. The index counts `2 ^ scale` times. -/
structure Sib where
  scale : Byte
  index : Byte
  base : Byte
  deriving DecidableEq, Repr

namespace Sib

def ofByte (byte : Byte) : Sib where
  scale := byte >>> 6
  index := (byte >>> 3) &&& 7
  base := byte &&& 7

def toByte (s : Sib) : Byte := packFields s.scale s.index s.base

theorem toByte_ofByte : ∀ byte : Byte, (ofByte byte).toByte = byte := by decide

theorem ofByte_scale_lt : ∀ byte : Byte, (ofByte byte).scale.toNat < 4 := by decide

theorem ofByte_index_lt : ∀ byte : Byte, (ofByte byte).index.toNat < 8 := by decide

theorem ofByte_base_lt : ∀ byte : Byte, (ofByte byte).base.toNat < 8 := by decide

end Sib

/-- A signed offset of one or four bytes that is added to a memory operand's address. -/
inductive Displacement where
  | disp8 (bits : BitVec 8)
  | disp32 (bits : BitVec 32)
  deriving DecidableEq, Repr

namespace Displacement

def value : Displacement → Int
  | disp8 bits => bits.toInt
  | disp32 bits => bits.toInt

/-- The number of bytes that the displacement takes in the encoding. -/
def size : Displacement → Nat
  | disp8 _ => 1
  | disp32 _ => 4

end Displacement

inductive Segment where
  | es
  | cs
  | ss
  | ds
  | fs
  | gs
  deriving DecidableEq, Repr

/-- The segment that an override prefix names. -/
def Segment.ofByte? : Byte → Option Segment
  | 0x26 => some es
  | 0x2E => some cs
  | 0x36 => some ss
  | 0x3E => some ds
  | 0x64 => some fs
  | 0x65 => some gs
  | _ => none

end TrapEmulation

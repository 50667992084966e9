import TrapEmulation.Decode.Head
import TrapEmulation.Decode.Operands
import TrapEmulation.Encoding.Instruction

/-!
# Decoding an instruction

An instruction is a prefix run, a head, an opcode, operand bytes and, in one opcode map, a byte of
immediate data. Only the opcodes that can be emulated are recognized; everything else is refused.
-/

namespace TrapEmulation

/-- The family that an opcode belongs to. -/
def Family.ofOpcode? (vex : Bool) (map : OpcodeMap) (opcode : Byte) : Option Family :=
  match map with
  | .map0F => none
  | .map0F38 =>
    if vex ∧ opcode ∈ [0xF2, 0xF3, 0xF5, 0xF6, 0xF7] then some bitManipulation else none
  | .map0F3A =>
    if vex ∧ opcode = 0xF0 then some bitManipulation
    else if opcode ∈ [0x60, 0x61, 0x62, 0x63] then some stringCompare
    else none

namespace Instruction

/-- Every opcode of this map that is recognized carries a byte of immediate data. -/
def readImmediate (map : OpcodeMap) : Reader (Option Byte) :=
  match map with
  | .map0F3A => do
    let byte ← Reader.next
    return some byte
  | _ => return none

/-- Prefixes after which no instruction is recognized. Outside long mode an address-size prefix asks
for 16-bit addressing. -/
def refusesRun (mode : Mode) (run : PrefixRun) : Bool :=
  run.lock || (mode == .bits32 && run.addressSize)

/-- Reads what follows the prefixes. There were `start` bytes before the first prefix was taken, and
those that are gone at the end make up the length. -/
def readBody (mode : Mode) (start : Nat) (run : PrefixRun) : Reader Instruction := do
  let head ← Head.read mode run
  let opcode ← Reader.next
  match Family.ofOpcode? head.vex.isSome head.map opcode with
  | none => Reader.refuse
  | some family =>
    let operands ← OperandBytes.read
    let immediate ← readImmediate head.map
    let rest ← get
    return {
      mode
      vex := head.vex
      extension := head.extension
      vvvv := head.vvvv
      mandatory := head.mandatory
      map := head.map
      opcode
      modrm := operands.modrm
      sib := operands.sib
      displacement := operands.displacement
      immediate
      segment := run.segment
      addressSizeOverride := run.addressSize
      family
      length := start - rest.length }

/-- Reads one instruction. -/
def read (mode : Mode) : Reader Instruction := do
  let start ← get
  let run ← PrefixRun.scan mode {}
  if refusesRun mode run then Reader.refuse else readBody mode start.length run

end Instruction

/-- Decodes the instruction at the front of `bytes`. -/
def decode (mode : Mode) (bytes : List Byte) : Except DecodeError Instruction :=
  (Instruction.read mode).runLimited bytes |>.map Prod.fst

end TrapEmulation

import TrapEmulation.Decode.Reader
import TrapEmulation.Encoding.Fields
import TrapEmulation.Mode

/-!
# Prefix runs

An instruction opens with any number of prefix bytes in any order. The run ends at the first byte
that is no prefix, and what it amounts to is gathered in a `PrefixRun`: of two prefixes of one kind
the later one holds, and a REX byte holds only as the last byte of the run.
-/

namespace TrapEmulation

/-- What one prefix byte asks for. -/
inductive PrefixByte where
  | operandSize
  | addressSize
  | lock
  | rep (p : MandatoryPrefix)
  | segment (s : Segment)
  | rex (byte : Byte)
  deriving DecidableEq, Repr

/-- The meaning of a byte as a prefix. REX bytes exist in 64-bit code only. -/
def PrefixByte.ofByte? (mode : Mode) (byte : Byte) : Option PrefixByte :=
  if mode = .bits64 ∧ byte &&& 0xF0 = 0x40 then
    some (rex byte)
  else
    match byte with
    | 0x66 => some operandSize
    | 0x67 => some addressSize
    | 0xF0 => some lock
    | 0xF2 => some (rep .pF2)
    | 0xF3 => some (rep .pF3)
    | _ => (Segment.ofByte? byte).map segment

/-- What the prefixes read so far amount to. -/
structure PrefixRun where
  operandSize : Bool := false
  addressSize : Bool := false
  lock : Bool := false
  rep : Option MandatoryPrefix := none
  segment : Option Segment := none
  rex : Option Byte := none
  deriving DecidableEq, Repr

namespace PrefixRun

/-- Long mode honours the overrides to FS and GS only; the others leave an earlier one standing. -/
def honours : Mode → Segment → Bool
  | .bits32, _ => true
  | .bits64, s => s == .fs || s == .gs

/-- Adds one more prefix to the run. -/
def absorb (mode : Mode) (run : PrefixRun) : PrefixByte → PrefixRun
  | .operandSize => { run with operandSize := true, rex := none }
  | .addressSize => { run with addressSize := true, rex := none }
  | .lock => { run with lock := true, rex := none }
  | .rep p => { run with rep := some p, rex := none }
  | .segment s =>
    { run with segment := if honours mode s then some s else run.segment, rex := none }
  | .rex byte => { run with rex := some byte }

/-- Reads prefixes for as long as there are any. The byte after them has to be there. -/
def scan (mode : Mode) (run : PrefixRun) : Reader PrefixRun
  | [] => .error .exhausted
  | byte :: rest =>
    match PrefixByte.ofByte? mode byte with
    | some p => scan mode (run.absorb mode p) rest
    | none => .ok (run, byte :: rest)

/-- The mandatory prefix of an encoding without VEX: F2 or F3 stands before 66. -/
def mandatory (run : PrefixRun) : MandatoryPrefix :=
  run.rep.getD (if run.operandSize then .p66 else .absent)

/-- Some prefix of the run makes a VEX encoding after it invalid. -/
def conflictsWithVex (run : PrefixRun) : Bool :=
  run.operandSize || run.rep.isSome || run.lock || run.rex.isSome

end PrefixRun

end TrapEmulation

import TrapEmulation.Decode.PrefixRun

/-!
# Opcode heads

Between the prefixes and the opcode stands either a VEX prefix or the escape bytes of a legacy
encoding. Both select an opcode map and a mandatory prefix and extend the register fields.
-/

namespace TrapEmulation

/-- What the bytes between the prefixes and the opcode say. -/
structure Head where
  vex : Option VexForm
  extension : Extension
  vvvv : BitVec 4
  mandatory : MandatoryPrefix
  map : OpcodeMap
  deriving DecidableEq, Repr

namespace Head

/-- Whether a VEX prefix comes next. Outside long mode the same two bytes open another instruction,
whose operand byte cannot name a register. -/
def startsVex (mode : Mode) : Reader Bool := do
  let lead ← Reader.peek 0
  if lead = 0xC4 ∨ lead = 0xC5 then
    match mode with
    | .bits64 => return true
    | .bits32 => return (← Reader.peek 1) &&& 0xC0 = 0xC0
  else
    return false

/-- The extra register of a VEX payload byte, stored inverted. -/
def vvvvOf (byte : Byte) : BitVec 4 := ~~~(byte.extractLsb' 3 4)

/-- Outside long mode there are eight registers, whatever the bits that would extend them. -/
def restrict (mode : Mode) (head : Head) : Head :=
  match mode with
  | .bits64 => head
  | .bits32 =>
    { head with extension := { head.extension with b := false }, vvvv := head.vvvv &&& 7 }

/-- The head of a VEX prefix whose payload is one byte. -/
def ofTwoByte (mode : Mode) (payload : Byte) : Option Head :=
  if payload.getLsbD 2 then
    none
  else
    some <| restrict mode
      { vex := some .twoByte
        extension := { r := !payload.getLsbD 7 }
        vvvv := vvvvOf payload
        mandatory := .ofPp payload
        map := .map0F }

/-- The head of a VEX prefix whose payload is two bytes. -/
def ofThreeByte (mode : Mode) (first second : Byte) : Option Head :=
  if second.getLsbD 2 then
    none
  else
    (OpcodeMap.ofSelector? first).map fun map ↦ restrict mode
      { vex := some .threeByte
        extension :=
          { r := !first.getLsbD 7
            x := !first.getLsbD 6
            b := !first.getLsbD 5
            w := second.getLsbD 7 }
        vvvv := vvvvOf second
        mandatory := .ofPp second
        map := map }

/-- Accepts a head that is there. -/
def orRefuse : Option Head → Reader Head
  | some head => pure head
  | none => Reader.refuse

/-- Reads a VEX prefix. The vector length has to be the short one. -/
def readVex (mode : Mode) : Reader Head := do
  let lead ← Reader.next
  let first ← Reader.next
  if lead = 0xC5 then
    orRefuse (ofTwoByte mode first)
  else
    let second ← Reader.next
    orRefuse (ofThreeByte mode first second)

/-- The head of a legacy encoding: everything but the map comes from the prefixes. -/
def ofRun (run : PrefixRun) (map : OpcodeMap) : Head where
  vex := none
  extension := (run.rex.map Extension.ofRex).getD {}
  vvvv := 0
  mandatory := run.mandatory
  map := map

/-- Reads the escape bytes of a legacy encoding. A single one leaves the opcode byte in place. -/
def readLegacy (run : PrefixRun) : Reader Head := do
  if (← Reader.next) ≠ 0x0F then
    Reader.refuse
  else
    match (← Reader.peek 0) with
    | 0x38 =>
      let _ ← Reader.next
      return ofRun run .map0F38
    | 0x3A =>
      let _ ← Reader.next
      return ofRun run .map0F3A
    | _ => return ofRun run .map0F

/-- Reads the head that follows the prefixes. -/
def read (mode : Mode) (run : PrefixRun) : Reader Head := do
  if ← startsVex mode then
    if run.conflictsWithVex then Reader.refuse else readVex mode
  else
    readLegacy run

end Head

end TrapEmulation

import TrapEmulation.Bytes

/-!
# Reading instruction bytes

An instruction is read byte by byte from the front of a list, and no more than fifteen bytes are
ever looked at. A reader stops for two reasons only: it wants a byte that is not there, or it
refuses what it has read. Wanting a byte means that the input is too short, unless all fifteen
bytes were there; then the instruction is too long.
-/

namespace TrapEmulation

/-- No instruction is longer than this. -/
def maxInstructionLength : Nat := 15

/-- Why a byte string has no decoding. -/
inductive DecodeError where
  | unexpectedEnd
  | tooLong
  | notRecognized
  deriving DecidableEq, Repr

def DecodeError.message : DecodeError → String
  | unexpectedEnd => "unexpected end of instruction bytes"
  | tooLong => "instruction exceeds 15-byte length limit"
  | notRecognized => "instruction not recognized"

/-- Why a reader stopped: the bytes ran out, or it refused them. -/
inductive Stop where
  | exhausted
  | refused
  deriving DecidableEq, Repr

abbrev Reader := StateT (List Byte) (Except Stop)

namespace Reader

variable {α : Type}

def refuse : Reader α := throw .refused

/-- The byte `ahead` places after the next one, left in place. -/
def peek (ahead : Nat) : Reader Byte := fun bytes ↦
  match bytes[ahead]? with
  | some byte => .ok (byte, bytes)
  | none => .error .exhausted

/-- Takes the next byte. -/
def next : Reader Byte
  | byte :: rest => .ok (byte, rest)
  | [] => .error .exhausted

/-- Takes the next `count` bytes. -/
def take : Nat → Reader (List Byte)
  | 0 => pure []
  | count + 1 => do
    let byte ← next
    let rest ← take count
    return byte :: rest

/-- Runs a reader on the bytes an instruction may have. -/
def runLimited (reader : Reader α) (bytes : List Byte) : Except DecodeError (α × List Byte) :=
  match reader (bytes.take maxInstructionLength) with
  | .ok result => .ok result
  | .error .refused => .error .notRecognized
  | .error .exhausted =>
    if bytes.length < maxInstructionLength then .error .unexpectedEnd else .error .tooLong

end Reader

end TrapEmulation

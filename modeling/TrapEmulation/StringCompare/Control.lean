import TrapEmulation.Bytes

/-!
# The control byte of a string comparison

The immediate byte chooses how elements are read, how they are compared, how the result is
negated, and which of two output forms is wanted. Its top bit means nothing.
-/

namespace TrapEmulation.StringCompare

/-- The elements of an operand: sixteen bytes or eight words, unsigned or signed. -/
inductive ElementFormat where
  | unsignedBytes
  | unsignedWords
  | signedBytes
  | signedWords
  deriving DecidableEq, Repr

namespace ElementFormat

def bits : ElementFormat → Nat
  | unsignedBytes | signedBytes => 8
  | unsignedWords | signedWords => 16

/-- The number of elements in an operand. -/
def count : ElementFormat → Nat
  | unsignedBytes | signedBytes => 16
  | unsignedWords | signedWords => 8

def signed : ElementFormat → Bool
  | unsignedBytes | unsignedWords => false
  | signedBytes | signedWords => true

theorem count_mul_bits (format : ElementFormat) : format.count * format.bits = 128 := by
  cases format <;> rfl

end ElementFormat

/-- How the comparisons of one element of the second operand are put together. -/
inductive Aggregation where
  | equalAny
  | ranges
  | equalEach
  | equalOrdered
  deriving DecidableEq, Repr

/-- Which positions of the result are negated. -/
inductive Polarity where
  | positive
  | negative
  | maskedPositive
  | maskedNegative
  deriving DecidableEq, Repr

structure Control where
  format : ElementFormat
  aggregation : Aggregation
  polarity : Polarity
  /-- The index forms give the highest position, the mask forms widen each bit to an element. -/
  msb : Bool
  deriving DecidableEq, Repr

namespace Control

def ofByte (byte : Byte) : Control where
  format :=
    match byte.extractLsb' 0 2 with
    | 0b00 => .unsignedBytes
    | 0b01 => .unsignedWords
    | 0b10 => .signedBytes
    | 0b11 => .signedWords
  aggregation :=
    match byte.extractLsb' 2 2 with
    | 0b00 => .equalAny
    | 0b01 => .ranges
    | 0b10 => .equalEach
    | 0b11 => .equalOrdered
  polarity :=
    match byte.extractLsb' 4 2 with
    | 0b00 => .positive
    | 0b01 => .negative
    | 0b10 => .maskedPositive
    | 0b11 => .maskedNegative
  msb := byte.getLsbD 6

end Control

end TrapEmulation.StringCompare

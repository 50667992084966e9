/-!
# Hexadecimal text

Addresses and masks are shown to people in hexadecimal, with lower-case digits, no leading zeros
and the mark `0x` in front.
-/

namespace TrapEmulation

/-- The number in hexadecimal behind the mark `0x`. -/
def hexText (value : Nat) : String :=
  "0x" ++ String.ofList (Nat.toDigits 16 value)

end TrapEmulation

import TrapEmulation.LowMask
import TrapEmulation.Registers.Flags
import TrapEmulation.StringCompare.Elements
import TrapEmulation.StringCompare.Matrix

/-!
# Outcomes of a string comparison

All four instructions compare in the same way and differ only in where the lengths come from and in
whether they give a position or a mask. Both outputs and the flags are read off the outcome.
-/

namespace TrapEmulation.StringCompare

structure Outcome where
  /-- One bit for each element of the second operand, after negation. -/
  result : BitVec 16
  la : Nat
  lb : Nat
  /-- The number of elements in an operand. -/
  count : Nat
  deriving DecidableEq, Repr

/-- Negates the positions that the polarity names; masked, those that are valid in the second
operand. -/
def Polarity.negate (polarity : Polarity) (count lb : Nat) (bits : BitVec 16) : BitVec 16 :=
  match polarity with
  | .positive | .maskedPositive => bits
  | .negative => bits ^^^ lowMask 16 count
  | .maskedNegative => bits ^^^ lowMask 16 lb

/-- The comparison matrix of two operands, with the entries past their lengths replaced. -/
def matrix (control : Control) (a b : BitVec 128) (la lb : Nat) : ComparisonMatrix :=
  let format := control.format
  (ComparisonMatrix.build control.aggregation format.count (element format a)
    (element format b)).forceInvalid control.aggregation la lb

/-- Compares two operands of given lengths. -/
def compare (control : Control) (a b : BitVec 128) (la lb : Nat) : Outcome :=
  let count := control.format.count
  let la := min la count
  let lb := min lb count
  let bits := (matrix control a b la lb).aggregate control.aggregation
  { result := control.polarity.negate count lb bits, la, lb, count }

namespace Outcome

/-- The lowest position of the result, or the highest, and the number of elements if the result is
empty. -/
def index (o : Outcome) (highest : Bool) : Nat :=
  let positions := if highest then (List.range 16).reverse else List.range 16
  (positions.find? fun i ↦ o.result.getLsbD i).getD o.count

theorem exists_getLsbD {o : Outcome} (hne : o.result ≠ 0) :
    ∃ i ∈ List.range 16, o.result.getLsbD i = true := by
  have hset := BitVec.getLsbD_true_ctz_of_ne_zero hne
  exact ⟨_, List.mem_range.mpr (BitVec.lt_of_getLsbD hset), hset⟩

theorem index_of_result_eq_zero {o : Outcome} (hzero : o.result = 0) (highest : Bool) :
    o.index highest = o.count := by
  have hnone (positions : List Nat) : (positions.find? fun i ↦ o.result.getLsbD i) = none := by
    rw [hzero, List.find?_eq_none]
    intro i _
    simp
  rw [index, hnone, Option.getD_none]

/-- The result as it stands, or with each bit widened to an element. -/
def mask (o : Outcome) (expanded : Bool) : BitVec 128 :=
  if expanded then ofBits 128 fun i ↦ o.result.getLsbD (i / (128 / o.count))
  else o.result.setWidth 128

def flags (o : Outcome) : FlagUpdate :=
  .ofList
    [(.carry, o.result != 0), (.zero, decide (o.lb < o.count)), (.sign, decide (o.la < o.count)),
      (.overflow, o.result.getLsbD 0), (.adjust, false), (.parity, false)]

end Outcome

end TrapEmulation.StringCompare

import TrapEmulation.StringCompare.Control

/-!
# Comparison matrices

Every element of the first operand is compared with every element of the second. Entries that
involve an element past a valid length are replaced by fixed values, and each column is then reduced
to one bit.
-/

namespace TrapEmulation.StringCompare

/-- The word whose bit `i` is `p i`. -/
def ofBits : (w : Nat) → (Nat → Bool) → BitVec w
  | 0, _ => 0
  | w + 1, p => BitVec.cons (p w) (ofBits w p)

theorem getLsbD_ofBits (w i : Nat) (p : Nat → Bool) :
    (ofBits w p).getLsbD i = (decide (i < w) && p i) := by
  induction w with
  | zero => simp [ofBits]
  | succ w ih =>
    rw [ofBits, BitVec.getLsbD_cons, ih]
    by_cases h : i = w
    · simp [h]
    · have : i < w + 1 ↔ i < w := by omega
      simp [h, this]

/-- The entry of row `i` and column `j` compares element `i` of the first operand with element `j`
of the second. Rows and columns count below `size`. -/
structure ComparisonMatrix where
  size : Nat
  cell : Nat → Nat → Bool

/-- Whether two elements compare, given the row. A range is bounded below by an element at an even
place and above by the next one. -/
def Aggregation.relates (aggregation : Aggregation) (row : Nat) (a b : Int) : Bool :=
  match aggregation with
  | .ranges => if row % 2 = 0 then a ≤ b else b ≤ a
  | _ => a == b

/-- The entry that stands for an element past the end of one operand or of both. -/
def Aggregation.forced (aggregation : Aggregation) (validA validB : Bool) : Bool :=
  match aggregation, validA, validB with
  | .equalEach, false, false => true
  | .equalOrdered, false, _ => true
  | _, _, _ => false

namespace ComparisonMatrix

def build (aggregation : Aggregation) (size : Nat) (a b : Nat → Int) : ComparisonMatrix where
  size := size
  cell i j := aggregation.relates i (a i) (b j)

/-- Replaces the entries that involve an element past the valid lengths. -/
def forceInvalid (aggregation : Aggregation) (la lb : Nat) (m : ComparisonMatrix) :
    ComparisonMatrix where
  size := m.size
  cell i j :=
    if i < la ∧ j < lb then m.cell i j else aggregation.forced (i < la) (j < lb)

/-- Reduces column `j` to one bit. -/
def hit (aggregation : Aggregation) (m : ComparisonMatrix) (j : Nat) : Bool :=
  match aggregation with
  | .equalAny => (List.range m.size).any fun i ↦ m.cell i j
  | .ranges => (List.range (m.size / 2)).any fun k ↦ m.cell (2 * k) j && m.cell (2 * k + 1) j
  | .equalEach => m.cell j j
  | .equalOrdered => (List.range (m.size - j)).all fun k ↦ m.cell k (j + k)

/-- One bit for each element of the second operand. -/
def aggregate (aggregation : Aggregation) (m : ComparisonMatrix) : BitVec 16 :=
  ofBits 16 fun j ↦ decide (j < m.size) && m.hit aggregation j

end ComparisonMatrix

end TrapEmulation.StringCompare

import TrapEmulation.Proofs.Checked.Elements
import TrapEmulation.StringCompare.Matrix

/-!
# Checked comparison matrices

A comparison matrix is an array of rows, of which only a corner is used. Every place that is visited
while it is built, forced and reduced lies in that corner, and so does the entry below the visited one
where ranges are compared in pairs.
-/

namespace TrapEmulation.Checked.StringCompare

open TrapEmulation.StringCompare (Aggregation ComparisonMatrix ofBits getLsbD_ofBits)

/-- An array of rows. Rows and columns below `size` are in use. -/
structure Cells where
  size : Nat
  rows : Vector (Vector Bool 16) 16

namespace Cells

def cell (m : Cells) (i j : Nat) : Run Bool := do
  let row ← get m.rows i
  get row j

def replace (m : Cells) (i j : Nat) (value : Bool) : Run Cells := do
  let row ← get m.rows i
  let row ← set row j value
  let rows ← set m.rows i row
  return { m with rows }

/-- The entries in use. The others are false. -/
def corner (m : ComparisonMatrix) (i j : Nat) : Bool :=
  decide (i < m.size ∧ j < m.size) && m.cell i j

def rowOf (m : ComparisonMatrix) (i : Nat) : Vector Bool 16 := Vector.ofFn fun j ↦ corner m i j

/-- The array for a matrix. -/
def ofMatrix (m : ComparisonMatrix) : Cells where
  size := m.size
  rows := Vector.ofFn fun i ↦ rowOf m i

variable {m : ComparisonMatrix}

theorem corner_eq {i j : Nat} (hi : i < m.size) (hj : j < m.size) : corner m i j = m.cell i j := by
  rw [corner, decide_eq_true ⟨hi, hj⟩, Bool.true_and]

theorem getElem_rowOf (m : ComparisonMatrix) (i : Nat) {j : Nat} (hj : j < 16) :
    (rowOf m i)[j] = corner m i j := Vector.getElem_ofFn hj

theorem getElem_ofMatrix (m : ComparisonMatrix) {i : Nat} (hi : i < 16) :
    (ofMatrix m).rows[i] = rowOf m i := Vector.getElem_ofFn hi

/-- Matrices that agree on the entries in use have the same array. -/
theorem ofMatrix_congr {other : ComparisonMatrix} (hsize : m.size = other.size)
    (hcell : ∀ i < m.size, ∀ j < m.size, m.cell i j = other.cell i j) :
    ofMatrix m = ofMatrix other := by
  have hcorner : corner m = corner other := by
    funext i j
    unfold corner
    rw [← hsize]
    by_cases hused : i < m.size ∧ j < m.size
    · rw [hcell i hused.1 j hused.2]
    · rw [decide_eq_false hused, Bool.false_and, Bool.false_and]
  have hrow : rowOf m = rowOf other := by
    funext i
    rw [rowOf, rowOf, hcorner]
  rw [ofMatrix, ofMatrix, hrow, hsize]

theorem cell_ofMatrix (hsize : m.size ≤ 16) {i j : Nat} (hi : i < m.size) (hj : j < m.size) :
    (ofMatrix m).cell i j = pure (m.cell i j) := by
  have hi' : i < 16 := Nat.lt_of_lt_of_le hi hsize
  have hj' : j < 16 := Nat.lt_of_lt_of_le hj hsize
  rw [cell, get_eq _ hi', pure_bind, getElem_ofMatrix m hi', get_eq _ hj', getElem_rowOf,
    corner_eq hi hj]

/-- The matrix with one entry replaced. -/
def withCell (m : ComparisonMatrix) (i j : Nat) (value : Bool) : ComparisonMatrix where
  size := m.size
  cell row column := if row = i ∧ column = j then value else m.cell row column

theorem corner_withCell_self {i j : Nat} (hi : i < m.size) (hj : j < m.size) (value : Bool) :
    corner (withCell m i j value) i j = value := by
  have hcell : corner (withCell m i j value) i j = (withCell m i j value).cell i j := corner_eq hi hj
  rw [hcell]
  exact if_pos ⟨rfl, rfl⟩

theorem corner_withCell_of_ne {i j row column : Nat} (h : ¬ (row = i ∧ column = j)) (value : Bool) :
    corner (withCell m i j value) row column = corner m row column := by
  have hcell : (withCell m i j value).cell row column = m.cell row column := if_neg h
  rw [corner, hcell]
  rfl

theorem set_rowOf {i j : Nat} (hi : i < m.size) (hj : j < m.size) (hj' : j < 16) (value : Bool) :
    (rowOf m i).set j value = rowOf (withCell m i j value) i := by
  apply Vector.ext
  intro column hcolumn
  rw [Vector.getElem_set, getElem_rowOf, getElem_rowOf]
  split
  case isTrue hsame => rw [← hsame, corner_withCell_self hi hj]
  case isFalse hother => rw [corner_withCell_of_ne fun h ↦ hother h.2.symm]

theorem set_rows {i j : Nat} (hi : i < 16) (value : Bool) :
    (ofMatrix m).rows.set i (rowOf (withCell m i j value) i) = (ofMatrix (withCell m i j value)).rows := by
  apply Vector.ext
  intro row hrow
  rw [Vector.getElem_set, getElem_ofMatrix _ hrow, getElem_ofMatrix _ hrow]
  split
  case isTrue hsame => rw [hsame]
  case isFalse hother =>
    apply Vector.ext
    intro column hcolumn
    rw [getElem_rowOf, getElem_rowOf, corner_withCell_of_ne fun h ↦ hother h.1.symm]

theorem replace_ofMatrix (m : ComparisonMatrix) (hsize : m.size ≤ 16) {i j : Nat} (hi : i < m.size)
    (hj : j < m.size) (value : Bool) :
    (ofMatrix m).replace i j value = pure (ofMatrix (withCell m i j value)) := by
  have hi' : i < 16 := Nat.lt_of_lt_of_le hi hsize
  have hj' : j < 16 := Nat.lt_of_lt_of_le hj hsize
  rw [replace, get_eq _ hi', pure_bind, getElem_ofMatrix m hi', set_eq _ hj', pure_bind,
    set_rowOf hi hj hj', set_eq _ hi', pure_bind, set_rows hi']
  rfl

/-! ## Building and forcing -/

/-- Compares the elements of two operands. -/
def build (aggregation : Aggregation) (size : Nat) (a b : Vector Int 16) : Run Cells := do
  let rows ← Vector.ofFnM fun i : Fin 16 ↦ Vector.ofFnM fun j : Fin 16 ↦
    if i < size ∧ j < size then do
      let x ← get a i
      let y ← get b j
      return aggregation.relates i x y
    else
      return false
  return { size, rows }

/-- Replaces one entry if it involves an element past a valid length. -/
def forceCell (aggregation : Aggregation) (la lb : Nat) (i : Nat) (m : Cells) (j : Nat) : Run Cells :=
  if i < la ∧ j < lb then return m
  else m.replace i j (aggregation.forced (i < la) (j < lb))

def forceRow (aggregation : Aggregation) (la lb : Nat) (m : Cells) (i : Nat) : Run Cells :=
  (List.range m.size).foldlM (forceCell aggregation la lb i) m

def forceInvalid (aggregation : Aggregation) (la lb : Nat) (m : Cells) : Run Cells :=
  (List.range m.size).foldlM (forceRow aggregation la lb) m

theorem build_eq (aggregation : Aggregation) {size : Nat} {a b : Vector Int 16} {p q : Nat → Int}
    (ha : ∀ i (hi : i < 16), i < size → a[i] = p i) (hb : ∀ j (hj : j < 16), j < size → b[j] = q j) :
    build aggregation size a b = pure (ofMatrix (ComparisonMatrix.build aggregation size p q)) := by
  have hplace (i j : Fin 16) :
      (if i.val < size ∧ j.val < size then do
        let x ← get a i
        let y ← get b j
        return aggregation.relates i x y
      else
        return false : Run Bool) =
      pure (corner (ComparisonMatrix.build aggregation size p q) i j) := by
    split
    case isTrue h =>
      have hused := corner_eq (m := ComparisonMatrix.build aggregation size p q) h.1 h.2
      rw [get_eq a i.isLt, pure_bind, get_eq b j.isLt, pure_bind, ha i i.isLt h.1, hb j j.isLt h.2, hused]
      rfl
    case isFalse h =>
      have hunused : corner (ComparisonMatrix.build aggregation size p q) i j = false :=
        Bool.and_eq_false_iff.mpr (.inl (decide_eq_false h))
      rw [hunused]
  simp only [build, hplace, Vector.ofFnM_pure, pure_bind]
  rfl

/-- The matrix with the entries forced that come before an entry in reading order. -/
def forcedBefore (aggregation : Aggregation) (la lb : Nat) (m : ComparisonMatrix) (i j : Nat) :
    ComparisonMatrix where
  size := m.size
  cell row column :=
    if row < i ∨ (row = i ∧ column < j) then (m.forceInvalid aggregation la lb).cell row column
    else m.cell row column

variable {aggregation : Aggregation} {la lb : Nat}

theorem forceCell_eq (hsize : m.size ≤ 16) {i j : Nat} (hi : i < m.size) (hj : j < m.size) :
    forceCell aggregation la lb i (ofMatrix (forcedBefore aggregation la lb m i j)) j =
      pure (ofMatrix (forcedBefore aggregation la lb m i (j + 1))) := by
  unfold forceCell
  split
  case isTrue hvalid =>
    refine congrArg pure (ofMatrix_congr rfl fun row _ column _ ↦ ?_)
    by_cases hhere : row = i ∧ column = j
    · obtain ⟨rfl, rfl⟩ := hhere
      simp [forcedBefore, ComparisonMatrix.forceInvalid, hvalid]
    · have hbefore : row < i ∨ (row = i ∧ column < j + 1) ↔ row < i ∨ (row = i ∧ column < j) := by
        omega
      simp only [forcedBefore, hbefore]
  case isFalse hinvalid =>
    rw [replace_ofMatrix (forcedBefore aggregation la lb m i j) hsize hi hj]
    refine congrArg pure (ofMatrix_congr rfl fun row _ column _ ↦ ?_)
    by_cases hhere : row = i ∧ column = j
    · obtain ⟨rfl, rfl⟩ := hhere
      simp [forcedBefore, withCell, ComparisonMatrix.forceInvalid, hinvalid]
    · have hbefore : row < i ∨ (row = i ∧ column < j + 1) ↔ row < i ∨ (row = i ∧ column < j) := by
        omega
      simp only [forcedBefore, withCell, if_neg hhere, hbefore]

theorem forceRow_eq (hsize : m.size ≤ 16) {i : Nat} (hi : i < m.size) :
    forceRow aggregation la lb (ofMatrix (forcedBefore aggregation la lb m i 0)) i =
      pure (ofMatrix (forcedBefore aggregation la lb m (i + 1) 0)) := by
  have hloop : (List.range m.size).foldlM (forceCell aggregation la lb i)
      (ofMatrix (forcedBefore aggregation la lb m i 0)) =
        pure (ofMatrix (forcedBefore aggregation la lb m i m.size)) :=
    foldlM_range (fun j ↦ ofMatrix (forcedBefore aggregation la lb m i j))
      fun j hj ↦ forceCell_eq hsize hi hj
  have hnext : ofMatrix (forcedBefore aggregation la lb m i m.size) =
      ofMatrix (forcedBefore aggregation la lb m (i + 1) 0) := by
    refine ofMatrix_congr rfl fun row _ column hcolumn ↦ ?_
    have hbefore : row < i ∨ (row = i ∧ column < m.size) ↔ row < i + 1 ∨ (row = i + 1 ∧ column < 0) := by
      have hlt : column < m.size := hcolumn
      omega
    simp only [forcedBefore, hbefore]
  rw [forceRow, ← hnext]
  exact hloop

theorem forceInvalid_eq (hsize : m.size ≤ 16) :
    forceInvalid aggregation la lb (ofMatrix m) =
      pure (ofMatrix (m.forceInvalid aggregation la lb)) := by
  have hfirst : ofMatrix (forcedBefore aggregation la lb m 0 0) = ofMatrix m := by
    refine ofMatrix_congr rfl fun row _ column _ ↦ ?_
    simp [forcedBefore]
  have hlast : ofMatrix (forcedBefore aggregation la lb m m.size 0) =
      ofMatrix (m.forceInvalid aggregation la lb) := by
    refine ofMatrix_congr rfl fun row hrow column _ ↦ ?_
    have hbefore : row < m.size := hrow
    simp [forcedBefore, hbefore]
  have hloop := foldlM_range (fun i ↦ ofMatrix (forcedBefore aggregation la lb m i 0))
    fun i (hi : i < m.size) ↦ forceRow_eq hsize hi
  rw [hfirst, hlast] at hloop
  exact hloop

/-! ## Reducing -/

/-- Both entries of the pair of bounds that starts in row `i`. The second is looked at only if the first is
set. -/
def pairHit (m : Cells) (i j : Nat) : Run Bool := do
  if ← m.cell i j then
    let next ← add i 1
    m.cell next j
  else
    return false

/-- Reduces column `j` to one bit. -/
def hit (aggregation : Aggregation) (m : Cells) (j : Nat) : Run Bool :=
  match aggregation with
  | .equalAny => (List.range m.size).anyM fun i ↦ m.cell i j
  | .ranges => (List.range ((m.size + 1) / 2)).anyM fun k ↦ m.pairHit (2 * k) j
  | .equalEach => m.cell j j
  | .equalOrdered => do
    let remaining ← sub m.size j
    (List.range remaining).allM fun k ↦ do
      let column ← add j k
      m.cell k column

/-- Sets the bit of a column that is hit. -/
def aggregateStep (aggregation : Aggregation) (m : Cells) (out : BitVec 16) (j : Nat) :
    Run (BitVec 16) := do
  if ← m.hit aggregation j then
    let one ← shiftLeft 1 j
    return out ||| one
  else
    return out

def aggregate (aggregation : Aggregation) (m : Cells) : Run (BitVec 16) :=
  (List.range m.size).foldlM (m.aggregateStep aggregation) 0

theorem pairHit_eq (hsize : m.size ≤ 16) {i j : Nat} (hi : i + 1 < m.size) (hj : j < m.size) :
    (ofMatrix m).pairHit i j = pure (m.cell i j && m.cell (i + 1) j) := by
  have hsum : i + 1 < 2 ^ 32 := by omega
  rw [pairHit, cell_ofMatrix hsize (Nat.lt_of_succ_lt hi) hj, pure_bind]
  cases m.cell i j with
  | false => rfl
  | true => rw [if_pos rfl, add, guarded_eq hsum, pure_bind, cell_ofMatrix hsize hi hj, Bool.true_and]

/-- The elements come in pairs, so that every lower bound has an upper one. -/
theorem hit_eq (hsize : m.size ≤ 16) (heven : m.size % 2 = 0) {j : Nat} (hj : j < m.size) :
    (ofMatrix m).hit aggregation j = pure (m.hit aggregation j) := by
  cases aggregation with
  | equalAny =>
    exact anyM_eq fun i hi ↦ cell_ofMatrix hsize (List.mem_range.mp hi) hj
  | ranges =>
    have hhalf : (m.size + 1) / 2 = m.size / 2 := by omega
    have hpairs : (List.range (m.size / 2)).anyM (fun k ↦ (ofMatrix m).pairHit (2 * k) j) =
        pure (m.hit .ranges j) := by
      refine anyM_eq fun k hk ↦ pairHit_eq hsize ?_ hj
      have hlt : k < m.size / 2 := List.mem_range.mp hk
      omega
    rw [← hhalf] at hpairs
    exact hpairs
  | equalEach => exact cell_ofMatrix hsize hj hj
  | equalOrdered =>
    have hle : j ≤ (ofMatrix m).size := Nat.le_of_lt hj
    rw [hit, sub, guarded_eq hle, pure_bind]
    refine allM_eq fun k hk ↦ ?_
    have hlt : k < m.size - j := List.mem_range.mp hk
    have hsum : j + k < 2 ^ 32 := by omega
    have hrow : k < m.size := by omega
    have hcolumn : j + k < m.size := by omega
    rw [add, guarded_eq hsum, pure_bind, cell_ofMatrix hsize hrow hcolumn]

/-- One more bit of a word that is built from the lowest bit on. -/
theorem ofBits_succ {w j : Nat} (hj : j < w) (p : Nat → Bool) :
    ofBits w (fun k ↦ decide (k < j + 1) && p k) =
      if p j then ofBits w (fun k ↦ decide (k < j) && p k) ||| BitVec.twoPow w j
      else ofBits w fun k ↦ decide (k < j) && p k := by
  apply BitVec.eq_of_getLsbD_eq
  intro i hi
  have hsplit : decide (i < j + 1) = (decide (i < j) || decide (j = i)) := by
    rw [← Bool.decide_or, decide_eq_decide]
    omega
  have hlast : (decide (j = i) && p i) = (decide (j = i) && p j) := by
    by_cases hhere : j = i
    · rw [hhere]
    · rw [decide_eq_false hhere, Bool.false_and, Bool.false_and]
  rw [getLsbD_ofBits, hsplit, Bool.and_or_distrib_right, hlast]
  cases p j with
  | false => rw [if_neg Bool.false_ne_true, getLsbD_ofBits, Bool.and_false, Bool.or_false]
  | true =>
    rw [if_pos rfl, BitVec.getLsbD_or, getLsbD_ofBits, BitVec.getLsbD_twoPow, Bool.and_true,
      decide_eq_true hi, decide_eq_true hj, Bool.true_and, Bool.true_and, Bool.true_and]

theorem aggregateStep_eq (hsize : m.size ≤ 16) (heven : m.size % 2 = 0) {j : Nat} (hj : j < m.size) :
    (ofMatrix m).aggregateStep aggregation
      (ofBits 16 fun k ↦ decide (k < j) && m.hit aggregation k) j =
        pure (ofBits 16 fun k ↦ decide (k < j + 1) && m.hit aggregation k) := by
  have hplace : j < 16 := Nat.lt_of_lt_of_le hj hsize
  rw [aggregateStep, hit_eq hsize heven hj, pure_bind, ofBits_succ hplace]
  cases m.hit aggregation j with
  | false => rfl
  | true => simp only [if_true, shiftLeft_one hplace, pure_bind]

theorem aggregate_eq (hsize : m.size ≤ 16) (heven : m.size % 2 = 0) :
    (ofMatrix m).aggregate aggregation = pure (m.aggregate aggregation) := by
  have hfirst : (ofBits 16 fun k ↦ decide (k < 0) && m.hit aggregation k) = 0 := by
    apply BitVec.eq_of_getLsbD_eq
    intro i hi
    rw [getLsbD_ofBits, decide_eq_false (Nat.not_lt_zero i), Bool.false_and, Bool.and_false,
      BitVec.ofNat_eq_ofNat, BitVec.getLsbD_zero]
  have hloop := foldlM_range (fun j ↦ ofBits 16 fun k ↦ decide (k < j) && m.hit aggregation k)
    fun j (hj : j < m.size) ↦ aggregateStep_eq hsize heven hj
  rw [hfirst] at hloop
  exact hloop

end Cells

end TrapEmulation.Checked.StringCompare

import TrapEmulation.Proofs.Checked.Words
import TrapEmulation.StringCompare.Elements

/-!
# Checked elements

Elements are taken one after the other from an array of bytes, two at a time if they are words, and put
into an array of sixteen places, of which as many are used as an operand has elements.
-/

namespace TrapEmulation.Checked.StringCompare

open TrapEmulation.StringCompare (ElementFormat)

/-! ## Reading elements -/

def bytes (v : BitVec 128) : Vector Byte 16 := Vector.ofFn fun i ↦ v.extractLsb' (8 * i) 8

/-- The word in two neighbouring bytes. -/
def word (v : BitVec 128) (i : Nat) : Run (BitVec 16) := do
  let place ← mul 2 i
  let low ← get (bytes v) place
  let next ← add place 1
  let high ← get (bytes v) next
  return high ++ low

def element (format : ElementFormat) (v : BitVec 128) (i : Nat) : Run Int :=
  match format with
  | .unsignedBytes => do
    let byte ← get (bytes v) i
    return byte.toNat
  | .signedBytes => do
    let byte ← get (bytes v) i
    return byte.toInt
  | .unsignedWords => do
    let word ← word v i
    return word.toNat
  | .signedWords => do
    let word ← word v i
    return word.toInt

/-- All elements of an operand. Unused places are zero. -/
def elements (format : ElementFormat) (v : BitVec 128) : Run (Vector Int 16) :=
  Vector.ofFnM fun i ↦ if i < format.count then element format v i else return 0

/-- The array that the elements make up. -/
def elementsOf (format : ElementFormat) (v : BitVec 128) : Vector Int 16 :=
  Vector.ofFn fun i ↦ if i < format.count then TrapEmulation.StringCompare.element format v i else 0

theorem get_bytes (v : BitVec 128) {i : Nat} (h : i < 16) :
    get (bytes v) i = pure (v.extractLsb' (8 * i) 8) := by
  rw [get_eq _ h, bytes, Vector.getElem_ofFn]

theorem word_eq (v : BitVec 128) {i : Nat} (h : i < 8) : word v i = pure (v.extractLsb' (i * 16) 16) := by
  have hproduct : 2 * i < 2 ^ 32 := by omega
  have hsum : 2 * i + 1 < 2 ^ 32 := by omega
  have hlow : 2 * i < 16 := by omega
  have hhigh : 2 * i + 1 < 16 := by omega
  have hadjacent : 8 * (2 * i + 1) = 8 * (2 * i) + 8 := Nat.mul_succ 8 (2 * i)
  have hplace : 8 * (2 * i) = i * 16 := by omega
  rw [word, mul, guarded_eq hproduct, pure_bind, get_bytes v hlow, pure_bind, add, guarded_eq hsum,
    pure_bind, get_bytes v hhigh, pure_bind,
    BitVec.extractLsb'_append_extractLsb'_eq_extractLsb' hadjacent, hplace]

theorem element_eq (format : ElementFormat) (v : BitVec 128) {i : Nat} (h : i < format.count) :
    element format v i = pure (TrapEmulation.StringCompare.element format v i) := by
  cases format with
  | unsignedBytes => rw [element, get_bytes v h, pure_bind, Nat.mul_comm]; rfl
  | signedBytes => rw [element, get_bytes v h, pure_bind, Nat.mul_comm]; rfl
  | unsignedWords => rw [element, word_eq v h, pure_bind]; rfl
  | signedWords => rw [element, word_eq v h, pure_bind]; rfl

theorem count_le_sixteen (format : ElementFormat) : format.count ≤ 16 := by
  cases format <;> decide

theorem elements_eq (format : ElementFormat) (v : BitVec 128) :
    elements format v = pure (elementsOf format v) := by
  have hplace (i : Fin 16) : (if i < format.count then element format v i else return 0) =
      (pure (if i < format.count then TrapEmulation.StringCompare.element format v i else 0) :
        Run Int) := by
    split
    case isTrue h => exact element_eq format v h
    case isFalse => rfl
  rw [elements, funext hplace, Vector.ofFnM_pure, elementsOf]

theorem getElem_elementsOf (format : ElementFormat) (v : BitVec 128) {i : Nat} (h : i < format.count)
    (hi : i < 16) : (elementsOf format v)[i] = TrapEmulation.StringCompare.element format v i := by
  rw [elementsOf, Vector.getElem_ofFn, if_pos h]

/-! ## Lengths -/

/-- The first zero element ends the operand. -/
def implicitLength (format : ElementFormat) (v : BitVec 128) : Run Nat := do
  let all ← elements format v
  let used ← slice all 0 format.count
  return used.findIdx (· == 0)

theorem take_elementsOf (format : ElementFormat) (v : BitVec 128) :
    (elementsOf format v).toList.take format.count =
      (List.range format.count).map (TrapEmulation.StringCompare.element format v) := by
  have hcount := count_le_sixteen format
  apply List.ext_getElem
  · rw [List.length_take, Vector.length_toList, List.length_map, List.length_range,
      Nat.min_eq_left hcount]
  · intro i hleft hright
    have hi : i < format.count := by rwa [List.length_map, List.length_range] at hright
    rw [List.getElem_take, Vector.getElem_toList, getElem_elementsOf format v hi, List.getElem_map,
      List.getElem_range]

theorem implicitLength_eq (format : ElementFormat) (v : BitVec 128) :
    implicitLength format v = pure (TrapEmulation.StringCompare.implicitLength format v) := by
  have hroom : 0 ≤ format.count ∧ format.count ≤ 16 := ⟨Nat.zero_le _, count_le_sixteen format⟩
  rw [implicitLength, elements_eq, pure_bind, slice, guarded_eq hroom, pure_bind, List.drop_zero,
    take_elementsOf, List.findIdx_map]
  rfl

end TrapEmulation.Checked.StringCompare

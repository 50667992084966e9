import TrapEmulation.Proofs.Checked.Matrix
import TrapEmulation.Proofs.Checked.Operand
import TrapEmulation.StringCompare.Execute

/-!
# Checked string comparison

Everything that a comparison shifts or indexes by is bounded by the number of elements: the columns whose
bits are set, the lengths that masks are made of, the positions that are given back, and the places that
elements of a mask are shifted to. The first operand comes straight from the vector registers, so its
number has to be one of theirs.
-/

namespace TrapEmulation.Checked.StringCompare

open TrapEmulation.StringCompare (Control ElementFormat Outcome Polarity explicitLength givesIndex
  isExplicit maskRegister ofBits getLsbD_ofBits)

/-! ## The control byte -/

/-- The choice that a field of two bits makes. -/
def choose {α : Type} (choice : Byte) (first second third fourth : α) : α :=
  if choice = 0 then first else if choice = 1 then second else if choice = 2 then third else fourth

def control (byte : Byte) : Run Control := do
  let aggregation ← field byte 2 3
  let polarity ← field byte 4 3
  return {
    format := choose (byte &&& 3) .unsignedBytes .unsignedWords .signedBytes .signedWords
    aggregation := choose aggregation .equalAny .ranges .equalEach .equalOrdered
    polarity := choose polarity .positive .negative .maskedPositive .maskedNegative
    msb := byte &&& 0x40 != 0 }

theorem control_fields : ∀ byte : Byte,
    { format := choose (byte &&& 3) .unsignedBytes .unsignedWords .signedBytes .signedWords
      aggregation := choose (byte >>> 2 &&& 3) .equalAny .ranges .equalEach .equalOrdered
      polarity := choose (byte >>> 4 &&& 3) .positive .negative .maskedPositive .maskedNegative
      msb := byte &&& 0x40 != 0 } = Control.ofByte byte := by
  decide

theorem control_eq (byte : Byte) : control byte = pure (Control.ofByte byte) := by
  rw [control, field_eq _ _ (by decide), pure_bind, field_eq _ _ (by decide), pure_bind,
    control_fields]

/-! ## Comparing -/

/-- The low `count` bits of a word of sixteen, by way of a wider one. -/
def lowWord (count : Nat) : Run (BitVec 16) := do
  let power ← shiftLeft (1 : BitVec 32) count
  let bits ← subWord power 1
  return bits.setWidth 16

def negate (polarity : Polarity) (count lb : Nat) (bits : BitVec 16) : Run (BitVec 16) :=
  match polarity with
  | .positive | .maskedPositive => return bits
  | .negative => do
    let negated ← lowWord count
    return bits ^^^ negated
  | .maskedNegative => do
    let negated ← lowWord lb
    return bits ^^^ negated

def compare (control : Control) (a b : BitVec 128) (la lb : Nat) : Run Outcome := do
  let count := control.format.count
  let x ← elements control.format a
  let y ← elements control.format b
  let built ← Cells.build control.aggregation count x y
  let forced ← built.forceInvalid control.aggregation (min la count) (min lb count)
  let bits ← forced.aggregate control.aggregation
  let result ← negate control.polarity count (min lb count) bits
  return { result, la := min la count, lb := min lb count, count }

theorem lowWord_eq {count : Nat} (h : count ≤ 16) : lowWord count = pure (lowMask 16 count) := by
  have hcount : count < 32 := Nat.lt_of_le_of_lt h (by decide)
  have hmask : (lowMask 32 count).setWidth 16 = lowMask 16 count := by
    apply BitVec.eq_of_getLsbD_eq
    intro i hi
    have hwide : i < 32 := Nat.lt_trans hi (by decide)
    rw [BitVec.getLsbD_setWidth, getLsbD_lowMask, getLsbD_lowMask, decide_eq_true hi,
      decide_eq_true hwide, Bool.true_and]
  rw [lowWord, shiftLeft_one hcount, pure_bind, subWord, guarded_eq (one_le_twoPow hcount), pure_bind,
    twoPow_sub_one hcount, hmask]

theorem negate_eq (polarity : Polarity) {count lb : Nat} (hcount : count ≤ 16) (hlb : lb ≤ 16)
    (bits : BitVec 16) : negate polarity count lb bits = pure (polarity.negate count lb bits) := by
  cases polarity with
  | positive => rfl
  | maskedPositive => rfl
  | negative => rw [negate, lowWord_eq hcount, pure_bind]; rfl
  | maskedNegative => rw [negate, lowWord_eq hlb, pure_bind]; rfl

theorem count_even (format : ElementFormat) : format.count % 2 = 0 := by
  cases format <;> rfl

theorem compare_eq (control : Control) (a b : BitVec 128) (la lb : Nat) :
    compare control a b la lb = pure (TrapEmulation.StringCompare.compare control a b la lb) := by
  have hsize := count_le_sixteen control.format
  have hlb : min lb control.format.count ≤ 16 := Nat.le_trans (Nat.min_le_right _ _) hsize
  have hbuilt := Cells.build_eq control.aggregation
    (fun i hi h ↦ getElem_elementsOf control.format a h hi)
    (fun j hj h ↦ getElem_elementsOf control.format b h hj)
  rw [compare, elements_eq, pure_bind, elements_eq, pure_bind, hbuilt, pure_bind,
    Cells.forceInvalid_eq hsize, pure_bind, Cells.aggregate_eq hsize (count_even control.format),
    pure_bind, negate_eq control.polarity hsize hlb, pure_bind]
  rfl

/-! ## Outputs -/

/-- The number of clear bits above the highest set one. -/
def leadingZeros (x : BitVec 16) : Nat := (List.range 16).reverse.findIdx fun i ↦ x.getLsbD i

/-- The number of clear bits below the lowest set one. -/
def trailingZeros (x : BitVec 16) : Nat := (List.range 16).findIdx fun i ↦ x.getLsbD i

def index (o : Outcome) (highest : Bool) : Run Nat :=
  if o.result = 0 then return o.count
  else if highest then sub 15 (leadingZeros o.result)
  else return trailingZeros o.result

/-- Widens the bit of one position to an element of the mask. -/
def maskStep (result : BitVec 16) (element : BitVec 128) (width : Nat) (out : BitVec 128) (j : Nat) :
    Run (BitVec 128) := do
  let one ← shiftLeft (1 : BitVec 16) j
  if result &&& one != 0 then
    let place ← mul j width
    let moved ← shiftLeft element place
    return out ||| moved
  else
    return out

def mask (o : Outcome) (expanded : Bool) : Run (BitVec 128) :=
  if expanded then do
    let width ← div 128 o.count
    let power ← shiftLeft (1 : BitVec 128) width
    let element ← subWord power 1
    (List.range o.count).foldlM (maskStep o.result element width) 0
  else
    return o.result.setWidth 128

def flags (o : Outcome) : Run FlagUpdate :=
  flagUpdate [.carry, .parity, .adjust, .zero, .sign, .overflow]
    [(.carry, o.result != 0), (.zero, o.lb < o.count), (.sign, o.la < o.count),
      (.overflow, o.result &&& 1 != 0)]

theorem index_eq_pure (o : Outcome) (highest : Bool) : index o highest = pure (o.index highest) := by
  unfold index
  split
  case isTrue hzero => rw [Outcome.index_of_result_eq_zero hzero]
  case isFalse hne =>
    obtain ⟨i, hi, hset⟩ := Outcome.exists_getLsbD hne
    cases highest with
    | false =>
      have hlt : trailingZeros o.result < 16 := List.findIdx_lt_length_of_exists ⟨i, hi, hset⟩
      have hfind : (List.range 16).find? (fun i ↦ o.result.getLsbD i) = some (trailingZeros o.result) := by
        rw [List.find?_eq_getElem?_findIdx]
        exact List.getElem?_range hlt
      rw [if_neg Bool.false_ne_true, Outcome.index, if_neg Bool.false_ne_true, hfind]
      rfl
    | true =>
      have hlt : leadingZeros o.result < 16 :=
        List.findIdx_lt_length_of_exists ⟨i, List.mem_reverse.mpr hi, hset⟩
      have hle : leadingZeros o.result ≤ 15 := Nat.le_of_lt_succ hlt
      have hfind : (List.range 16).reverse.find? (fun i ↦ o.result.getLsbD i) =
          some (15 - leadingZeros o.result) := by
        rw [List.find?_eq_getElem?_findIdx, List.getElem?_reverse hlt]
        exact List.getElem?_range (Nat.lt_succ_of_le (Nat.sub_le _ _))
      rw [if_pos rfl, sub, guarded_eq hle, Outcome.index, if_pos rfl, hfind]
      rfl

theorem and_twoPow_bne {w i : Nat} (h : i < w) (x : BitVec w) :
    (x &&& BitVec.twoPow w i != 0) = x.getLsbD i := by
  have hne : BitVec.twoPow w i ≠ 0 := by
    intro hzero
    have hbit := congrArg (fun y ↦ y.getLsbD i) hzero
    simp [h] at hbit
  rw [BitVec.and_twoPow]
  cases x.getLsbD i with
  | false => rw [if_neg Bool.false_ne_true, BitVec.ofNat_eq_ofNat, bne_self_eq_false]
  | true => rw [if_pos rfl, bne_iff_ne.mpr hne]

theorem getLsbD_moved (width place k : Nat) :
    (lowMask 128 width <<< place).getLsbD k =
      (decide (k < 128) && (decide (place ≤ k) && decide (k - place < width))) := by
  rw [BitVec.getLsbD_shiftLeft, getLsbD_lowMask]
  by_cases hk : k < 128
  · have hwithin : k - place < 128 := Nat.lt_of_le_of_lt (Nat.sub_le _ _) hk
    have hbelow : decide (place ≤ k) = !decide (k < place) := by
      rw [← decide_not, decide_eq_decide, Nat.not_lt]
    rw [decide_eq_true hk, decide_eq_true hwithin, hbelow, Bool.true_and, Bool.true_and, Bool.true_and]
  · rw [decide_eq_false hk, Bool.false_and, Bool.false_and, Bool.false_and]

/-- The elements up to a position are those before it and the one at it. -/
theorem below_succ {width : Nat} (hwidth : 0 < width) (j k : Nat) (p : Nat → Bool) :
    (decide (k < (j + 1) * width) && p (k / width)) =
      (decide (k < j * width) && p (k / width) ||
        p j && (decide (j * width ≤ k) && decide (k - j * width < width))) := by
  have hnext : (j + 1) * width = j * width + width := Nat.succ_mul j width
  by_cases hbefore : k < j * width
  · have hbelow : k < (j + 1) * width := by omega
    rw [decide_eq_true hbefore, decide_eq_true hbelow, decide_eq_false (Nat.not_le_of_lt hbefore),
      Bool.false_and, Bool.and_false, Bool.or_false]
  · have hfrom : j * width ≤ k := Nat.le_of_not_lt hbefore
    rw [decide_eq_false hbefore, decide_eq_true hfrom, Bool.false_and, Bool.false_or, Bool.true_and]
    by_cases hhere : k < (j + 1) * width
    · have hdiv : k / width = j := Nat.div_eq_of_lt_le hfrom hhere
      have hwithin : k - j * width < width := by omega
      rw [hdiv, decide_eq_true hhere, decide_eq_true hwithin, Bool.true_and, Bool.and_true]
    · have hpast : ¬ k - j * width < width := by omega
      rw [decide_eq_false hhere, decide_eq_false hpast, Bool.false_and, Bool.and_false]

/-- The elements of a mask before a position. -/
def maskBelow (result : BitVec 16) (width j : Nat) : BitVec 128 :=
  ofBits 128 fun k ↦ decide (k < j * width) && result.getLsbD (k / width)

theorem maskStep_eq (result : BitVec 16) {width count j : Nat} (hwidth : 0 < width)
    (hproduct : count * width = 128) (hcount : count ≤ 16) (hj : j < count) :
    maskStep result (lowMask 128 width) width (maskBelow result width j) j =
      pure (maskBelow result width (j + 1)) := by
  have hplace : j * width < 128 := by
    rw [← hproduct]
    exact Nat.mul_lt_mul_of_pos_right hj hwidth
  have hcounter : j * width < 2 ^ 32 := Nat.lt_trans hplace (by decide)
  have hbit : j < 16 := Nat.lt_of_lt_of_le hj hcount
  have hnext : maskBelow result width (j + 1) =
      if result.getLsbD j then maskBelow result width j ||| lowMask 128 width <<< (j * width)
      else maskBelow result width j := by
    apply BitVec.eq_of_getLsbD_eq
    intro k hk
    rw [maskBelow, getLsbD_ofBits, below_succ hwidth, decide_eq_true hk, Bool.true_and]
    cases result.getLsbD j with
    | false => rw [if_neg Bool.false_ne_true, maskBelow, getLsbD_ofBits, decide_eq_true hk,
        Bool.true_and, Bool.false_and, Bool.or_false]
    | true => rw [if_pos rfl, BitVec.getLsbD_or, maskBelow, getLsbD_ofBits, getLsbD_moved,
        decide_eq_true hk, Bool.true_and, Bool.true_and]
  rw [maskStep, shiftLeft_one hbit, pure_bind, and_twoPow_bne hbit, hnext]
  cases result.getLsbD j with
  | false => rfl
  | true => simp only [if_true, mul, guarded_eq hcounter, pure_bind, shiftLeft, guarded_eq hplace]

theorem mask_eq_pure {o : Outcome} (hcount : o.count = 8 ∨ o.count = 16) (expanded : Bool) :
    mask o expanded = pure (o.mask expanded) := by
  cases expanded with
  | false => rfl
  | true =>
    obtain ⟨hne, hwidth, hlt, hproduct, hle⟩ : o.count ≠ 0 ∧ 0 < 128 / o.count ∧ 128 / o.count < 128 ∧
        o.count * (128 / o.count) = 128 ∧ o.count ≤ 16 := by
      obtain h | h := hcount <;> rw [h] <;> decide
    have hfirst : maskBelow o.result (128 / o.count) 0 = 0 := by
      apply BitVec.eq_of_getLsbD_eq
      intro k _
      rw [maskBelow, getLsbD_ofBits, Nat.zero_mul, decide_eq_false (Nat.not_lt_zero k), Bool.false_and,
        Bool.and_false, BitVec.ofNat_eq_ofNat, BitVec.getLsbD_zero]
    have hlast : maskBelow o.result (128 / o.count) o.count = o.mask true := by
      apply BitVec.eq_of_getLsbD_eq
      intro k hk
      rw [maskBelow, getLsbD_ofBits, hproduct, decide_eq_true hk, Outcome.mask, if_pos rfl,
        getLsbD_ofBits, decide_eq_true hk, Bool.true_and]
    have hloop := foldlM_range (maskBelow o.result (128 / o.count))
      fun j (hj : j < o.count) ↦ maskStep_eq o.result hwidth hproduct hle hj
    rw [hfirst, hlast] at hloop
    rw [mask, if_pos rfl, div, guarded_eq hne, pure_bind, shiftLeft_one hlt, pure_bind, subWord,
      guarded_eq (one_le_twoPow hlt), pure_bind, twoPow_sub_one hlt]
    exact hloop

theorem flagUpdate_status (carry zero sign overflow : Bool) :
    flagUpdate [.carry, .parity, .adjust, .zero, .sign, .overflow]
      [(.carry, carry), (.zero, zero), (.sign, sign), (.overflow, overflow)] =
        pure (.ofList [(.carry, carry), (.zero, zero), (.sign, sign), (.overflow, overflow),
          (.adjust, false), (.parity, false)]) := by
  cases carry <;> cases zero <;> cases sign <;> cases overflow <;> rfl

theorem flags_eq_pure (o : Outcome) : flags o = pure o.flags := by
  have hone : (1 : BitVec 16) = BitVec.twoPow 16 0 := rfl
  rw [flags, flagUpdate_status, hone, and_twoPow_bne (by decide), Outcome.flags]

/-! ## Execution -/

def lengths (op : CompareOp) (format : ElementFormat) (i : Instruction) (regs : Registers)
    (a b : BitVec 128) : Run (Nat × Nat) :=
  if isExplicit op then do
    let first ← gpr regs Registers.rax
    let second ← gpr regs Registers.rdx
    return (explicitLength format first i.wide, explicitLength format second i.wide)
  else do
    let la ← implicitLength format a
    let lb ← implicitLength format b
    return (la, lb)

def output (op : CompareOp) (control : Control) (o : Outcome) : Run RegWrite :=
  if givesIndex op then do
    let position ← index o control.msb
    return .gpr Registers.rcx (BitVec.ofNat 64 position)
  else do
    let bits ← mask o control.msb
    return .xmm maskRegister bits

/-- What an operation does, given the values of both operands. -/
def effect (op : CompareOp) (control : Control) (i : Instruction) (regs : Registers)
    (a b : BitVec 128) : Run Effect := do
  let valid ← lengths op control.format i regs a b
  let o ← compare control a b valid.1 valid.2
  let flags ← flags o
  let written ← output op control o
  push ⟨[], some flags, i.length⟩ written

variable {σ : Type} [UserMemory σ]

/-- Executes an operation. The number of the first operand is not masked. -/
def execute (operation : Operation) (i : Instruction) (regs : Registers) (memory : σ) :
    Run (Except EmulationError Effect × σ) := do
  let control ← control (i.immediate.getD 0)
  let number ← regIndex i
  let a ← get regs.xmms number
  let operand ← rm i regs
  match ← read operand regs memory .w128 with
  | (.error fault, memory) => return (.error (.memory fault), memory)
  | (.ok b, memory) =>
    match operation with
    | .compare op => do
      let effect ← effect op control i regs a b
      return (.ok effect, memory)
    | .bit _ => return (.error .unsupported, memory)

theorem lengths_eq (op : CompareOp) (format : ElementFormat) (i : Instruction) (regs : Registers)
    (a b : BitVec 128) :
    lengths op format i regs a b =
      pure (TrapEmulation.StringCompare.lengths op format i regs a b) := by
  unfold lengths TrapEmulation.StringCompare.lengths
  split
  case isTrue => rw [gpr_eq_pure, pure_bind, gpr_eq_pure, pure_bind]
  case isFalse => rw [implicitLength_eq, pure_bind, implicitLength_eq, pure_bind]

theorem output_eq (op : CompareOp) (control : Control) {o : Outcome}
    (hcount : o.count = 8 ∨ o.count = 16) :
    output op control o = pure (TrapEmulation.StringCompare.output op control o) := by
  unfold output TrapEmulation.StringCompare.output
  split
  case isTrue => rw [index_eq_pure, pure_bind]
  case isFalse => rw [mask_eq_pure hcount, pure_bind]

theorem count_compare (control : Control) (a b : BitVec 128) (la lb : Nat) :
    (TrapEmulation.StringCompare.compare control a b la lb).count = 8 ∨
      (TrapEmulation.StringCompare.compare control a b la lb).count = 16 := by
  change control.format.count = 8 ∨ control.format.count = 16
  cases control.format with
  | unsignedBytes => exact .inr rfl
  | unsignedWords => exact .inl rfl
  | signedBytes => exact .inr rfl
  | signedWords => exact .inl rfl

/-- Every operation keeps to the rules, whatever its operands are and whether or not the instruction is one
that encodes it. -/
theorem effect_eq (op : CompareOp) (i : Instruction) (regs : Registers) (b : BitVec 128) :
    effect op (Control.ofByte (i.immediate.getD 0)) i regs (regs.xmm i.regIndex) b =
      pure (TrapEmulation.StringCompare.effect op i regs b) := by
  rw [effect, lengths_eq, pure_bind, compare_eq, pure_bind, flags_eq_pure, pure_bind,
    output_eq op _ (count_compare _ _ _ _ _), pure_bind, push_first]
  rfl

theorem execute_eq {i : Instruction} (h : FieldsFit i) (operation : Operation) (regs : Registers)
    (memory : σ) :
    execute operation i regs memory =
      pure (TrapEmulation.StringCompare.execute operation i regs memory) := by
  have hnumber : i.regIndex < 16 := regIndex_lt_sixteen h.modrm_fits
  have hfirst : get regs.xmms i.regIndex = pure (regs.xmm i.regIndex) := by
    rw [get_eq _ hnumber, Registers.xmm]
    simp only [Nat.mod_eq_of_lt hnumber]
  rw [execute, control_eq, pure_bind, h.regIndex_eq, pure_bind, hfirst, pure_bind, h.rm_eq, pure_bind,
    read_eq, pure_bind, TrapEmulation.StringCompare.execute]
  cases (i.rm regs).read regs memory .w128 with
  | mk answer after =>
    cases answer with
    | error fault => rfl
    | ok b =>
      cases operation with
      | bit op => rfl
      | compare op =>
        dsimp only
        rw [effect_eq op i regs b, pure_bind]

end TrapEmulation.Checked.StringCompare

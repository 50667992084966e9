import TrapEmulation.BitManip.Execute
import TrapEmulation.Proofs.BitManip.Gather
import TrapEmulation.Proofs.Checked.Operand

/-!
# Checked bit manipulation

Shift amounts come from operands here: a start, a length or a position of up to eight bits, a count,
and the two positions that gathering and scattering move along. Each is compared with the width, masked
by it, or counts no further than the bits of a mask, so no rule is broken at the widths in use.
-/

namespace TrapEmulation.Checked.BitManip

open TrapEmulation.BitManip (gather scatter placesBelow write)

variable {w : Nat}

/-! ## Flags of a result -/

/-- The flags that most operations affect. -/
def logicFlags : List Flag := [.zero, .sign, .carry, .overflow]

theorem flagUpdate_zero_sign (zero sign : Bool) :
    flagUpdate logicFlags [(.zero, zero), (.sign, sign)] =
      pure (.ofList [(.zero, zero), (.sign, sign), (.carry, false), (.overflow, false)]) := by
  cases zero <;> cases sign <;> rfl

theorem flagUpdate_sign_carry (sign carry : Bool) :
    flagUpdate logicFlags [(.sign, sign), (.carry, carry)] =
      pure (.ofList [(.zero, false), (.sign, sign), (.carry, carry), (.overflow, false)]) := by
  cases sign <;> cases carry <;> rfl

theorem flagUpdate_zero_sign_carry (zero sign carry : Bool) :
    flagUpdate logicFlags [(.zero, zero), (.sign, sign), (.carry, carry)] =
      pure (.ofList [(.zero, zero), (.sign, sign), (.carry, carry), (.overflow, false)]) := by
  cases zero <;> cases sign <;> cases carry <;> rfl

theorem flagUpdate_zero (zero : Bool) :
    flagUpdate [.zero, .carry, .overflow] [(.zero, zero)] =
      pure (.ofList [(.zero, zero), (.carry, false), (.overflow, false)]) := by
  cases zero <;> rfl

/-! ## Masks and bit ranges -/

def andn (a b : BitVec w) : Run (BitVec w × FlagUpdate) := do
  let r := ~~~a &&& b
  let top ← sign r
  let flags ← flagUpdate logicFlags [(.zero, r == 0), (.sign, top)]
  return (r, flags)

def blsr (x : BitVec w) : Run (BitVec w × FlagUpdate) := do
  let r := x &&& (x - 1)
  let top ← sign r
  let flags ← flagUpdate logicFlags [(.zero, r == 0), (.sign, top), (.carry, x == 0)]
  return (r, flags)

def blsmsk (x : BitVec w) : Run (BitVec w × FlagUpdate) := do
  let r := x ^^^ (x - 1)
  let top ← sign r
  let flags ← flagUpdate logicFlags [(.sign, top), (.carry, x == 0)]
  return (r, flags)

def blsi (x : BitVec w) : Run (BitVec w × FlagUpdate) := do
  let r := x &&& -x
  let top ← sign r
  let flags ← flagUpdate logicFlags [(.zero, r == 0), (.sign, top), (.carry, x != 0)]
  return (r, flags)

def bzhi (x index : BitVec w) : Run (BitVec w × FlagUpdate) := do
  let position := index.toNat % 256
  let kept ← lowBits w position
  let r := x &&& kept
  let top ← sign r
  let last ← sub w 1
  let flags ← flagUpdate logicFlags [(.zero, r == 0), (.sign, top), (.carry, last < position)]
  return (r, flags)

/-- The bits of a range, whose start may lie past the last bit. -/
def range (x : BitVec w) (start length : Nat) : Run (BitVec w) :=
  if w ≤ start then
    return 0
  else do
    let shifted ← shiftRight x start
    let kept ← lowBits w length
    return shifted &&& kept

def bextr (x control : BitVec w) : Run (BitVec w × FlagUpdate) := do
  let start := control.toNat % 256
  let upper ← shiftRight (control.setWidth 64) 8
  let r ← range x start (upper.toNat % 256)
  let flags ← flagUpdate [.zero, .carry, .overflow] [(.zero, r == 0)]
  return (r, flags)

theorem andn_eq (hw : 0 < w) (a b : BitVec w) :
    andn a b = pure (TrapEmulation.BitManip.andn a b) := by
  rw [andn, sign_eq _ hw, pure_bind, flagUpdate_zero_sign]
  rfl

theorem blsr_eq (hw : 0 < w) (x : BitVec w) : blsr x = pure (TrapEmulation.BitManip.blsr x) := by
  rw [blsr, sign_eq _ hw, pure_bind, flagUpdate_zero_sign_carry]
  rfl

theorem blsmsk_eq (hw : 0 < w) (x : BitVec w) :
    blsmsk x = pure (TrapEmulation.BitManip.blsmsk x) := by
  rw [blsmsk, sign_eq _ hw, pure_bind, flagUpdate_sign_carry]
  rfl

theorem blsi_eq (hw : 0 < w) (x : BitVec w) : blsi x = pure (TrapEmulation.BitManip.blsi x) := by
  rw [blsi, sign_eq _ hw, pure_bind, flagUpdate_zero_sign_carry]
  rfl

theorem bzhi_eq (hw : 0 < w) (x index : BitVec w) :
    bzhi x index = pure (TrapEmulation.BitManip.bzhi x index) := by
  have hone : 1 ≤ w := hw
  have hpast : w - 1 < index.toNat % 256 ↔ w ≤ index.toNat % 256 := by omega
  simp only [bzhi, lowBits_eq, sign_eq _ hw, sub, guarded_eq hone, pure_bind,
    flagUpdate_zero_sign_carry, decide_eq_decide.mpr hpast]
  rfl

theorem range_eq (x : BitVec w) (start length : Nat) :
    range x start length = pure (if w ≤ start then 0 else (x >>> start) &&& lowMask w length) := by
  unfold range
  split
  case isTrue => rfl
  case isFalse hstart =>
    rw [shiftRight, guarded_eq (Nat.lt_of_not_le hstart), pure_bind, lowBits_eq, pure_bind]

theorem bextr_eq (hw : w ≤ 64) (x control : BitVec w) :
    bextr x control = pure (TrapEmulation.BitManip.bextr x control) := by
  have hlength : (control.setWidth 64 >>> 8).toNat % 256 = control.toNat / 256 % 256 := by
    rw [BitVec.toNat_ushiftRight, BitVec.toNat_setWidth_of_le hw, Nat.shiftRight_eq_div_pow]
  rw [bextr, shiftRight, guarded_eq (by decide), pure_bind, hlength, range_eq, pure_bind,
    flagUpdate_zero]
  rfl

/-! ## Gathering and scattering -/

/-- One place of the mask: if it is selected, the bit there goes to the next low place. -/
def gatherStep (x mask : BitVec w) (state : BitVec w × Nat) (i : Nat) : Run (BitVec w × Nat) := do
  if ← bit mask i then
    let out ← if ← bit x i then (state.1 ||| ·) <$> shiftLeft 1 state.2 else pure state.1
    let next ← add state.2 1
    return (out, next)
  else
    return state

/-- One place of the mask: if it is selected, the next low bit goes there. -/
def scatterStep (x mask : BitVec w) (state : BitVec w × Nat) (i : Nat) : Run (BitVec w × Nat) := do
  if ← bit mask i then
    let out ← if ← bit x state.2 then (state.1 ||| ·) <$> shiftLeft 1 i else pure state.1
    let next ← add state.2 1
    return (out, next)
  else
    return state

def pext (x mask : BitVec w) : Run (BitVec w) := do
  let state ← (List.range w).foldlM (gatherStep x mask) (0, 0)
  return state.1

def pdep (x mask : BitVec w) : Run (BitVec w) := do
  let state ← (List.range w).foldlM (scatterStep x mask) (0, 0)
  return state.1

/-- The low places count up no further than the places of the mask that have been passed. -/
theorem length_placesBelow_le (mask : BitVec w) (bound : Nat) :
    (placesBelow mask bound).length ≤ bound := by
  rw [TrapEmulation.BitManip.length_placesBelow]
  exact TrapEmulation.BitManip.rank_le mask.toNat bound

theorem gatherStep_eq (hw : w < 2 ^ 32) (x mask : BitVec w) {i : Nat} (hi : i < w) :
    gatherStep x mask (gather x (placesBelow mask i) 0, (placesBelow mask i).length) i =
      pure (gather x (placesBelow mask (i + 1)) 0, (placesBelow mask (i + 1)).length) := by
  have hcount := length_placesBelow_le mask i
  have hnext : (placesBelow mask i).length + 1 < 2 ^ 32 := by omega
  rw [gatherStep, bit_eq mask hi, pure_bind, TrapEmulation.BitManip.placesBelow_succ]
  cases mask.getLsbD i with
  | false => rfl
  | true =>
    simp only [if_true, bit_eq x hi, pure_bind, shiftLeft_one (Nat.lt_of_le_of_lt hcount hi), map_pure,
      add, guarded_eq hnext, TrapEmulation.BitManip.gather_concat, Nat.zero_add, List.length_append,
      List.length_singleton]
    cases x.getLsbD i with
    | false => simp only [Bool.false_eq_true, if_false, BitVec.ofNat_eq_ofNat, BitVec.or_zero]
    | true => simp only [if_true]

theorem scatterStep_eq (hw : w < 2 ^ 32) (x mask : BitVec w) {i : Nat} (hi : i < w) :
    scatterStep x mask (scatter x (placesBelow mask i) 0, (placesBelow mask i).length) i =
      pure (scatter x (placesBelow mask (i + 1)) 0, (placesBelow mask (i + 1)).length) := by
  have hcount := length_placesBelow_le mask i
  have hplace : (placesBelow mask i).length < w := Nat.lt_of_le_of_lt hcount hi
  have hnext : (placesBelow mask i).length + 1 < 2 ^ 32 := by omega
  rw [scatterStep, bit_eq mask hi, pure_bind, TrapEmulation.BitManip.placesBelow_succ]
  cases mask.getLsbD i with
  | false => rfl
  | true =>
    simp only [if_true, bit_eq x hplace, pure_bind, shiftLeft_one hi, map_pure, add,
      guarded_eq hnext, TrapEmulation.BitManip.scatter_concat, Nat.zero_add, List.length_append,
      List.length_singleton]
    cases x.getLsbD (placesBelow mask i).length with
    | false => simp only [Bool.false_eq_true, if_false, BitVec.ofNat_eq_ofNat, BitVec.or_zero]
    | true => simp only [if_true]

theorem pext_eq (hw : w < 2 ^ 32) (x mask : BitVec w) :
    pext x mask = pure (TrapEmulation.BitManip.pext x mask) := by
  have hloop : (List.range w).foldlM (gatherStep x mask) (0, 0) =
      pure (TrapEmulation.BitManip.pext x mask, (placesBelow mask w).length) :=
    foldlM_range (fun i ↦ (gather x (placesBelow mask i) 0, (placesBelow mask i).length))
      fun i hi ↦ gatherStep_eq hw x mask hi
  rw [pext, hloop, pure_bind]

theorem pdep_eq (hw : w < 2 ^ 32) (x mask : BitVec w) :
    pdep x mask = pure (TrapEmulation.BitManip.pdep x mask) := by
  have hloop : (List.range w).foldlM (scatterStep x mask) (0, 0) =
      pure (TrapEmulation.BitManip.pdep x mask, (placesBelow mask w).length) :=
    foldlM_range (fun i ↦ (scatter x (placesBelow mask i) 0, (placesBelow mask i).length))
      fun i hi ↦ scatterStep_eq hw x mask hi
  rw [pdep, hloop, pure_bind]

/-! ## Shifts, rotation and multiplication -/

/-- The amount that a count stands for: its low bits, as many as there are places. -/
def amount (count : BitVec w) : Run Nat := do
  let last ← sub w 1
  return count.toNat % 2 ^ 32 &&& last

def shlx (x count : BitVec w) : Run (BitVec w) := do
  let n ← amount count
  shiftLeft x n

def shrx (x count : BitVec w) : Run (BitVec w) := do
  let n ← amount count
  shiftRight x n

def sarx (x count : BitVec w) : Run (BitVec w) := do
  let n ← amount count
  shiftRightSigned x n

def rorx (x : BitVec w) (count : Byte) : Run (BitVec w) := do
  let last ← sub w 1
  return x.rotateRight (count.toNat &&& last)

/-- The high and the low half of the product, which is computed at twice the width. -/
def mulx (a b : BitVec w) : Run (BitVec w × BitVec w) := do
  let product ← mulWord (a.setWidth (2 * w)) (b.setWidth (2 * w))
  let high ← shiftRight product w
  return (high.setWidth w, product.setWidth w)

/-- The two widths of a general operand. -/
def GeneralWidth (w : Nat) : Prop := w = 32 ∨ w = 64

theorem GeneralWidth.pos (hw : GeneralWidth w) : 0 < w := by
  obtain rfl | rfl := hw <;> decide

theorem GeneralWidth.le (hw : GeneralWidth w) : w ≤ 64 := by
  obtain rfl | rfl := hw <;> decide

/-- Both widths are powers of two, so masking by one less is a remainder. -/
theorem GeneralWidth.and_last (hw : GeneralWidth w) (n : Nat) : n &&& (w - 1) = n % w := by
  obtain rfl | rfl := hw
  · exact Nat.and_two_pow_sub_one_eq_mod n 5
  · exact Nat.and_two_pow_sub_one_eq_mod n 6

theorem GeneralWidth.dvd (hw : GeneralWidth w) : w ∣ 2 ^ 32 := by
  obtain rfl | rfl := hw <;> decide

theorem amount_eq (hw : GeneralWidth w) (count : BitVec w) : amount count = pure (count.toNat % w) := by
  have hone : 1 ≤ w := hw.pos
  rw [amount, sub, guarded_eq hone, pure_bind, hw.and_last, Nat.mod_mod_of_dvd _ hw.dvd]

theorem shlx_eq (hw : GeneralWidth w) (x count : BitVec w) :
    shlx x count = pure (TrapEmulation.BitManip.shlx x count) := by
  rw [shlx, amount_eq hw, pure_bind, shiftLeft, guarded_eq (Nat.mod_lt _ hw.pos),
    TrapEmulation.BitManip.shlx]

theorem shrx_eq (hw : GeneralWidth w) (x count : BitVec w) :
    shrx x count = pure (TrapEmulation.BitManip.shrx x count) := by
  rw [shrx, amount_eq hw, pure_bind, shiftRight, guarded_eq (Nat.mod_lt _ hw.pos),
    TrapEmulation.BitManip.shrx]

theorem sarx_eq (hw : GeneralWidth w) (x count : BitVec w) :
    sarx x count = pure (TrapEmulation.BitManip.sarx x count) := by
  rw [sarx, amount_eq hw, pure_bind, shiftRightSigned, guarded_eq (Nat.mod_lt _ hw.pos),
    TrapEmulation.BitManip.sarx]

theorem rorx_eq (hw : GeneralWidth w) (x : BitVec w) (count : Byte) :
    rorx x count = pure (TrapEmulation.BitManip.rorx x count) := by
  have hone : 1 ≤ w := hw.pos
  rw [rorx, sub, guarded_eq hone, pure_bind, hw.and_last, TrapEmulation.BitManip.rorx]

theorem mulx_eq (hw : 0 < w) (a b : BitVec w) :
    mulx a b = pure (TrapEmulation.BitManip.mulx a b) := by
  have hle : w ≤ 2 * w := Nat.le_mul_of_pos_left w Nat.two_pos
  have hproduct : a.toNat * b.toNat < 2 ^ (2 * w) := by
    rw [Nat.two_mul, Nat.pow_add]
    exact Nat.mul_lt_mul'' a.isLt b.isLt
  have hkept : (a.setWidth (2 * w)).toNat * (b.setWidth (2 * w)).toNat < 2 ^ (2 * w) := by
    rwa [BitVec.toNat_setWidth_of_le hle, BitVec.toNat_setWidth_of_le hle]
  have hvalue : (a.setWidth (2 * w) * b.setWidth (2 * w)).toNat = a.toNat * b.toNat := by
    rw [BitVec.toNat_mul, Nat.mod_eq_of_lt hkept, BitVec.toNat_setWidth_of_le hle,
      BitVec.toNat_setWidth_of_le hle]
  have hshift : w < 2 * w := by omega
  rw [mulx, mulWord, guarded_eq hkept, pure_bind, shiftRight, guarded_eq hshift, pure_bind]
  refine congrArg pure (Prod.ext ?_ ?_) <;> apply BitVec.eq_of_toNat_eq
  · rw [BitVec.toNat_setWidth, BitVec.toNat_ushiftRight, hvalue]
    rfl
  · rw [BitVec.toNat_setWidth, hvalue]
    rfl

/-! ## Effects -/

/-- One result, and the flags that go with it. -/
def result (i : Instruction) (index : Nat) (outcome : Run (BitVec w × FlagUpdate)) : Run Effect := do
  let value ← outcome
  let effect ← push ⟨[], none, i.length⟩ (write index value.1)
  return { effect with flags := some value.2 }

/-- One result and no flags. -/
def quietResult (i : Instruction) (index : Nat) (outcome : Run (BitVec w)) : Run Effect := do
  let value ← outcome
  push ⟨[], none, i.length⟩ (write index value)

/-- Two results, the low half first. -/
def productResult (i : Instruction) (index : Nat) (outcome : Run (BitVec w × BitVec w)) :
    Run Effect := do
  let halves ← outcome
  let effect ← push ⟨[], none, i.length⟩ (write i.vvvv.toNat halves.2)
  push effect (write index halves.1)

/-- What an operation does, given the r/m operand, the extra operand and the number of the register that
the reg field names. -/
def effect (op : BitOp) (i : Instruction) (regs : Registers) (rm extra : BitVec w) (reg : Nat) :
    Run Effect :=
  match op with
  | .rorx => quietResult i reg (rorx rm (i.immediate.getD 0))
  | .andn => result i reg (andn extra rm)
  | .blsr => result i i.vvvv.toNat (blsr rm)
  | .blsmsk => result i i.vvvv.toNat (blsmsk rm)
  | .blsi => result i i.vvvv.toNat (blsi rm)
  | .bzhi => result i reg (bzhi rm extra)
  | .pext => quietResult i reg (pext extra rm)
  | .pdep => quietResult i reg (pdep extra rm)
  | .mulx => do
    let factor ← gpr regs Registers.rdx
    productResult i reg (mulx (factor.setWidth w) rm)
  | .bextr => result i reg (bextr rm extra)
  | .shlx => quietResult i reg (shlx rm extra)
  | .sarx => quietResult i reg (sarx rm extra)
  | .shrx => quietResult i reg (shrx rm extra)

theorem result_eq {i : Instruction} {index : Nat} {outcome : Run (BitVec w × FlagUpdate)}
    {value : BitVec w × FlagUpdate} (h : outcome = pure value) :
    result i index outcome = pure (TrapEmulation.BitManip.result i index value) := by
  rw [result, h, pure_bind, push_first, pure_bind]
  rfl

theorem quietResult_eq {i : Instruction} {index : Nat} {outcome : Run (BitVec w)} {value : BitVec w}
    (h : outcome = pure value) :
    quietResult i index outcome = pure (TrapEmulation.BitManip.quietResult i index value) := by
  rw [quietResult, h, pure_bind, push_first]
  rfl

theorem productResult_eq {i : Instruction} {outcome : Run (BitVec w × BitVec w)} {high low : BitVec w}
    (h : outcome = pure (high, low)) :
    productResult i i.regIndex outcome =
      pure (TrapEmulation.BitManip.productResult i high low) := by
  rw [productResult, h, pure_bind, push_first, pure_bind, push_second]
  rfl

/-- Every operation keeps to the rules, whatever its operands are and whether or not the instruction is one
that encodes it. -/
theorem effect_eq (hw : GeneralWidth w) (op : BitOp) (i : Instruction) (regs : Registers)
    (rm : BitVec w) :
    effect op i regs rm ((regs.gpr i.vvvv.toNat).setWidth w) i.regIndex =
      pure (TrapEmulation.BitManip.effect op i regs rm) := by
  have hsmall : w < 2 ^ 32 := Nat.lt_of_le_of_lt hw.le (by decide)
  cases op with
  | rorx => exact quietResult_eq (rorx_eq hw _ _)
  | andn => exact result_eq (andn_eq hw.pos _ _)
  | blsr => exact result_eq (blsr_eq hw.pos _)
  | blsmsk => exact result_eq (blsmsk_eq hw.pos _)
  | blsi => exact result_eq (blsi_eq hw.pos _)
  | bzhi => exact result_eq (bzhi_eq hw.pos _ _)
  | pext => exact quietResult_eq (pext_eq hsmall _ _)
  | pdep => exact quietResult_eq (pdep_eq hsmall _ _)
  | mulx =>
    rw [effect, gpr_eq_pure, pure_bind]
    exact productResult_eq (mulx_eq hw.pos _ _)
  | bextr => exact result_eq (bextr_eq hw.le _ _)
  | shlx => exact quietResult_eq (shlx_eq hw _ _)
  | sarx => exact quietResult_eq (sarx_eq hw _ _)
  | shrx => exact quietResult_eq (shrx_eq hw _ _)

/-! ## Execution -/

variable {σ : Type} [UserMemory σ]

def execute (operation : Operation) (i : Instruction) (regs : Registers) (memory : σ) :
    Run (Except EmulationError Effect × σ) := do
  let operand ← rm i regs
  match ← read operand regs memory i.gprWidth with
  | (.error fault, memory) => return (.error (.memory fault), memory)
  | (.ok value, memory) => do
    let extra ← gpr regs i.vvvv.toNat
    let reg ← regIndex i
    match operation with
    | .bit op => do
      let effect ← effect op i regs value (extra.setWidth _) reg
      return (.ok effect, memory)
    | .compare _ => return (.error .unsupported, memory)

theorem generalWidth_bits (i : Instruction) : GeneralWidth i.gprWidth.bits := by
  unfold Instruction.gprWidth
  split
  · exact .inr rfl
  · exact .inl rfl

theorem execute_eq {i : Instruction} (h : FieldsFit i) (operation : Operation) (regs : Registers)
    (memory : σ) :
    execute operation i regs memory =
      pure (TrapEmulation.BitManip.execute operation i regs memory) := by
  rw [execute, h.rm_eq, pure_bind, read_eq, pure_bind, TrapEmulation.BitManip.execute]
  cases (i.rm regs).read regs memory i.gprWidth with
  | mk answer after =>
    cases answer with
    | error fault => rfl
    | ok value =>
      simp only [gpr_eq_pure, h.regIndex_eq, pure_bind]
      cases operation with
      | bit op => simp only [effect_eq (generalWidth_bits i), pure_bind]
      | compare op => rfl

end TrapEmulation.Checked.BitManip

import TrapEmulation.Proofs.StringCompare.Outputs
import TrapEmulation.StringCompare.Execute

/-!
# Effects of the string-compare engine

Committing the effect of a comparison makes exactly the changes that the reference lists: a position
in the count register or a mask in the first vector register, and six flags.
-/

namespace TrapEmulation.StringCompare

open Changes Reference

/-! ## Execution -/

variable {σ : Type} [UserMemory σ]

/-- Executing a comparison is reading its second operand and computing the effect. -/
theorem execute_fst (op : CompareOp) (i : Instruction) (regs : Registers)
    (memory : σ) :
    (execute (.compare op) i regs memory).1 =
      (((i.rm regs).read regs memory .w128).1.mapError .memory).map (effect op i regs) := by
  rw [execute]
  cases (i.rm regs).read regs memory .w128 with
  | mk answer after =>
    cases answer with
    | error fault => rfl
    | ok b => rfl

theorem exists_eq_effect {op : CompareOp} {i : Instruction} {regs : Registers} {memory : σ}
    {found : Effect} (hexecute : (execute (.compare op) i regs memory).1 = .ok found) :
    ∃ b : BitVec 128, found = effect op i regs b := by
  rw [execute_fst] at hexecute
  cases hread : ((i.rm regs).read regs memory .w128).1 with
  | error fault =>
    rw [hread] at hexecute
    cases hexecute
  | ok b =>
    rw [hread] at hexecute
    cases hexecute
    exact ⟨b, rfl⟩

/-! ## The strings of an instruction -/

/-- The control byte of an instruction. -/
def controlByte (i : Instruction) : Byte := i.immediate.getD 0

theorem toNat_controlByte (i : Instruction) : (controlByte i).toNat = controlOf i := by
  unfold controlByte controlOf
  cases i.immediate <;> rfl

theorem wide_eq (i : Instruction) : i.wide = (i.mode == .bits64 && i.extension.w) := rfl

/-- The engine takes the lengths of the strings that the reference compares. -/
theorem lengths_eq (op : CompareOp) (i : Instruction) (regs : Registers) (b : BitVec 128) :
    lengths op (Control.ofByte (controlByte i)).format i regs (regs.xmm i.regIndex) b =
      ((stringsOf op i regs b.toNat).la, (stringsOf op i regs b.toNat).lb) := by
  have hterminated (operand : BitVec 128) :
      implicitLength (Control.ofByte (controlByte i)).format operand =
        terminatedLength (controlOf i) operand.toNat := by
    rw [implicitLength_eq, toNat_controlByte]
  have hregister (raw : BitVec 64) :
      explicitLength (Control.ofByte (controlByte i)).format raw i.wide =
        registerLength (controlOf i) (i.mode == .bits64 && i.extension.w) raw.toNat := by
    rw [explicitLength_eq, toNat_controlByte, wide_eq]
  unfold lengths
  rw [hterminated, hterminated, hregister, hregister]
  cases op <;> rfl

theorem lengths_le (op : CompareOp) (format : ElementFormat) (i : Instruction) (regs : Registers)
    (a b : BitVec 128) :
    (lengths op format i regs a b).1 ≤ format.count ∧
      (lengths op format i regs a b).2 ≤ format.count := by
  unfold lengths
  split
  · exact ⟨explicitLength_le _ _ _, explicitLength_le _ _ _⟩
  · exact ⟨implicitLength_le _ _, implicitLength_le _ _⟩

/-- Neither string is longer than an operand. -/
theorem stringsOf_le (op : CompareOp) (i : Instruction) (regs : Registers) (b : BitVec 128) :
    (stringsOf op i regs b.toNat).la ≤ elementCount (controlByte i).toNat ∧
      (stringsOf op i regs b.toNat).lb ≤ elementCount (controlByte i).toNat := by
  have hle := lengths_le op (Control.ofByte (controlByte i)).format i regs (regs.xmm i.regIndex) b
  rwa [lengths_eq, count_ofByte] at hle

/-! ## The outcome -/

/-- The outcome of comparing the operands of an instruction. -/
def outcomeOf (op : CompareOp) (i : Instruction) (regs : Registers) (b : BitVec 128) : Outcome :=
  compare (Control.ofByte (controlByte i)) (regs.xmm i.regIndex) b
    (stringsOf op i regs b.toNat).la (stringsOf op i regs b.toNat).lb

theorem count_outcomeOf (op : CompareOp) (i : Instruction) (regs : Registers) (b : BitVec 128) :
    (outcomeOf op i regs b).count = elementCount (controlOf i) := by
  rw [← toNat_controlByte, ← count_ofByte]
  rfl

theorem getLsbD_outcomeOf (op : CompareOp) (i : Instruction) (regs : Registers) (b : BitVec 128)
    (j : Nat) :
    (outcomeOf op i regs b).result.getLsbD j =
      (decide (j < (outcomeOf op i regs b).count) &&
        resultAt (controlOf i) (stringsOf op i regs b.toNat) j) := by
  obtain ⟨hla, hlb⟩ := stringsOf_le op i regs b
  rw [count_outcomeOf, ← toNat_controlByte, outcomeOf, getLsbD_result _ _ _ hla hlb,
    toNat_controlByte]
  cases op <;> rfl

theorem flags_outcomeOf (op : CompareOp) (i : Instruction) (regs : Registers) (b : BitVec 128) :
    ∃ flags : List (Flag × Bool), (outcomeOf op i regs b).flags = .ofList flags ∧ flags ≠ [] ∧
      (flags.map Prod.fst).Nodup ∧
      positions flags = compareFlags (controlOf i) (stringsOf op i regs b.toNat) := by
  let o := outcomeOf op i regs b
  let s := stringsOf op i regs b.toNat
  have hlengths := stringsOf_le op i regs b
  rw [← count_ofByte] at hlengths
  have hla : o.la = s.la := Nat.min_eq_left hlengths.1
  have hlb : o.lb = s.lb := Nat.min_eq_left hlengths.2
  have hcount : o.count = elementCount (controlOf i) := count_outcomeOf op i regs b
  have hcarry : (o.result != 0) =
      (List.range (elementCount (controlOf i))).any (resultAt (controlOf i) s) := by
    rw [bne_zero_eq (getLsbD_outcomeOf op i regs b), hcount]
  have hoverflow : o.result.getLsbD 0 = resultAt (controlOf i) s 0 := by
    have hpos : 0 < elementCount (controlOf i) := by
      unfold elementCount
      split
      · decide
      · decide
    have hbit := getLsbD_outcomeOf op i regs b 0
    rwa [count_outcomeOf, decide_eq_true hpos, Bool.true_and] at hbit
  refine ⟨[(.carry, o.result != 0), (.zero, decide (o.lb < o.count)),
    (.sign, decide (o.la < o.count)), (.overflow, o.result.getLsbD 0), (.adjust, false),
    (.parity, false)], rfl, List.cons_ne_nil _ _, by simp, ?_⟩
  rw [hcarry, hlb, hla, hcount, hoverflow]
  rfl

/-! ## Operations -/

theorem effect_eq (op : CompareOp) (i : Instruction) (regs : Registers) (b : BitVec 128) :
    effect op i regs b =
      ⟨[output op (Control.ofByte (controlByte i)) (outcomeOf op i regs b)],
        some (outcomeOf op i regs b).flags, i.length⟩ := by
  have hlengths := lengths_eq op i regs b
  unfold controlByte at hlengths
  simp only [effect, hlengths]
  rfl

theorem position_le (highest : Bool) (count : Nat) (set : Nat → Bool) :
    position highest count set ≤ count := by
  have hmem (place : Nat) (h : place ∈ if highest then (List.range count).reverse
      else List.range count) : place < count := by
    cases highest with
    | false => exact List.mem_range.mp h
    | true => exact List.mem_range.mp (List.mem_reverse.mp h)
  change ((if highest then (List.range count).reverse else List.range count).find? set).getD count ≤
    count
  cases hfind : (if highest then (List.range count).reverse else List.range count).find? set with
  | none => exact Nat.le_refl count
  | some place => exact Nat.le_of_lt (hmem place (List.mem_of_find?_eq_some hfind))

/-- The position that an outcome gives, as it stands in the count register. -/
theorem toNat_index (op : CompareOp) (i : Instruction) (regs : Registers) (b : BitVec 128) :
    (BitVec.ofNat 64 ((outcomeOf op i regs b).index (Control.ofByte (controlByte i)).msb)).toNat =
      position (controlOf i / 64 % 2 == 1) (elementCount (controlOf i))
        (resultAt (controlOf i) (stringsOf op i regs b.toNat)) := by
  have hcount := count_outcomeOf op i regs b
  have hle := elementCount_le (controlOf i)
  have hindex := index_eq (by rw [hcount]; exact hle) (getLsbD_outcomeOf op i regs b)
    (Control.ofByte (controlByte i)).msb
  have hposition := position_le (controlOf i / 64 % 2 == 1) (elementCount (controlOf i))
    (resultAt (controlOf i) (stringsOf op i regs b.toNat))
  rw [hindex, hcount, msb_ofByte, toNat_controlByte, BitVec.toNat_ofNat]
  apply Nat.mod_eq_of_lt
  omega

/-- The mask that an outcome gives. -/
theorem toNat_mask (op : CompareOp) (i : Instruction) (regs : Registers) (b : BitVec 128) :
    ((outcomeOf op i regs b).mask (Control.ofByte (controlByte i)).msb).toNat =
      spread (if controlOf i / 64 % 2 == 1 then elementBits (controlOf i) else 1)
        (elementCount (controlOf i))
        (resultAt (controlOf i) (stringsOf op i regs b.toNat)) := by
  have hcount := count_outcomeOf op i regs b
  have hresult := getLsbD_outcomeOf op i regs b
  rw [msb_ofByte, toNat_controlByte]
  cases htop : controlOf i / 64 % 2 == 1 with
  | false => rw [toNat_mask_plain hresult, hcount, if_neg Bool.false_ne_true]
  | true =>
    have hpos : 0 < elementBits (controlOf i) := by
      unfold elementBits
      split
      · decide
      · decide
    have hsize : elementBits (controlOf i) * (outcomeOf op i regs b).count = 128 := by
      rw [← toNat_controlByte, ← bits_ofByte, Nat.mul_comm]
      exact ElementFormat.count_mul_bits _
    rw [toNat_mask_expanded hpos hsize hresult, hcount, if_pos rfl]

/-- The count register and the first vector register are among the sixteen. -/
theorem inRange_output (op : CompareOp) (control : Control) (o : Outcome) :
    InRange (output op control o) := by
  have hcount : 1 < 16 := by decide
  have hmask : 0 < 16 := by decide
  cases op with
  | pcmpestrm => exact hmask
  | pcmpestri => exact hcount
  | pcmpistrm => exact hmask
  | pcmpistri => exact hcount

/-- Committing the effect of a comparison makes the changes that the reference lists. -/
theorem commit_effect (op : CompareOp) (i : Instruction) (regs : Registers) (b : BitVec 128) :
    (effect op i regs b).commit regs =
      (compareChanges op (controlOf i) (stringsOf op i regs b.toNat)).apply i.length regs := by
  let writes := [output op (Control.ofByte (controlByte i)) (outcomeOf op i regs b)]
  obtain ⟨flags, hflags, hne, hnodup, hpositions⟩ := flags_outcomeOf op i regs b
  have hupdate : some (outcomeOf op i regs b).flags = flagUpdate? flags := by
    rw [hflags, flagUpdate?, if_neg hne]
  have hrange : ∀ written ∈ writes, InRange written :=
    List.forall_mem_singleton.mpr (inRange_output op _ _)
  have hchanges : ofWrites writes flags =
      compareChanges op (controlOf i) (stringsOf op i regs b.toNat) := by
    simp only [compareChanges]
    rw [← hpositions, ← toNat_index, ← toNat_mask]
    cases op <;> rfl
  calc
    (effect op i regs b).commit regs =
        (Effect.mk writes (flagUpdate? flags) i.length).commit regs := by
      rw [effect_eq, hupdate]
    _ = (ofWrites writes flags).apply i.length regs := commit_eq_apply hrange hnodup i.length regs
    _ = (compareChanges op (controlOf i) (stringsOf op i regs b.toNat)).apply i.length regs := by
      rw [hchanges]

end TrapEmulation.StringCompare

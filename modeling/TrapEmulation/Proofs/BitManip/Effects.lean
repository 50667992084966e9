import TrapEmulation.BitManip.Execute
import TrapEmulation.Proofs.BitManip.Arithmetic
import TrapEmulation.Proofs.BitManip.Reports

/-!
# Effects of the bit-manipulation engine

Committing the effect of an operation makes exactly the changes that arithmetic gives.  The
operations come in three shapes: one result with flags, one result without, and a product.
-/

namespace TrapEmulation.BitManip

open Changes Reference

variable {w : Nat}

/-! ## The width -/

theorem bits_gprWidth (i : Instruction) : i.gprWidth.bits = width i := by
  unfold Instruction.gprWidth Instruction.wide width
  cases i.mode <;> cases i.extension.w <;> rfl

theorem width_pos (i : Instruction) : 0 < width i := by
  unfold width
  cases i.mode <;> cases i.extension.w <;> decide

theorem width_le (i : Instruction) : width i ≤ 64 := by
  unfold width
  cases i.mode <;> cases i.extension.w <;> decide

/-! ## Execution -/

variable {σ : Type} [UserMemory σ]

/-- Executing an operation is reading its r/m operand and computing the effect. -/
theorem execute_fst (op : BitOp) (i : Instruction) (regs : Registers) (memory : σ) :
    (execute (.bit op) i regs memory).1 =
      (((i.rm regs).read regs memory i.gprWidth).1.mapError .memory).map (effect op i regs) := by
  rw [execute]
  cases (i.rm regs).read regs memory i.gprWidth with
  | mk answer after =>
    cases answer with
    | error fault => rfl
    | ok rm => rfl

theorem exists_eq_effect {op : BitOp} {i : Instruction} {regs : Registers} {memory : σ}
    {found : Effect} (hexecute : (execute (.bit op) i regs memory).1 = .ok found) :
    ∃ rm : BitVec i.gprWidth.bits, found = effect op i regs rm := by
  rw [execute_fst] at hexecute
  cases hread : ((i.rm regs).read regs memory i.gprWidth).1 with
  | error fault =>
    rw [hread] at hexecute
    cases hexecute
  | ok rm =>
    rw [hread] at hexecute
    cases hexecute
    exact ⟨rm, rfl⟩

theorem length_effect (op : BitOp) (i : Instruction) (regs : Registers) (rm : BitVec w) :
    (effect op i regs rm).length = i.length := by
  cases op <;> rfl

/-! ## Shapes of effects -/

theorem toNat_zeroExtend (hw : w ≤ 64) (value : BitVec w) :
    (value.setWidth 64).toNat = value.toNat :=
  BitVec.toNat_setWidth_of_le hw

/-- One result that is written with flags. -/
theorem commit_result (hw : w ≤ 64) (i : Instruction) {index : Nat} (hindex : index < 16)
    (value : BitVec w) {flags : List (Flag × Bool)} (hne : flags ≠ [])
    (hnodup : (flags.map Prod.fst).Nodup) (regs : Registers) :
    (result i index (value, .ofList flags)).commit regs =
      Changes.apply { gprs := [(index, value.toNat)], flags := positions flags } i.length regs := by
  have hupdate : flagUpdate? flags = some (FlagUpdate.ofList flags) := by
    rw [flagUpdate?, if_neg hne]
  have hrange : ∀ written ∈ [write index value], InRange written :=
    List.forall_mem_singleton.mpr hindex
  calc
    (result i index (value, .ofList flags)).commit regs =
        (Effect.mk [write index value] (flagUpdate? flags) i.length).commit regs := by
      rw [hupdate]
      rfl
    _ = (ofWrites [write index value] flags).apply i.length regs :=
      commit_eq_apply hrange hnodup i.length regs
    _ = Changes.apply { gprs := [(index, value.toNat)], flags := positions flags } i.length regs := by
      rw [← toNat_zeroExtend hw value]
      rfl

/-- One result that is written without flags. -/
theorem commit_quietResult (hw : w ≤ 64) (i : Instruction) {index : Nat} (hindex : index < 16)
    (value : BitVec w) (regs : Registers) :
    (quietResult i index value).commit regs =
      Changes.apply { gprs := [(index, value.toNat)] } i.length regs := by
  have hrange : ∀ written ∈ [write index value], InRange written :=
    List.forall_mem_singleton.mpr hindex
  have hnodup : (([] : List (Flag × Bool)).map Prod.fst).Nodup := List.nodup_nil
  calc
    (quietResult i index value).commit regs =
        (Effect.mk [write index value] (flagUpdate? []) i.length).commit regs := rfl
    _ = (ofWrites [write index value] []).apply i.length regs :=
      commit_eq_apply hrange hnodup i.length regs
    _ = Changes.apply { gprs := [(index, value.toNat)] } i.length regs := by
      rw [← toNat_zeroExtend hw value]
      rfl

/-- Both halves of a product. -/
theorem commit_productResult (hw : w ≤ 64) {i : Instruction} (hindex : i.regIndex < 16)
    (high low : BitVec w) (regs : Registers) :
    (productResult i high low).commit regs =
      Changes.apply { gprs := [(i.regIndex, high.toNat), (i.vvvv.toNat, low.toNat)] } i.length
        regs := by
  have hrange : ∀ written ∈ [write i.vvvv.toNat low, write i.regIndex high], InRange written := by
    intro written hwritten
    rcases List.mem_pair.mp hwritten with rfl | rfl
    · exact i.vvvv.isLt
    · exact hindex
  have hnodup : (([] : List (Flag × Bool)).map Prod.fst).Nodup := List.nodup_nil
  calc
    (productResult i high low).commit regs =
        (Effect.mk [write i.vvvv.toNat low, write i.regIndex high] (flagUpdate? [])
          i.length).commit regs := rfl
    _ = (ofWrites [write i.vvvv.toNat low, write i.regIndex high] []).apply i.length regs :=
      commit_eq_apply hrange hnodup i.length regs
    _ = Changes.apply { gprs := [(i.regIndex, high.toNat), (i.vvvv.toNat, low.toNat)] } i.length
        regs := by
      rw [← toNat_zeroExtend hw high, ← toNat_zeroExtend hw low]
      rfl

/-! ## Flags -/

/-- A result with the flags that report on it. -/
theorem commit_reporting (hw : w ≤ 64) (i : Instruction) {index : Nat} (hindex : index < 16)
    (value : BitVec w) (carry : Bool) (regs : Registers) :
    (result i index (value, logicFlags value carry)).commit regs =
      Changes.apply
        { gprs := [(index, value.toNat)], flags := resultFlags w value.toNat carry } i.length
        regs := by
  rw [logicFlags, commit_result hw i hindex value (List.cons_ne_nil _ _) (by simp),
    positions_logicFlags]

/-! ## Operations -/

/-- Committing the effect of an operation makes the changes that arithmetic gives. -/
theorem commit_effect (op : BitOp) {i : Instruction} (hindex : i.regIndex < 16) (regs : Registers)
    (hwidth : w = width i) (rm : BitVec w) :
    (effect op i regs rm).commit regs =
      (bitChanges op (bitOperands i regs rm.toNat)).apply i.length regs := by
  subst hwidth
  have hw := width_le i
  have hvvvv : i.vvvv.toNat < 16 := i.vvvv.isLt
  let v := (regs.gpr i.vvvv.toNat).setWidth (width i)
  let data := (regs.gpr Registers.rdx).setWidth (width i)
  have hextra : v.toNat = (bitOperands i regs rm.toNat).extra := BitVec.toNat_setWidth _ _
  have hdata : data.toNat = (bitOperands i regs rm.toNat).data := BitVec.toNat_setWidth _ _
  have himmediate : (i.immediate.getD 0).toNat = (bitOperands i regs rm.toNat).immediate := by
    change _ = (i.immediate.map BitVec.toNat).getD 0
    cases i.immediate <;> rfl
  cases op with
  | rorx =>
    change (quietResult i i.regIndex (rorx rm (i.immediate.getD 0))).commit regs = _
    rw [commit_quietResult hw i hindex, toNat_rorx (width_pos i), himmediate]
    rfl
  | andn =>
    change (result i i.regIndex ((andn v rm).1, logicFlags (andn v rm).1 false)).commit regs = _
    rw [commit_reporting hw i hindex, toNat_andn, hextra]
    rfl
  | blsr =>
    change (result i i.vvvv.toNat ((blsr rm).1, logicFlags (blsr rm).1 (rm == 0))).commit regs = _
    rw [commit_reporting hw i hvvvv, toNat_blsr_eq, beq_zero_eq]
    rfl
  | blsmsk =>
    change (result i i.vvvv.toNat ((blsmsk rm).1, .ofList [(.zero, false),
      (.sign, (blsmsk rm).1.msb), (.carry, rm == 0), (.overflow, false)])).commit regs = _
    rw [commit_result hw i hvvvv _ (List.cons_ne_nil _ _) (by simp), msb_eq_topBit,
      toNat_blsmsk_eq, beq_zero_eq]
    rfl
  | blsi =>
    change (result i i.vvvv.toNat ((blsi rm).1, logicFlags (blsi rm).1 (rm != 0))).commit regs = _
    rw [commit_reporting hw i hvvvv, toNat_blsi_eq, bne, beq_zero_eq]
    rfl
  | bzhi =>
    change (result i i.regIndex ((bzhi rm v).1, logicFlags (bzhi rm v).1
      (decide (width i ≤ v.toNat % 256)))).commit regs = _
    rw [commit_reporting hw i hindex, toNat_bzhi, hextra]
    rfl
  | pext =>
    change (quietResult i i.regIndex (pext v rm)).commit regs = _
    rw [commit_quietResult hw i hindex, toNat_pext, hextra]
    rfl
  | pdep =>
    change (quietResult i i.regIndex (pdep v rm)).commit regs = _
    rw [commit_quietResult hw i hindex, toNat_pdep, hextra]
    rfl
  | mulx =>
    change (productResult i (mulx data rm).1 (mulx data rm).2).commit regs = _
    rw [commit_productResult hw hindex, toNat_mulx_fst, toNat_mulx_snd, hdata]
    rfl
  | bextr =>
    change (result i i.regIndex ((bextr rm v).1, .ofList [(.zero, (bextr rm v).1 == 0),
      (.carry, false), (.overflow, false)])).commit regs = _
    rw [commit_result hw i hindex _ (List.cons_ne_nil _ _) (by simp), beq_zero_eq, toNat_bextr,
      hextra]
    rfl
  | shlx =>
    change (quietResult i i.regIndex (shlx rm v)).commit regs = _
    rw [commit_quietResult hw i hindex, toNat_shlx, hextra]
    rfl
  | sarx =>
    change (quietResult i i.regIndex (sarx rm v)).commit regs = _
    rw [commit_quietResult hw i hindex, toNat_sarx, hextra]
    rfl
  | shrx =>
    change (quietResult i i.regIndex (shrx rm v)).commit regs = _
    rw [commit_quietResult hw i hindex, toNat_shrx, hextra]
    rfl

end TrapEmulation.BitManip

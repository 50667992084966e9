import TrapEmulation.Memory.Window
import TrapEmulation.Proofs.StringCompare.Effects

/-!
# Data past the ends of the strings

The matrix of comparisons is built from all elements of both operands, but no entry that involves an
element past a valid length is left in it.  So two runs whose operands agree in their valid elements
have the same effect, whatever stands behind those.
-/

namespace TrapEmulation.StringCompare

/-! ## Matrices -/

/-- Entries past the lengths are replaced, so only comparisons of valid elements matter.  The elements
may be read in different formats, as long as there are equally many. -/
theorem matrix_congr (control : Control) {format : ElementFormat} {a a' b b' : BitVec 128} {la lb : Nat}
    (hcount : format.count = control.format.count)
    (hrelates : ∀ i < la, ∀ j < lb,
      control.aggregation.relates i (element format a' i) (element format b' j) =
        control.aggregation.relates i (element control.format a i) (element control.format b j)) :
    matrix { control with format } a' b' la lb = matrix control a b la lb := by
  have hcells : (matrix { control with format } a' b' la lb).cell = (matrix control a b la lb).cell := by
    funext i j
    change (if i < la ∧ j < lb then control.aggregation.relates i _ _ else _) =
      if i < la ∧ j < lb then control.aggregation.relates i _ _ else _
    by_cases hvalid : i < la ∧ j < lb
    · rw [if_pos hvalid, if_pos hvalid, hrelates i hvalid.1 j hvalid.2]
    · rw [if_neg hvalid, if_neg hvalid]
  exact congrArg₂ ComparisonMatrix.mk hcount hcells

theorem compare_congr (control : Control) {format : ElementFormat} {a a' b b' : BitVec 128} {la lb : Nat}
    (hcount : format.count = control.format.count)
    (hrelates : ∀ i < min la control.format.count, ∀ j < min lb control.format.count,
      control.aggregation.relates i (element format a' i) (element format b' j) =
        control.aggregation.relates i (element control.format a i) (element control.format b j)) :
    compare { control with format } a' b' la lb = compare control a b la lb := by
  have hmatrix := matrix_congr control hcount hrelates
  unfold compare
  simp only [hcount, hmatrix]

/-! ## Strings of known lengths -/

/-- The operands agree in their first `n` elements. -/
def AgreeBelow (format : ElementFormat) (n : Nat) (v v' : BitVec 128) : Prop :=
  ∀ i < n, element format v' i = element format v i

theorem compare_of_agreeBelow (control : Control) {a a' b b' : BitVec 128} {la lb : Nat}
    (ha : AgreeBelow control.format la a a') (hb : AgreeBelow control.format lb b b') :
    compare control a' b' la lb = compare control a b la lb := by
  refine compare_congr control rfl fun i hi j hj ↦ ?_
  rw [ha i (Nat.lt_of_lt_of_le hi (Nat.min_le_left _ _)),
    hb j (Nat.lt_of_lt_of_le hj (Nat.min_le_left _ _))]

/-! ## Terminated strings -/

/-- The operands agree in every element up to the first zero, that one included, or in all elements if
none is zero. -/
def AgreeThroughTerminator (format : ElementFormat) (v v' : BitVec 128) : Prop :=
  ∀ i < format.count, (∀ k < i, element format v k ≠ 0) → element format v' i = element format v i

theorem element_ne_zero_of_lt {format : ElementFormat} {v : BitVec 128} {k : Nat}
    (hk : k < implicitLength format v) : element format v k ≠ 0 := by
  have hfalse := List.not_of_lt_findIdx hk
  rw [List.getElem_range] at hfalse
  exact beq_eq_false_iff_ne.mp hfalse

theorem element_implicitLength {format : ElementFormat} {v : BitVec 128}
    (h : implicitLength format v < format.count) : element format v (implicitLength format v) = 0 := by
  have hlt : implicitLength format v < (List.range format.count).length := by
    rwa [List.length_range]
  have hset := ((List.findIdx_eq hlt).mp rfl).1
  rw [List.getElem_range] at hset
  exact eq_of_beq hset

/-- The length is the only place before which nothing is zero and at which there is a zero or the end. -/
theorem implicitLength_eq_of {format : ElementFormat} {v : BitVec 128} {n : Nat} (hn : n ≤ format.count)
    (hbelow : ∀ k < n, element format v k ≠ 0) (hend : n < format.count → element format v n = 0) :
    implicitLength format v = n := by
  have hle := implicitLength_le format v
  rcases Nat.lt_trichotomy (implicitLength format v) n with hlt | heq | hgt
  · exact absurd (element_implicitLength (Nat.lt_of_lt_of_le hlt hn)) (hbelow _ hlt)
  · exact heq
  · exact absurd (hend (Nat.lt_of_lt_of_le hgt hle)) (element_ne_zero_of_lt hgt)

namespace AgreeThroughTerminator

variable {format : ElementFormat} {v v' : BitVec 128}

theorem agreeBelow (h : AgreeThroughTerminator format v v') :
    AgreeBelow format (implicitLength format v) v v' :=
  fun i hi ↦ h i (Nat.lt_of_lt_of_le hi (implicitLength_le format v))
    fun _ hk ↦ element_ne_zero_of_lt (Nat.lt_trans hk hi)

theorem implicitLength_eq (h : AgreeThroughTerminator format v v') :
    implicitLength format v' = implicitLength format v := by
  refine implicitLength_eq_of (implicitLength_le format v) (fun k hk ↦ ?_) fun hend ↦ ?_
  · rw [h.agreeBelow k hk]
    exact element_ne_zero_of_lt hk
  · rw [h _ hend fun _ hk ↦ element_ne_zero_of_lt hk]
    exact element_implicitLength hend

end AgreeThroughTerminator

/-! ## Runs -/

/-- The format in which an instruction reads its operands. -/
def formatOf (i : Instruction) : ElementFormat := (Control.ofByte (controlByte i)).format

/-- The operands of two runs hold the same strings: they agree up to their terminators, or in as many
elements as the length registers say. -/
def SameStrings (op : CompareOp) (i : Instruction) (regs : Registers) (a a' b b' : BitVec 128) : Prop :=
  if isExplicit op then
    AgreeBelow (formatOf i) (explicitLength (formatOf i) (regs.gpr Registers.rax) i.wide) a a' ∧
      AgreeBelow (formatOf i) (explicitLength (formatOf i) (regs.gpr Registers.rdx) i.wide) b b'
  else
    AgreeThroughTerminator (formatOf i) a a' ∧ AgreeThroughTerminator (formatOf i) b b'

/-- Two reads gave the same fault, or values that are related. -/
inductive ReadAlike (related : BitVec 128 → BitVec 128 → Prop) :
    Except MemoryFault (BitVec 128) → Except MemoryFault (BitVec 128) → Prop
  | fault (fault : MemoryFault) : ReadAlike related (.error fault) (.error fault)
  | value {b b' : BitVec 128} (h : related b b') : ReadAlike related (.ok b) (.ok b')

section

variable {op : CompareOp} {i : Instruction} {regs regs' : Registers} {a a' b b' : BitVec 128}

theorem SameStrings.lengths_eq (hgprs : regs'.gprs = regs.gprs)
    (h : SameStrings op i regs a a' b b') :
    lengths op (formatOf i) i regs' a' b' = lengths op (formatOf i) i regs a b := by
  have hgpr (index : Nat) : regs'.gpr index = regs.gpr index := by
    unfold Registers.gpr
    rw [hgprs]
  unfold lengths
  rw [hgpr, hgpr]
  revert h
  unfold SameStrings
  cases isExplicit op with
  | true => exact fun _ ↦ rfl
  | false => exact fun h ↦ congrArg₂ Prod.mk h.1.implicitLength_eq h.2.implicitLength_eq

theorem SameStrings.agreeBelow (h : SameStrings op i regs a a' b b') :
    AgreeBelow (formatOf i) (lengths op (formatOf i) i regs a b).1 a a' ∧
      AgreeBelow (formatOf i) (lengths op (formatOf i) i regs a b).2 b b' := by
  revert h
  unfold SameStrings lengths
  cases isExplicit op with
  | true => exact id
  | false => exact fun h ↦ ⟨h.1.agreeBelow, h.2.agreeBelow⟩

/-- The effect that an instruction with a given outcome has. -/
def outcomeEffect (op : CompareOp) (i : Instruction) (o : Outcome) : Effect :=
  ⟨[output op (Control.ofByte (controlByte i)) o], some o.flags, i.length⟩

theorem effect_eq_outcomeEffect (op : CompareOp) (i : Instruction) (regs : Registers) (b : BitVec 128) :
    let valid := lengths op (formatOf i) i regs (regs.xmm i.regIndex) b
    effect op i regs b =
      outcomeEffect op i
        (compare (Control.ofByte (controlByte i)) (regs.xmm i.regIndex) b valid.1 valid.2) := rfl

/-- Apart from the strings, the effect comes from the general registers. -/
theorem effect_of_sameStrings (hgprs : regs'.gprs = regs.gprs)
    (h : SameStrings op i regs (regs.xmm i.regIndex) (regs'.xmm i.regIndex) b b') :
    effect op i regs' b' = effect op i regs b := by
  rw [effect_eq_outcomeEffect, effect_eq_outcomeEffect, h.lengths_eq hgprs,
    compare_of_agreeBelow _ h.agreeBelow.1 h.agreeBelow.2]

theorem ReadAlike.map_effect {answer answer' : Except MemoryFault (BitVec 128)}
    (hgprs : regs'.gprs = regs.gprs)
    (h : ReadAlike (SameStrings op i regs (regs.xmm i.regIndex) (regs'.xmm i.regIndex)) answer answer') :
    (answer'.mapError EmulationError.memory).map (effect op i regs') =
      (answer.mapError EmulationError.memory).map (effect op i regs) := by
  cases h with
  | fault fault => simp only [Except.mapError, Except.map]
  | value hsame => exact congrArg Except.ok (effect_of_sameStrings hgprs hsame)

end

/-- Two runs of a comparison whose operands hold the same strings give the same result, whatever their
operands hold besides and wherever the second one is read from. -/
theorem execute_of_sameStrings {σ τ : Type} [UserMemory σ] [UserMemory τ] {op : CompareOp}
    {i : Instruction} {regs regs' : Registers} {memory : σ} {memory' : τ}
    (hgprs : regs'.gprs = regs.gprs)
    (hread : ReadAlike (SameStrings op i regs (regs.xmm i.regIndex) (regs'.xmm i.regIndex))
      ((i.rm regs).read regs memory .w128).1 ((i.rm regs').read regs' memory' .w128).1) :
    (execute (.compare op) i regs' memory').1 = (execute (.compare op) i regs memory).1 := by
  rw [execute_fst, execute_fst]
  exact hread.map_effect hgprs

/-- A search for elements in ranges whose bounds are in the first operand. -/
def rangeSearch : Instruction where
  mode := .bits64
  vex := none
  extension := {}
  vvvv := 0
  mandatory := .p66
  map := .map0F3A
  opcode := 0x61
  modrm := ⟨0, 1, 6⟩
  sib := none
  displacement := none
  immediate := some 0x04
  segment := none
  addressSizeOverride := false
  family := .stringCompare
  length := 6

/-- Three bounds and minus five elements, with the given vector. -/
def rangeRegisters (bounds : BitVec 128) : Registers :=
  { (Registers.initial .bits64).setXmm 1 bounds with
    gprs := #v[3, 0, 0xFFFFFFFB, 0, 0, 0, 0x1000, 0, 0, 0, 0, 0, 0, 0, 0, 0] }

/-- The word "Hello" stands before the given bytes. -/
def helloMemory (rest : Array Byte) : Window where
  base := 0x1000
  cells := #[0x48, 0x65, 0x6C, 0x6C, 0x6F] ++ rest

/-- The bounds "a", "z" and "A" make up one range, even if "Z" stands behind them. -/
theorem execute_oddRange :
    let found : Effect := ⟨[.gpr 1 1], some ⟨0x8D5, 0xC1⟩, 6⟩
    (execute (.compare .pcmpestri) rangeSearch (rangeRegisters 0x417A61)
        (helloMemory (.replicate 11 0))).1 = .ok found ∧
      (execute (.compare .pcmpestri) rangeSearch (rangeRegisters 0x5A5A417A61)
        (helloMemory (.replicate 11 0x6D))).1 = .ok found := by
  intro found
  have hclean : (execute (.compare .pcmpestri) rangeSearch (rangeRegisters 0x417A61)
      (helloMemory (.replicate 11 0))).1 = .ok found := by
    rfl
  have hsame : SameStrings .pcmpestri rangeSearch (rangeRegisters 0x417A61) 0x417A61 0x5A5A417A61
      0x6F6C6C6548 0x6D6D6D6D6D6D6D6D6D6D6D6F6C6C6548 := by
    constructor
    · unfold AgreeBelow
      decide
    · unfold AgreeBelow
      decide
  refine ⟨hclean, ?_⟩
  rw [← hclean]
  exact execute_of_sameStrings rfl (.value hsame)

end TrapEmulation.StringCompare

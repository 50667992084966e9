import TrapEmulation.OpcodeTable

/-!
# Looking up an operation

No two rows of the opcode table cover the same instruction, so the order of the rows does not matter:
an instruction that a row covers has the operation of that row.
-/

namespace TrapEmulation

/-- Two rows agree wherever both say something. -/
def OpcodeRow.Overlaps (row other : OpcodeRow) : Prop :=
  row.map = other.map ∧ row.opcode = other.opcode ∧ row.mandatory = other.mandatory ∧
    (row.reg = none ∨ other.reg = none ∨ row.reg = other.reg)

instance (row other : OpcodeRow) : Decidable (row.Overlaps other) :=
  inferInstanceAs (Decidable (_ ∧ _))

theorem eq_of_overlaps : ∀ row ∈ opcodeTable, ∀ other ∈ opcodeTable, row.Overlaps other →
    row = other := by
  decide

/-- What covering an instruction says about it. -/
theorem OpcodeRow.covers_iff (row : OpcodeRow) (i : Instruction) :
    row.covers i ↔
      row.map = i.map ∧ row.opcode = i.opcode ∧ row.mandatory = i.mandatory ∧
        (∀ reg ∈ row.reg, reg = i.modrm.reg) ∧ (row.vexOnly → i.isVex) ∧
        (i.isVex → row.vvvvUnused → i.vvvv = 0) := by
  have hreg : row.reg.all (· == i.modrm.reg) = true ↔ ∀ reg ∈ row.reg, reg = i.modrm.reg := by
    cases row.reg <;> simp
  unfold OpcodeRow.covers
  rw [Bool.and_eq_true, Bool.and_eq_true, Bool.and_eq_true, Bool.and_eq_true, Bool.and_eq_true,
    beq_iff_eq, beq_iff_eq, beq_iff_eq, hreg]
  cases i.isVex <;> cases row.vexOnly <;> cases row.vvvvUnused <;> simp [and_assoc]

theorem overlaps_of_covers {row other : OpcodeRow} {i : Instruction} (hrow : row.covers i)
    (hother : other.covers i) : row.Overlaps other := by
  obtain ⟨hmap, hopcode, hmandatory, hreg, -⟩ := (row.covers_iff i).mp hrow
  obtain ⟨hmap', hopcode', hmandatory', hreg', -⟩ := (other.covers_iff i).mp hother
  refine ⟨hmap.trans hmap'.symm, hopcode.trans hopcode'.symm, hmandatory.trans hmandatory'.symm, ?_⟩
  cases hfirst : row.reg with
  | none => exact .inl rfl
  | some reg =>
    cases hsecond : other.reg with
    | none => exact .inr (.inl rfl)
    | some reg' =>
      have hsame : reg = reg' := (hreg reg hfirst).trans (hreg' reg' hsecond).symm
      rw [hsame]
      exact .inr (.inr rfl)

/-- No row of the table overlaps one behind it. -/
theorem pairwise_not_overlaps : opcodeTable.Pairwise fun row other ↦ ¬ row.Overlaps other := by
  have hnodup : opcodeTable.Nodup := by decide
  refine hnodup.imp_of_mem fun hrow hother hne hoverlaps ↦ ?_
  exact hne (eq_of_overlaps _ hrow _ hother hoverlaps)

/-- One row of the table at most covers an instruction. -/
theorem length_filter_covers_le_one (i : Instruction) :
    (opcodeTable.filter fun row ↦ row.covers i).length ≤ 1 := by
  have hpairwise := pairwise_not_overlaps.filter fun row ↦ row.covers i
  cases hfilter : opcodeTable.filter fun row ↦ row.covers i with
  | nil => exact Nat.zero_le 1
  | cons row rest =>
    cases rest with
    | nil => exact Nat.le_refl 1
    | cons other rest =>
      have hcovers (entry : OpcodeRow) (hmem : entry ∈ row :: other :: rest) : entry.covers i = true := by
        rw [← hfilter] at hmem
        exact (List.mem_filter.mp hmem).2
      rw [hfilter] at hpairwise
      refine absurd (overlaps_of_covers (hcovers row ?_) (hcovers other ?_))
        (List.rel_of_pairwise_cons hpairwise ?_)
      · exact List.mem_cons_self
      · exact List.mem_cons_of_mem row List.mem_cons_self
      · exact List.mem_cons_self

/-- The rows may stand in any order. -/
theorem find?_covers_of_perm {table : List OpcodeRow} (h : table.Perm opcodeTable) (i : Instruction) :
    (table.find? fun row ↦ row.covers i) = opcodeTable.find? fun row ↦ row.covers i := by
  have hperm := h.filter fun row ↦ row.covers i
  have hle := length_filter_covers_le_one i
  rw [← List.head?_filter, ← List.head?_filter]
  cases hfilter : opcodeTable.filter fun row ↦ row.covers i with
  | nil =>
    rw [hfilter] at hperm
    rw [hperm.eq_nil]
  | cons row rest =>
    rw [hfilter] at hperm hle
    obtain rfl : rest = [] := List.eq_nil_of_length_eq_zero (by rw [List.length_cons] at hle; omega)
    rw [hperm.eq_singleton]

/-- An instruction that a row of the table covers has the operation of that row. -/
theorem operation?_of_covers {row : OpcodeRow} (hrow : row ∈ opcodeTable) {i : Instruction}
    (hcovers : row.covers i) : i.operation? = some row.operation := by
  unfold Instruction.operation?
  cases hfind : opcodeTable.find? fun row ↦ row.covers i with
  | none =>
    have hnone := List.find?_eq_none.mp hfind row hrow
    exact absurd hcovers hnone
  | some found =>
    have hfound : found ∈ opcodeTable := List.mem_of_find?_eq_some hfind
    have hcovers' := List.find?_some hfind
    have hsame : found = row :=
      eq_of_overlaps found hfound row hrow (overlaps_of_covers hcovers' hcovers)
    rw [hsame]
    rfl

/-- No two rows have the same operation. -/
theorem eq_of_operation_eq : ∀ row ∈ opcodeTable, ∀ other ∈ opcodeTable,
    row.operation = other.operation → row = other := by
  decide

/-- An operation that is found belongs to a row that covers the instruction. -/
theorem exists_row_of_operation? {i : Instruction} {operation : Operation}
    (h : i.operation? = some operation) :
    ∃ row ∈ opcodeTable, row.covers i ∧ row.operation = operation := by
  obtain ⟨row, hfind, hoperation⟩ := Option.map_eq_some_iff.mp h
  have hcovers := List.find?_some hfind
  exact ⟨row, List.mem_of_find?_eq_some hfind, hcovers, hoperation⟩

/-- A row covers exactly the instructions that have its operation. -/
theorem operation?_eq_some_iff {row : OpcodeRow} (hrow : row ∈ opcodeTable) {i : Instruction} :
    i.operation? = some row.operation ↔ row.covers i := by
  constructor
  · intro hoperation
    obtain ⟨found, hfound, hcovers, hsame⟩ := exists_row_of_operation? hoperation
    rwa [eq_of_operation_eq found hfound row hrow hsame] at hcovers
  · exact operation?_of_covers hrow

end TrapEmulation

import TrapEmulation.Proofs.StringCompare.ValidData

/-!
# Lengths from registers and from terminators

A length register counts by its absolute value, and no further than the operand reaches.  Where it
announces the length at which the operand is terminated, the instruction that reads the register does
what the one that looks for the terminator does.
-/

namespace TrapEmulation.StringCompare

/-! ## Length registers -/

/-- The number of bits of a length register that count. -/
def lengthBits (wide : Bool) : Nat := if wide then 64 else 32

/-- The signed number in a length register. -/
def lengthNumber (wide : Bool) (raw : BitVec 64) : Int := (raw.setWidth (lengthBits wide)).toInt

theorem explicitLength_eq_min (format : ElementFormat) (raw : BitVec 64) (wide : Bool) :
    explicitLength format raw wide = min (lengthNumber wide raw).natAbs format.count := by
  cases wide with
  | false => rfl
  | true =>
    change min raw.toInt.natAbs _ = min (raw.setWidth 64).toInt.natAbs _
    rw [BitVec.setWidth_eq]

theorem explicitLength_congr {format : ElementFormat} {raw other : BitVec 64} {wide : Bool}
    (h : (lengthNumber wide other).natAbs = (lengthNumber wide raw).natAbs) :
    explicitLength format other wide = explicitLength format raw wide := by
  rw [explicitLength_eq_min, explicitLength_eq_min, h]

/-- The most negative number is its own negation, so negating never changes the absolute value. -/
theorem natAbs_toInt_neg {w : Nat} (x : BitVec w) : (-x).toInt.natAbs = x.toInt.natAbs := by
  rw [BitVec.toInt_neg_eq_ite]
  split
  · rfl
  · exact Int.natAbs_neg _

theorem explicitLength_eq_count {format : ElementFormat} {raw : BitVec 64} {wide : Bool}
    (h : format.count ≤ (lengthNumber wide raw).natAbs) :
    explicitLength format raw wide = format.count := by
  rw [explicitLength_eq_min, Nat.min_eq_right h]

/-- The most negative number of either width is longer than any operand. -/
theorem count_le_natAbs_intMin (format : ElementFormat) (wide : Bool) :
    format.count ≤ (BitVec.intMin (lengthBits wide)).toInt.natAbs := by
  cases format <;> cases wide <;> decide

/-! ## Announced lengths -/

/-- The register announces the length of a terminated operand.  If there is no terminator, any number
that is large enough will do. -/
def Announces (format : ElementFormat) (wide : Bool) (raw : BitVec 64) (operand : BitVec 128) : Prop :=
  (lengthNumber wide raw).natAbs = implicitLength format operand ∨
    implicitLength format operand = format.count ∧ format.count ≤ (lengthNumber wide raw).natAbs

theorem announces_iff {format : ElementFormat} {wide : Bool} {raw : BitVec 64} {operand : BitVec 128} :
    Announces format wide raw operand ↔
      explicitLength format raw wide = implicitLength format operand := by
  have hle := implicitLength_le format operand
  rw [explicitLength_eq_min, Announces]
  omega

section

variable {i : Instruction} {regs : Registers} {explicit implicit : CompareOp}

theorem effect_of_announces (hexplicit : isExplicit explicit = true)
    (himplicit : isExplicit implicit = false) (hindex : givesIndex explicit = givesIndex implicit)
    {b : BitVec 128}
    (ha : Announces (formatOf i) i.wide (regs.gpr Registers.rax) (regs.xmm i.regIndex))
    (hb : Announces (formatOf i) i.wide (regs.gpr Registers.rdx) b) :
    effect explicit i regs b = effect implicit i regs b := by
  have hlengths : lengths explicit (formatOf i) i regs (regs.xmm i.regIndex) b =
      lengths implicit (formatOf i) i regs (regs.xmm i.regIndex) b := by
    unfold lengths
    rw [hexplicit, himplicit, if_pos rfl, if_neg Bool.false_ne_true, announces_iff.mp ha,
      announces_iff.mp hb]
  rw [effect_eq_outcomeEffect, effect_eq_outcomeEffect, hlengths, outcomeEffect, outcomeEffect, output,
    output, hindex]

theorem execute_of_announces {σ : Type} [UserMemory σ] {memory : σ}
    (hexplicit : isExplicit explicit = true) (himplicit : isExplicit implicit = false)
    (hindex : givesIndex explicit = givesIndex implicit)
    (ha : Announces (formatOf i) i.wide (regs.gpr Registers.rax) (regs.xmm i.regIndex))
    (hb : ∀ b, ((i.rm regs).read regs memory .w128).1 = .ok b →
      Announces (formatOf i) i.wide (regs.gpr Registers.rdx) b) :
    execute (.compare explicit) i regs memory = execute (.compare implicit) i regs memory := by
  unfold execute
  cases hread : (i.rm regs).read regs memory .w128 with
  | mk answer after =>
    cases answer with
    | error fault => rfl
    | ok b =>
      have heffect := effect_of_announces hexplicit himplicit hindex ha (hb b (congrArg Prod.fst hread))
      simp only [heffect]

end

/-! ## The forms together -/

/-- Where both registers announce the lengths of terminated operands, an explicit form gives the result or
the memory fault of the implicit one.  The length that a register tells is bounded by the number of elements
and reached by every number that large, the most negative one included; it depends neither on the sign nor,
in the narrow case, on the upper half. -/
theorem explicit_forms_agree {σ : Type} [UserMemory σ] :
    (∀ (i : Instruction) (regs : Registers) (memory : σ),
      Announces (formatOf i) i.wide (regs.gpr Registers.rax) (regs.xmm i.regIndex) →
      (∀ b, ((i.rm regs).read regs memory .w128).1 = .ok b →
        Announces (formatOf i) i.wide (regs.gpr Registers.rdx) b) →
      execute (.compare .pcmpestri) i regs memory = execute (.compare .pcmpistri) i regs memory ∧
        execute (.compare .pcmpestrm) i regs memory = execute (.compare .pcmpistrm) i regs memory) ∧
    ∀ (format : ElementFormat) (wide : Bool) (raw : BitVec 64),
      explicitLength format raw wide ≤ format.count ∧
      (∀ negated : BitVec 64,
        negated.setWidth (lengthBits wide) = -raw.setWidth (lengthBits wide) →
          explicitLength format negated wide = explicitLength format raw wide) ∧
      (format.count ≤ (lengthNumber wide raw).natAbs →
        explicitLength format raw wide = format.count) ∧
      (raw.setWidth (lengthBits wide) = BitVec.intMin (lengthBits wide) →
        explicitLength format raw wide = format.count) ∧
      ∀ other : BitVec 64, other.setWidth 32 = raw.setWidth 32 →
        explicitLength format other false = explicitLength format raw false := by
  constructor
  · intro i regs memory ha hb
    exact ⟨execute_of_announces rfl rfl rfl ha hb, execute_of_announces rfl rfl rfl ha hb⟩
  · intro format wide raw
    refine ⟨explicitLength_le format raw wide, fun negated hnegated ↦ ?_, explicitLength_eq_count,
      fun hmin ↦ ?_, fun other hother ↦ ?_⟩
    · apply explicitLength_congr
      rw [lengthNumber, lengthNumber, hnegated, natAbs_toInt_neg]
    · apply explicitLength_eq_count
      rw [lengthNumber, hmin]
      exact count_le_natAbs_intMin format wide
    · apply explicitLength_congr
      exact congrArg (fun low : BitVec 32 ↦ low.toInt.natAbs) hother

/-- A search in the second vector for the string in the first one. -/
def vectorSearch : Instruction := { rangeSearch with modrm := ⟨3, 1, 2⟩, immediate := some 0x0C }

/-- The string "lo" is announced by minus two under a full upper half, and the unterminated string that is
searched by the most negative number. -/
def vectorSearchRegisters : Registers :=
  { Registers.initial .bits64 with
    gprs := #v[0xABCDEF01FFFFFFFE, 0, 0x80000000, 0, 0, 0, 0, 0, 0, 0, 0, 0, 0, 0, 0, 0]
    xmms := #v[0, 0x6F6C, 0x79616B6F20646C726F77206F6C6C6568, 0, 0, 0, 0, 0, 0, 0, 0, 0, 0, 0, 0, 0] }

theorem explicit_forms_agree_unterminated :
    execute (.compare .pcmpestri) vectorSearch vectorSearchRegisters (⟨0, #[]⟩ : Window) =
        (.ok ⟨[.gpr 1 3], some ⟨0x8D5, 0x81⟩, 6⟩, ⟨0, #[]⟩) ∧
      explicitLength .unsignedBytes 0xFFFFFFFD false = explicitLength .unsignedBytes 3 false ∧
      explicitLength .unsignedWords 0xFFFFFF9C false = 8 ∧
      explicitLength .signedWords 0x8000000000000000 true = 8 ∧
      explicitLength .unsignedWords 0x100000002 false = explicitLength .unsignedWords 2 false := by
  obtain ⟨hforms, hlengths⟩ := @explicit_forms_agree Window _
  have ha : Announces .unsignedBytes false 0xABCDEF01FFFFFFFE 0x6F6C := .inl (by decide)
  have hb : Announces .unsignedBytes false 0x80000000 0x79616B6F20646C726F77206F6C6C6568 :=
    .inr (by decide)
  have hequal := (hforms vectorSearch vectorSearchRegisters ⟨0, #[]⟩ ha (by rintro b ⟨⟩; exact hb)).1
  refine ⟨hequal.trans rfl, ?_, ?_, ?_, ?_⟩
  · exact (hlengths .unsignedBytes false 3).2.1 0xFFFFFFFD (by decide)
  · exact (hlengths .unsignedWords false 0xFFFFFF9C).2.2.1 (by decide)
  · exact (hlengths .signedWords true 0x8000000000000000).2.2.2.1 (by decide)
  · exact (hlengths .unsignedWords false 2).2.2.2.2 0x100000002 (by decide)

end TrapEmulation.StringCompare

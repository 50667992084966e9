import Mathlib.Order.Bounds.Basic
import TrapEmulation.Decode.Reader
import TrapEmulation.Memory.Window
import TrapEmulation.Proofs.Memory.Layout

/-!
# The readable bytes at the instruction pointer

Fetching gives the bytes from the instruction pointer on, as many as an instruction may have, unless one of them
cannot be read.  Then it gives those in front of the first such byte, and a fault if that is the very first.
The mask applies to each address by itself, so the bytes may go around the end of the address space.
-/

namespace TrapEmulation.UserMemory

variable {σ : Type} [UserMemory σ]

/-- The bytes that single reads answer with, one after another.  They end in front of the first read that fails,
or at the limit. -/
structure IsReadableRun (answer : Nat → Except MemoryFault (Vector Byte 1)) (limit : Nat)
    (bytes : List Byte) : Prop where
  isLeast_length : IsLeast {i | i = limit ∨ ∃ fault, answer i = .error fault} bytes.length
  answer_eq : ∀ i (hi : i < bytes.length), answer i = .ok #v[bytes[i]]

namespace IsReadableRun

variable {answer : Nat → Except MemoryFault (Vector Byte 1)} {limit : Nat} {byte : Byte}
  {bytes other : List Byte}

theorem nil (hend : 0 = limit ∨ ∃ fault, answer 0 = .error fault) : IsReadableRun answer limit [] where
  isLeast_length := ⟨hend, fun i _ ↦ Nat.zero_le i⟩
  answer_eq := fun i hi ↦ absurd hi (Nat.not_lt_zero i)

/-- A run is one byte longer if another byte can be read in front of it. -/
theorem cons (hfirst : answer 0 = .ok #v[byte])
    (hrest : IsReadableRun (fun i ↦ answer (i + 1)) limit bytes) :
    IsReadableRun answer (limit + 1) (byte :: bytes) where
  isLeast_length := by
    obtain ⟨hend, hleast⟩ := hrest.isLeast_length
    refine ⟨hend.imp_left (congrArg Nat.succ), ?_⟩
    intro i hi
    cases i with
    | zero =>
      rcases hi with hlimit | ⟨fault, hfault⟩
      · cases hlimit
      · rw [hfirst] at hfault
        cases hfault
    | succ i => exact Nat.succ_le_succ (hleast (hi.imp_left Nat.succ.inj))
  answer_eq := by
    intro i hi
    cases i with
    | zero => exact hfirst
    | succ i => exact hrest.answer_eq i (Nat.lt_of_succ_lt_succ hi)

theorem unique (h : IsReadableRun answer limit bytes) (hother : IsReadableRun answer limit other) :
    bytes = other := by
  refine List.ext_getElem (h.isLeast_length.unique hother.isLeast_length) fun i hi hi' ↦ ?_
  have hsame := (h.answer_eq i hi).symm.trans (hother.answer_eq i hi')
  rw [Except.ok.injEq] at hsame
  exact congrArg (fun cell : Vector Byte 1 ↦ cell.get ⟨0, Nat.zero_lt_one⟩) hsame

theorem ne_nil_iff (h : IsReadableRun answer (limit + 1) bytes) :
    bytes ≠ [] ↔ ∀ fault, answer 0 ≠ .error fault := by
  constructor
  · intro hne fault hfault
    have hread := h.answer_eq 0 (List.length_pos_iff.mpr hne)
    rw [hread] at hfault
    cases hfault
  · rintro hread rfl
    rcases h.isLeast_length.1 with hlimit | ⟨fault, hfault⟩
    · cases hlimit
    · exact hread fault hfault

end IsReadableRun

variable {memory : σ}

/-- A read of one byte answers with that byte alone. -/
theorem cell_eq_singleton (cell : Vector Byte 1) : cell = #v[cell.get ⟨0, Nat.zero_lt_one⟩] := by
  apply Vector.ext
  intro k hk
  obtain rfl : k = 0 := Nat.lt_one_iff.mp hk
  rfl

theorem Pure.fetch_eq_error_iff (hpure : Pure memory) (mask start : Address) (count : Nat)
    (fault : MemoryFault) :
    (UserMemory.fetch mask memory start (count + 1)).1 = .error fault ↔
      (read memory (start &&& mask) 1).1 = .error fault := by
  rw [hpure.fetch_succ]
  cases (read memory (start &&& mask) 1).1 with
  | error _ => simp only [Except.map, Except.error.injEq]
  | ok _ => simp only [Except.map, reduceCtorEq]

/-- What is fetched, or nothing in case of a fault, is what can be read byte by byte. -/
theorem Pure.isReadableRun_fetch (hpure : Pure memory) (mask start : Address) (count : Nat) :
    IsReadableRun (fun i ↦ (read memory ((start + BitVec.ofNat 64 i) &&& mask) 1).1) count
      ((UserMemory.fetch mask memory start count).1.toOption.getD []) := by
  induction count generalizing start with
  | zero => exact .nil (.inl rfl)
  | succ count ih =>
    have hzero : start + BitVec.ofNat 64 0 = start := BitVec.add_zero start
    have hsucc (i : Nat) : start + 1 + BitVec.ofNat 64 i = start + BitVec.ofNat 64 (i + 1) := by
      rw [Nat.add_comm, BitVec.ofNat_add, ← BitVec.add_assoc, BitVec.ofNat_eq_ofNat]
    rw [hpure.fetch_succ]
    cases hread : (read memory (start &&& mask) 1).1 with
    | error fault => exact .nil (.inr ⟨fault, by rw [hzero, hread]⟩)
    | ok cell =>
      refine .cons ?_ ?_
      · rw [hzero, hread]
        exact congrArg Except.ok (cell_eq_singleton cell)
      · simp only [← hsucc]
        exact ih (start + 1)

theorem Pure.fetch_eq_ok_iff (hpure : Pure memory) (mask start : Address) (count : Nat)
    (bytes : List Byte) :
    (UserMemory.fetch mask memory start (count + 1)).1 = .ok bytes ↔
      bytes ≠ [] ∧ IsReadableRun
        (fun i ↦ (read memory ((start + BitVec.ofNat 64 i) &&& mask) 1).1) (count + 1) bytes := by
  have hrun := hpure.isReadableRun_fetch mask start (count + 1)
  have hzero : start + BitVec.ofNat 64 0 = start := BitVec.add_zero start
  cases hfetch : (UserMemory.fetch mask memory start (count + 1)).1 with
  | error fault =>
    have hread := (hpure.fetch_eq_error_iff mask start count fault).mp hfetch
    rw [← hzero] at hread
    constructor
    · rintro ⟨⟩
    · rintro ⟨hne, hbytes⟩
      exact absurd hread (hbytes.ne_nil_iff.mp hne fault)
  | ok found =>
    rw [hfetch] at hrun
    constructor
    · intro h
      obtain rfl : found = bytes := Except.ok.inj h
      refine ⟨hrun.ne_nil_iff.mpr fun fault hfault ↦ ?_, hrun⟩
      rw [hzero, ← hpure.fetch_eq_error_iff mask start count, hfetch] at hfault
      cases hfault
    · rintro ⟨-, hbytes⟩
      exact congrArg Except.ok (hrun.unique hbytes)

/-- Fetching from memory that reading does not change fails exactly as the first read does.  Otherwise it gives
all bytes in front of the first that cannot be read, but no more than fifteen. -/
theorem fetch_eq_readableRun (hpure : Pure memory) (mask start : Address) :
    let answer (i : Nat) := (read memory ((start + BitVec.ofNat 64 i) &&& mask) 1).1
    let fetched := (fetch mask memory start maxInstructionLength).1
    (∀ fault, fetched = .error fault ↔ answer 0 = .error fault) ∧
      ∀ bytes, fetched = .ok bytes ↔ bytes ≠ [] ∧ IsReadableRun answer 15 bytes := by
  intro answer fetched
  refine ⟨fun fault ↦ ?_, hpure.fetch_eq_ok_iff mask start 14⟩
  have hfirst : answer 0 = (read memory (start &&& mask) 1).1 := by
    rw [← BitVec.add_zero start]
  rw [hfirst]
  exact hpure.fetch_eq_error_iff mask start 14 fault

/-- The last two bytes of the 32-bit address space and its first three. -/
def aroundTheEnd : AddressSpace := [⟨0xFFFFFFFE, #[0x64, 0xC4]⟩, ⟨0, #[0xE2, 0x60, 0xF2]⟩]

/-- Under the mask of 32-bit code the bytes go on at the bottom, and nothing can be read behind the last. -/
theorem fetch_eq_readableRun_aroundTheEnd :
    Pure aroundTheEnd ∧
      IsReadableRun
        (fun i ↦ (read aroundTheEnd ((0xFFFFFFFE + BitVec.ofNat 64 i) &&& Mode.bits32.mask) 1).1)
        15 [0x64, 0xC4, 0xE2, 0x60, 0xF2] ∧
      (fetch Mode.bits32.mask aroundTheEnd 3 maxInstructionLength).1 = .error ⟨3⟩ := by
  have hpure : Pure aroundTheEnd := fun _ _ ↦ rfl
  have hfetched : (fetch Mode.bits32.mask aroundTheEnd 0xFFFFFFFE maxInstructionLength).1 =
      .ok [0x64, 0xC4, 0xE2, 0x60, 0xF2] := by
    rfl
  have hfault : (read aroundTheEnd ((3 + BitVec.ofNat 64 0) &&& Mode.bits32.mask) 1).1 =
      .error ⟨3⟩ := by
    rfl
  have hrun := ((fetch_eq_readableRun hpure Mode.bits32.mask 0xFFFFFFFE).2 _).mp hfetched
  exact ⟨hpure, hrun.2, ((fetch_eq_readableRun hpure Mode.bits32.mask 3).1 _).mpr hfault⟩

end TrapEmulation.UserMemory

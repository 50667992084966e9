import TrapEmulation.Memory.Window
import TrapEmulation.Proofs.Memory.Agreement

/-!
# Memories that answer alike below a limit

What is read below a limit does not show what stands above it.  A store above the limit is one way in which
memories differ there.  The other extreme is memory that answers to the contrary whenever a read reaches
past the limit: whatever depends on such a read at all comes out differently.
-/

namespace TrapEmulation

namespace UserMemory

variable {σ τ : Type} [UserMemory σ] [UserMemory τ]

/-- Every read of a range below the limit is answered alike. -/
def AlikeBelow (limit : Nat) (memory : σ) (other : τ) : Prop :=
  ∀ (address : Address) (count : Nat), address.toNat + count ≤ limit →
    AnswersAlike memory other address count

theorem AlikeBelow.mono {low high : Nat} {memory : σ} {other : τ} (hle : low ≤ high)
    (halike : AlikeBelow high memory other) : AlikeBelow low memory other :=
  fun address count hend ↦ halike address count (Nat.le_trans hend hle)

/-- The same is fetched if single bytes are answered alike wherever the mask lets an address fall. -/
theorem fetch_congr {mask : Address} {memory : σ} {other : τ} (hpure : Pure memory)
    (hother : Pure other) (halike : ∀ address, AnswersAlike memory other (address &&& mask) 1)
    (start : Address) (count : Nat) :
    (fetch mask memory start count).1 = (fetch mask other start count).1 := by
  induction count generalizing start with
  | zero => rfl
  | succ count ih => rw [hpure.fetch_succ, hother.fetch_succ, halike start, ih]

/-! ## Contrary answers -/

/-- Memory that turns readable ranges into unreadable ones and the other way round, if they reach past the
limit. -/
structure Contrary (σ : Type) where
  memory : σ
  limit : Nat

namespace Contrary

def read (contrary : Contrary σ) (address : Address) (count : Nat) :
    Except MemoryFault (Vector Byte count) :=
  match (UserMemory.read contrary.memory address count).1 with
  | .ok cells => if address.toNat + count ≤ contrary.limit then .ok cells else .error ⟨address⟩
  | .error fault =>
    if address.toNat + count ≤ contrary.limit then .error fault else .ok (Vector.replicate count 0)

instance : UserMemory (Contrary σ) where
  read contrary address count := (contrary.read address count, contrary)

theorem pure (contrary : Contrary σ) : Pure contrary := fun _ _ ↦ rfl

theorem alikeBelow (memory : σ) (limit : Nat) : AlikeBelow limit memory (Contrary.mk memory limit) := by
  intro address count hend
  change _ = Contrary.read _ address count
  unfold Contrary.read
  cases (UserMemory.read memory address count).1 with
  | ok cells => exact (if_pos hend).symm
  | error fault => exact (if_pos hend).symm

/-- Past the limit no answer is the one of the memory itself. -/
theorem read_of_limit_lt {memory : σ} {limit : Nat} {address : Address} {count : Nat}
    (hend : limit < address.toNat + count) :
    (Contrary.mk memory limit).read address count =
      match (UserMemory.read memory address count).1 with
      | .ok _ => .error ⟨address⟩
      | .error _ => .ok (Vector.replicate count 0) := by
  unfold Contrary.read
  cases (UserMemory.read memory address count).1 with
  | ok cells => exact if_neg (Nat.not_le_of_gt hend)
  | error fault => exact if_neg (Nat.not_le_of_gt hend)

end Contrary

end UserMemory

/-! ## Stores above the limit -/

namespace Window

variable {window stored : Window} {start address : Address} {bytes : Array Byte} {count : Nat}

theorem holds_of_load? (hload : window.load? start bytes = some stored) :
    stored.Holds address count ↔ window.Holds address count := by
  obtain ⟨hbase, hsize, -⟩ := eq_of_load? hload
  unfold Holds offset
  rw [hbase, hsize]

/-- What is read below a store is read as before. -/
theorem read_of_load? (hload : window.load? start bytes = some stored)
    (hend : address.toNat + count ≤ start.toNat) :
    stored.read address count = window.read address count := by
  by_cases hholds : window.Holds address count
  · have hstored : stored.Holds address count := (holds_of_load? hload).mpr hholds
    obtain ⟨hbase, -, hcell⟩ := eq_of_load? hload
    have hoffset : stored.offset address = window.offset address := by
      rw [offset, offset, hbase]
    rw [read, read, dif_pos hholds, dif_pos hstored]
    refine congrArg Except.ok (Vector.ext fun k hk ↦ ?_)
    have hbelow : ¬ window.offset start ≤ window.offset address + k := by
      have haddress := BitVec.le_def.mp hholds.1
      unfold offset
      omega
    have hin : window.offset address + k < window.cells.size := by
      have hfits := hholds.2
      omega
    simp only [Vector.getElem_ofFn, hoffset]
    rw [hcell _ hin, if_neg hbelow]
  · have hstored : ¬ stored.Holds address count := fun h ↦ hholds ((holds_of_load? hload).mp h)
    rw [read, read, dif_neg hholds, dif_neg hstored]

end Window

namespace AddressSpace

theorem read_cons (window : Window) (rest : AddressSpace) (address : Address) (count : Nat) :
    read (window :: rest) address count =
      if window.Holds address count then window.read address count else read rest address count := by
  unfold read
  rw [List.find?_cons]
  by_cases hholds : window.Holds address count
  · simp only [hholds, decide_true, if_true]
  · simp only [hholds, decide_false, if_false]

/-- A store in the first window is not seen below it. -/
theorem alikeBelow_of_load? {window stored : Window} {start : Address} {bytes : Array Byte}
    (hload : window.load? start bytes = some stored) (rest : AddressSpace) :
    UserMemory.AlikeBelow start.toNat (window :: rest : AddressSpace)
      (stored :: rest : AddressSpace) := by
  intro address count hend
  change read (window :: rest) address count = read (stored :: rest) address count
  rw [read_cons, read_cons]
  by_cases hholds : window.Holds address count
  · rw [if_pos hholds, if_pos ((Window.holds_of_load? hload).mpr hholds),
      Window.read_of_load? hload hend]
  · rw [if_neg hholds, if_neg fun h ↦ hholds ((Window.holds_of_load? hload).mp h)]

end AddressSpace

end TrapEmulation

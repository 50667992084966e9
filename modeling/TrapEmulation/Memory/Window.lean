import TrapEmulation.Memory.UserMemory

/-!
# Memory windows

A `Window` is a contiguous range of readable memory, and an `AddressSpace` is a list of windows.
A read has to lie within one window. The first window that holds the whole range answers.
-/

namespace TrapEmulation

/-- The bytes from address `base` upwards. -/
structure Window where
  base : Address
  cells : Array Byte
  deriving DecidableEq, Repr

namespace Window

/-- A window of `size` zero bytes. -/
def zeroed (base : Address) (size : Nat) : Window := ⟨base, Array.replicate size 0⟩

/-- The address after the last byte. -/
def limit (window : Window) : Address := window.base + BitVec.ofNat 64 window.cells.size

/-- The place of an address in the window. -/
def offset (window : Window) (address : Address) : Nat := address.toNat - window.base.toNat

/-- All `count` bytes from `address` upwards lie in the window. An empty range may stand at the
limit. -/
def Holds (window : Window) (address : Address) (count : Nat) : Prop :=
  window.base ≤ address ∧ window.offset address + count ≤ window.cells.size

instance (window : Window) (address : Address) (count : Nat) :
    Decidable (window.Holds address count) :=
  inferInstanceAs (Decidable (_ ∧ _))

/-- Stores bytes from `address` upwards, if the window holds that range. -/
def load? (window : Window) (address : Address) (bytes : Array Byte) : Option Window :=
  if window.Holds address bytes.size then
    let start := window.offset address
    some { window with
      cells := window.cells.mapIdx fun i old ↦
        if start ≤ i then bytes[i - start]?.getD old else old }
  else
    none

theorem exists_load? {window : Window} {address : Address} {bytes : Array Byte}
    (h : window.Holds address bytes.size) : ∃ stored, window.load? address bytes = some stored :=
  ⟨_, if_pos h⟩

/-- A load replaces the bytes that it reaches and leaves the window where it is. -/
theorem eq_of_load? {window stored : Window} {address : Address} {bytes : Array Byte}
    (hload : window.load? address bytes = some stored) :
    stored.base = window.base ∧ stored.cells.size = window.cells.size ∧
      ∀ i (hi : i < window.cells.size) (hi' : i < stored.cells.size), stored.cells[i] =
        if window.offset address ≤ i then bytes[i - window.offset address]?.getD window.cells[i]
        else window.cells[i] := by
  unfold load? at hload
  split at hload
  · cases hload
    refine ⟨rfl, Array.size_mapIdx, fun i hi hi' ↦ ?_⟩
    rw [Array.getElem_mapIdx]
  · cases hload

/-- The bytes from `address` upwards. -/
def read (window : Window) (address : Address) (count : Nat) :
    Except MemoryFault (Vector Byte count) :=
  if h : window.Holds address count then
    have := h.2
    .ok (Vector.ofFn fun i ↦ window.cells[window.offset address + i])
  else
    .error ⟨address⟩

instance : UserMemory Window where
  read window address count := (window.read address count, window)

end Window

/-- Readable memory made of windows, which may overlap. -/
abbrev AddressSpace := List Window

namespace AddressSpace

def read (space : AddressSpace) (address : Address) (count : Nat) :
    Except MemoryFault (Vector Byte count) :=
  match space.find? fun window ↦ window.Holds address count with
  | some window => window.read address count
  | none => .error ⟨address⟩

instance : UserMemory AddressSpace where
  read space address count := (AddressSpace.read space address count, space)

end AddressSpace

end TrapEmulation

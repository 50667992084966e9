import Mathlib.Data.List.Induction
import TrapEmulation.Memory.Window
import TrapEmulation.Proofs.Memory.Agreement

/-!
# Loads into a window

A window of zero bytes is filled by loads, which may lie over one another.  Each byte is then the one that the
last load over its place has put there.  A read is answered as long as all of its range lies in the window, and
the bounds are those of numbers, so no address and no length goes around the end.
-/

namespace TrapEmulation

/-- Bytes to be stored from an address upwards. -/
structure Load where
  address : Address
  bytes : Array Byte

/-- The byte that the load puts at a place, if it reaches there. -/
def Load.byte? (load : Load) (place : Nat) : Option Byte :=
  if load.address.toNat ≤ place then load.bytes[place - load.address.toNat]? else none

/-- The byte that the last load over a place has put there, and zero if none has. -/
def lastLoaded (loads : List Load) (place : Nat) : Byte :=
  (loads.reverse.findSome? (·.byte? place)).getD 0

theorem lastLoaded_concat (loads : List Load) (load : Load) (place : Nat) :
    lastLoaded (loads ++ [load]) place = (load.byte? place).getD (lastLoaded loads place) := by
  unfold lastLoaded
  rw [List.reverse_concat, List.findSome?_cons]
  cases load.byte? place with
  | none => rfl
  | some byte => rfl

/-- The bytes that have been put at `count` places from `start` on. -/
def loadedBytes (loads : List Load) (start count : Nat) : List Byte :=
  List.ofFn fun i : Fin count ↦ lastLoaded loads (start + i)

theorem loadedBytes_add (loads : List Load) (start low high : Nat) :
    loadedBytes loads start (low + high) =
      loadedBytes loads start low ++ loadedBytes loads (start + low) high := by
  unfold loadedBytes
  rw [List.ofFn_add]
  simp only [Fin.val_castLE, Fin.val_natAdd, Nat.add_assoc]

/-- The `count` places from `address` on are among the `size` places from `base` on. -/
def WithinBounds (base : Address) (size : Nat) (address : Address) (count : Nat) : Prop :=
  base.toNat ≤ address.toNat ∧ address.toNat - base.toNat + count ≤ size

instance (base : Address) (size : Nat) (address : Address) (count : Nat) :
    Decidable (WithinBounds base size address count) :=
  inferInstanceAs (Decidable (_ ∧ _))

namespace Window

/-- A window that has taken the loads, from the first to the last. -/
structure Shows (window : Window) (base : Address) (size : Nat) (loads : List Load) : Prop where
  base_eq : window.base = base
  size_eq : window.cells.size = size
  cell_eq : ∀ i (hi : i < window.cells.size), window.cells[i] = lastLoaded loads (base.toNat + i)

theorem shows_zeroed (base : Address) (size : Nat) : (zeroed base size).Shows base size [] where
  base_eq := rfl
  size_eq := Array.size_replicate
  cell_eq := by
    intro i hi
    exact Array.getElem_replicate _

namespace Shows

variable {window : Window} {base address : Address} {size count : Nat} {loads : List Load}

theorem holds_iff (h : window.Shows base size loads) :
    window.Holds address count ↔ WithinBounds base size address count := by
  unfold Holds WithinBounds offset
  rw [h.base_eq, h.size_eq, BitVec.le_def]

/-- One more load. -/
theorem load (h : window.Shows base size loads) {load : Load}
    (hload : WithinBounds base size load.address load.bytes.size) :
    ∃ stored, window.load? load.address load.bytes = some stored ∧
      stored.Shows base size (loads ++ [load]) := by
  obtain ⟨stored, hstored⟩ := exists_load? (h.holds_iff.mpr hload)
  obtain ⟨hbase, hsize, hcell⟩ := eq_of_load? hstored
  refine ⟨stored, hstored, hbase.trans h.base_eq, hsize.trans h.size_eq, fun i hi ↦ ?_⟩
  have hoffset : window.offset load.address = load.address.toNat - base.toNat := by
    rw [offset, h.base_eq]
  rw [hcell i (hsize ▸ hi) hi, lastLoaded_concat, h.cell_eq, hoffset, Load.byte?]
  have hle := hload.1
  by_cases hreach : load.address.toNat ≤ base.toNat + i
  · have hplace : base.toNat + i - load.address.toNat = i - (load.address.toNat - base.toNat) := by
      omega
    rw [if_pos (by omega), if_pos hreach, hplace]
  · rw [if_neg (by omega), if_neg hreach]
    rfl

end Shows

/-- Loads within the bounds all succeed. -/
theorem exists_shows (base : Address) (size : Nat) (loads : List Load)
    (hloads : ∀ load ∈ loads, WithinBounds base size load.address load.bytes.size) :
    ∃ window, loads.foldlM (fun window load ↦ window.load? load.address load.bytes)
        (zeroed base size) = some window ∧ window.Shows base size loads := by
  induction loads using List.reverseRecOn with
  | nil => exact ⟨_, rfl, shows_zeroed base size⟩
  | append_singleton loads load ih =>
    obtain ⟨window, hrun, hshows⟩ := ih fun earlier hmem ↦ hloads earlier (List.mem_append_left _ hmem)
    have hfits := hloads load (List.mem_append_right _ (List.mem_singleton_self load))
    obtain ⟨stored, hstored, hshown⟩ := hshows.load hfits
    refine ⟨stored, ?_, hshown⟩
    rw [List.foldlM_append, hrun]
    change (window.load? load.address load.bytes).bind some = some stored
    rw [hstored, Option.bind_some]

/-! ## Reading -/

namespace Shows

variable {window : Window} {base address : Address} {size count : Nat} {loads : List Load}

theorem read_eq (h : window.Shows base size loads) (address : Address) (count : Nat) :
    window.read address count =
      if WithinBounds base size address count then
        .ok (Vector.ofFn fun i ↦ lastLoaded loads (address.toNat + i))
      else
        .error ⟨address⟩ := by
  by_cases hrange : WithinBounds base size address count
  · have hholds : window.Holds address count := h.holds_iff.mpr hrange
    rw [if_pos hrange, read, dif_pos hholds]
    refine congrArg Except.ok (Vector.ext fun i hi ↦ ?_)
    have hplace : base.toNat + (window.offset address + i) = address.toNat + i := by
      have hle := hrange.1
      rw [offset, h.base_eq]
      omega
    rw [Vector.getElem_ofFn, Vector.getElem_ofFn, h.cell_eq, hplace]
  · have hholds : ¬ window.Holds address count := fun hholds ↦ hrange (h.holds_iff.mp hholds)
    rw [if_neg hrange, read, dif_neg hholds]

/-- A word in the window is the number that its bytes spell. -/
theorem exists_readWord (h : window.Shows base size loads) (hrange : WithinBounds base size address count) :
    ∃ word, (UserMemory.readWord window address count).1 = .ok word ∧
      word.toNat = decodeLE (loadedBytes loads address.toNat count) := by
  have hread : (UserMemory.read window address count).1 = .ok _ :=
    (h.read_eq address count).trans (if_pos hrange)
  have hlt : decodeLE (loadedBytes loads address.toNat count) < 2 ^ (8 * count) := by
    have hdecode := decodeLE_lt (loadedBytes loads address.toNat count)
    rwa [loadedBytes, List.length_ofFn, show 256 = 2 ^ 8 from rfl, ← Nat.pow_mul] at hdecode
  refine ⟨BitVec.ofNat _ (decodeLE (loadedBytes loads address.toNat count)), ?_, ?_⟩
  · rw [UserMemory.readWord_fst, hread, Except.map, Vector.toList_ofFn]
    rfl
  · rw [BitVec.toNat_ofNat, Nat.mod_eq_of_lt hlt]

theorem withinBounds_of_readWord (h : window.Shows base size loads) {word : BitVec (8 * count)}
    (hword : (UserMemory.readWord window address count).1 = .ok word) :
    WithinBounds base size address count := by
  by_contra hrange
  have hread : (UserMemory.read window address count).1 = .error ⟨address⟩ :=
    (h.read_eq address count).trans (if_neg hrange)
  rw [UserMemory.readWord_fst, hread] at hword
  cases hword

/-- A word is made up of the words of its two parts, the one at the lower address in the lower places. -/
theorem readWord_add (h : window.Shows base size loads) (hend : base.toNat + size ≤ 2 ^ 64)
    {low high : Nat} (hhigh : 0 < high) {wide : BitVec (8 * (low + high))}
    (hwide : (UserMemory.readWord window address (low + high)).1 = .ok wide) :
    ∃ lower upper, (UserMemory.readWord window address low).1 = .ok lower ∧
      (UserMemory.readWord window (address + BitVec.ofNat 64 low) high).1 = .ok upper ∧
      wide.toNat = lower.toNat + 2 ^ (8 * low) * upper.toNat := by
  have hrange := h.withinBounds_of_readWord hwide
  obtain ⟨hbase, hsize⟩ := hrange
  have hplace : (address + BitVec.ofNat 64 low).toNat = address.toNat + low := by
    rw [BitVec.toNat_add, BitVec.toNat_ofNat, Nat.add_mod_mod, Nat.mod_eq_of_lt (by omega)]
  have hlower : WithinBounds base size address low := ⟨hbase, by omega⟩
  have hupper : WithinBounds base size (address + BitVec.ofNat 64 low) high := by
    unfold WithinBounds
    rw [hplace]
    omega
  obtain ⟨lower, hlowerRead, hlowerValue⟩ := h.exists_readWord hlower
  obtain ⟨upper, hupperRead, hupperValue⟩ := h.exists_readWord hupper
  obtain ⟨word, hwordRead, hwordValue⟩ := h.exists_readWord ⟨hbase, hsize⟩
  obtain rfl : wide = word := by
    rwa [hwide, Except.ok.injEq] at hwordRead
  refine ⟨lower, upper, hlowerRead, hupperRead, ?_⟩
  calc
    wide.toNat = decodeLE (loadedBytes loads address.toNat low ++
        loadedBytes loads (address.toNat + low) high) := by
      rw [hwordValue, loadedBytes_add]
    _ = lower.toNat + 256 ^ low * upper.toNat := by
      rw [decodeLE_append, loadedBytes, List.length_ofFn, hlowerValue, hupperValue, hplace]
      rfl
    _ = lower.toNat + 2 ^ (8 * low) * upper.toNat := by
      rw [Nat.pow_mul]

end Shows

/-- A window that has taken loads within its bounds is a store in which the last load counts.  A read that lies
within the bounds gives the bytes that were loaded last, any other read names the address that it was asked for,
and no read changes anything.  A word can be read in two parts, of which the one at the lower address has the
lower places. -/
theorem read_after_loads (base : Address) (size : Nat) (hend : base.toNat + size ≤ 2 ^ 64)
    (loads : List Load)
    (hloads : ∀ load ∈ loads, WithinBounds base size load.address load.bytes.size) :
    ∃ window : Window,
      loads.foldlM (fun window load ↦ window.load? load.address load.bytes) (zeroed base size) =
        some window ∧
      (∀ address count, UserMemory.read window address count =
        (if WithinBounds base size address count then
          .ok (Vector.ofFn fun i ↦ lastLoaded loads (address.toNat + i))
        else
          .error ⟨address⟩, window)) ∧
      ∀ address low high (wide : BitVec (8 * (low + high))), 0 < high →
        (UserMemory.readWord window address (low + high)).1 = .ok wide →
          ∃ lower upper, (UserMemory.readWord window address low).1 = .ok lower ∧
            (UserMemory.readWord window (address + BitVec.ofNat 64 low) high).1 = .ok upper ∧
            wide.toNat = lower.toNat + 2 ^ (8 * low) * upper.toNat := by
  obtain ⟨window, hrun, hshows⟩ := exists_shows base size loads hloads
  refine ⟨window, hrun, fun address count ↦ ?_, fun address low high wide hhigh hwide ↦ ?_⟩
  · exact congrArg (·, window) (hshows.read_eq address count)
  · exact hshows.readWord_add hend hhigh hwide

/-- Two loads at the top of the address space, the second over a part of the first. -/
def topLoads : List Load :=
  [⟨0xFFFFFFFFFFFFFFF4, #[0x11, 0x22, 0x33, 0x44]⟩, ⟨0xFFFFFFFFFFFFFFF6, #[0x99]⟩]

theorem read_after_loads_topLoads :
    ∃ window : Window,
      topLoads.foldlM (fun window load ↦ window.load? load.address load.bytes)
        (zeroed 0xFFFFFFFFFFFFFFF0 16) = some window ∧
      UserMemory.read window 0xFFFFFFFFFFFFFFF3 6 =
        (.ok #v[0x00, 0x11, 0x22, 0x99, 0x44, 0x00], window) ∧
      UserMemory.read window 0xFFFFFFFFFFFFFFFC 5 = (.error ⟨0xFFFFFFFFFFFFFFFC⟩, window) ∧
      ∃ lower upper, (UserMemory.readWord window 0xFFFFFFFFFFFFFFF0 8).1 = .ok lower ∧
        (UserMemory.readWord window 0xFFFFFFFFFFFFFFF8 8).1 = .ok upper ∧
        0x4499221100000000 = lower.toNat + 2 ^ 64 * upper.toNat := by
  have hloads : ∀ load ∈ topLoads, WithinBounds 0xFFFFFFFFFFFFFFF0 16 load.address load.bytes.size := by
    decide
  obtain ⟨window, hrun, hread, hsplit⟩ :=
    read_after_loads 0xFFFFFFFFFFFFFFF0 16 (by decide) topLoads hloads
  have hwide : (UserMemory.readWord window 0xFFFFFFFFFFFFFFF0 (8 + 8)).1 = .ok 0x4499221100000000 := by
    rw [UserMemory.readWord_fst, hread]
    rfl
  refine ⟨window, hrun, ?_, ?_, hsplit _ 8 8 _ (by decide) hwide⟩
  · rw [hread]
    rfl
  · rw [hread]
    rfl

end Window

end TrapEmulation

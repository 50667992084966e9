import TrapEmulation.Proofs.Memory.Fetch
import TrapEmulation.Proofs.Words

/-!
# Bytes laid out in memory

`Holds` says where bytes stand in memory: one after another from a given number upwards, at addresses
that wrap at the width of the mode.  In memory that reading does not change, an instruction can be fetched
wherever its bytes stand.
-/

namespace TrapEmulation.UserMemory

variable {σ : Type} [UserMemory σ]

/-- Reading leaves the memory as it is. -/
def Pure (memory : σ) : Prop := ∀ address count, (read memory address count).2 = memory

theorem Pure.fetch {mask : Address} {memory : σ} (hpure : Pure memory) (start : Address)
    (count : Nat) : (UserMemory.fetch mask memory start count).2 = memory := by
  induction count generalizing start with
  | zero => rfl
  | succ count ih =>
    have hread := hpure (start &&& mask) 1
    rw [UserMemory.fetch]
    split
    · next fault after hanswer =>
      rwa [hanswer] at hread
    · next byte after hanswer =>
      rw [hanswer] at hread
      obtain rfl : after = memory := hread
      have hrest := ih (start + 1)
      split
      · next rest final hfetch =>
        rwa [hfetch] at hrest
      · next fault final hfetch =>
        rwa [hfetch] at hrest

/-- Fetching one byte more. -/
theorem Pure.fetch_succ {mask : Address} {memory : σ} (hpure : Pure memory) (start : Address)
    (count : Nat) :
    (UserMemory.fetch mask memory start (count + 1)).1 =
      (read memory (start &&& mask) 1).1.map fun byte ↦
        byte.get ⟨0, Nat.zero_lt_one⟩ ::
          (UserMemory.fetch mask memory (start + 1) count).1.toOption.getD [] := by
  rw [UserMemory.fetch]
  cases hread : read memory (start &&& mask) 1 with
  | mk answer after =>
    obtain rfl : after = memory := by
      rw [← hpure (start &&& mask) 1, hread]
    cases answer with
    | error fault => rfl
    | ok byte =>
      dsimp only
      cases UserMemory.fetch mask after (start + 1) count with
      | mk rest final => cases rest <;> rfl

/-- The bytes stand at `start`, `start + 1`, … modulo the width of the mode. -/
def Holds (mode : Mode) (memory : σ) (start : Nat) (bytes : List Byte) : Prop :=
  ∀ k (hk : k < bytes.length),
    (read memory (BitVec.ofNat 64 ((start + k) % 2 ^ mode.width)) 1).1 = .ok #v[bytes[k]]

namespace Holds

variable {mode : Mode} {memory : σ} {start : Nat} {front back : List Byte}

theorem left (h : Holds mode memory start (front ++ back)) : Holds mode memory start front := by
  intro k hk
  have hread := h k (by rw [List.length_append]; exact Nat.lt_add_right _ hk)
  rwa [List.getElem_append_left hk] at hread

theorem right (h : Holds mode memory start (front ++ back)) :
    Holds mode memory (start + front.length) back := by
  intro k hk
  have hread := h (front.length + k) (by rw [List.length_append]; exact Nat.add_lt_add_left hk _)
  simpa only [List.getElem_append_right (Nat.le_add_right _ _), Nat.add_sub_cancel_left,
    Nat.add_assoc] using hread

end Holds

/-- The address mask takes a word to the address of the mode that it stands for. -/
theorem and_mask_eq {mode : Mode} {address : Address} {start : Nat}
    (haddress : address.toNat % 2 ^ mode.width = start % 2 ^ mode.width) :
    address &&& mode.mask = BitVec.ofNat 64 (start % 2 ^ mode.width) := by
  apply BitVec.eq_of_toNat_eq
  rw [Mode.toNat_ofNat_mod, ← haddress]
  exact mode.toNat_clip address

/-- The word `k` places after one that stands for an address of the mode stands for the address `k` places on. -/
theorem toNat_add_mod {mode : Mode} {address : Address} {start : Nat}
    (haddress : address.toNat % 2 ^ mode.width = start % 2 ^ mode.width) (k : Nat) :
    (address + BitVec.ofNat 64 k).toNat % 2 ^ mode.width = (start + k) % 2 ^ mode.width := by
  rw [BitVec.toNat_add, BitVec.toNat_ofNat, Nat.add_mod_mod, Nat.mod_mod_of_dvd _ mode.two_pow_width_dvd,
    Nat.add_mod, haddress, ← Nat.add_mod]

/-- Bytes that stand in memory can be read one by one, from any word that stands for their address. -/
theorem Holds.serves {mode : Mode} {memory : σ} (hpure : Pure memory) {address : Address} {start : Nat}
    {bytes : List Byte} (hholds : Holds mode memory start bytes)
    (haddress : address.toNat % 2 ^ mode.width = start % 2 ^ mode.width) :
    Serves mode.mask memory address bytes := by
  induction bytes generalizing address start with
  | nil => trivial
  | cons byte bytes ih =>
    have hread := hholds 0 (Nat.zero_lt_succ _)
    have hparts : Holds mode memory start ([byte] ++ bytes) := hholds
    have hrest : Holds mode memory (start + 1) bytes := hparts.right
    refine ⟨memory, ?_, ih hrest (toNat_add_mod haddress 1)⟩
    rw [and_mask_eq haddress]
    exact Prod.ext hread (hpure _ _)

end TrapEmulation.UserMemory

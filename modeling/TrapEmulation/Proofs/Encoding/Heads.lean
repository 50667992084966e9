import TrapEmulation.Decode.Head
import TrapEmulation.Proofs.Encoding.Reading

/-!
# Heads as they are written

A head is written as a VEX prefix, whose register fields are stored inverted, or as the escape bytes
of a legacy encoding.  Reading accepts a VEX prefix with the short vector length after prefixes that
allow it, and any escape bytes.  Heads of the first opcode map are left out: no opcode of that map is
recognized.
-/

namespace TrapEmulation

/-- The escape bytes that select an opcode map in a legacy encoding. -/
def OpcodeMap.escape : OpcodeMap → List Byte
  | map0F => [0x0F]
  | map0F38 => [0x0F, 0x38]
  | map0F3A => [0x0F, 0x3A]

/-- What a three-byte VEX prefix says besides the opcode map, not inverted. -/
structure VexFields where
  r : Bool
  x : Bool
  b : Bool
  w : Bool
  vvvv : BitVec 4
  mandatory : MandatoryPrefix
  deriving DecidableEq, Repr

namespace VexFields

/-- The first payload byte. -/
def firstByte (v : VexFields) (map : OpcodeMap) : Byte :=
  BitVec.ofBool (!v.r) ++ BitVec.ofBool (!v.x) ++ BitVec.ofBool (!v.b) ++
    BitVec.ofNat 5 map.selector

/-- The second payload byte.  The bit of the vector length is clear. -/
def secondByte (v : VexFields) : Byte :=
  BitVec.ofBool v.w ++ ~~~v.vvvv ++ BitVec.ofBool false ++ BitVec.ofNat 2 v.mandatory.pp

/-- The bytes of the whole prefix. -/
def bytes (v : VexFields) (map : OpcodeMap) : List Byte := [0xC4, v.firstByte map, v.secondByte]

/-- The extra register as a mode reads it: 32-bit code has eight registers. -/
def vvvvIn (mode : Mode) (v : VexFields) : BitVec 4 :=
  match mode with
  | .bits64 => v.vvvv
  | .bits32 => v.vvvv &&& 7

/-- The extension bits as a mode reads them. -/
def extensionIn (mode : Mode) (v : VexFields) : Extension :=
  { r := v.r, x := v.x, b := v.b && mode == .bits64, w := v.w }

/-- The head that the prefix stands for. -/
def head (mode : Mode) (v : VexFields) (map : OpcodeMap) : Head where
  vex := some .threeByte
  extension := v.extensionIn mode
  vvvv := v.vvvvIn mode
  mandatory := v.mandatory
  map := map

/-- The fields that two payload bytes hold. -/
def ofBytes (first second : Byte) : VexFields where
  r := !first.getLsbD 7
  x := !first.getLsbD 6
  b := !first.getLsbD 5
  w := second.getLsbD 7
  vvvv := ~~~(second.extractLsb' 3 4)
  mandatory := .ofPp second

theorem firstByte_ofBytes {first : Byte} (second : Byte) {map : OpcodeMap}
    (h : OpcodeMap.ofSelector? first = some map) : (ofBytes first second).firstByte map = first := by
  have hall : ∀ first : Byte, ∀ map ∈ OpcodeMap.ofSelector? first,
      (ofBytes first 0).firstByte map = first := by
    decide
  exact hall first map h

theorem secondByte_ofBytes (first : Byte) {second : Byte} (h : second.getLsbD 2 = false) :
    (ofBytes first second).secondByte = second := by
  have hall : ∀ second : Byte, second.getLsbD 2 = false →
      (ofBytes 0 second).secondByte = second := by
    decide
  exact hall second h

/-- The first payload byte holds its register bits and the opcode map. -/
theorem firstByte_fields (v : VexFields) (map : OpcodeMap) :
    (v.firstByte map).getLsbD 7 = !v.r ∧ (v.firstByte map).getLsbD 6 = !v.x ∧
      (v.firstByte map).getLsbD 5 = !v.b ∧ OpcodeMap.ofSelector? (v.firstByte map) = some map := by
  obtain ⟨r, x, b, w, vvvv, mandatory⟩ := v
  have hall : ∀ r x b : Bool, ∀ map : OpcodeMap,
      let first := firstByte ⟨r, x, b, false, 0, .absent⟩ map
      first.getLsbD 7 = !r ∧ first.getLsbD 6 = !x ∧ first.getLsbD 5 = !b ∧
        OpcodeMap.ofSelector? first = some map := by
    intro r x b map
    cases map <;> revert r x b <;> decide
  exact hall r x b map

/-- The second payload byte holds its fields and a clear vector length. -/
theorem secondByte_fields (v : VexFields) :
    v.secondByte.getLsbD 7 = v.w ∧ ~~~(v.secondByte.extractLsb' 3 4) = v.vvvv ∧
      v.secondByte.getLsbD 2 = false ∧ MandatoryPrefix.ofPp v.secondByte = v.mandatory := by
  obtain ⟨r, x, b, w, vvvv, mandatory⟩ := v
  have hall : ∀ w : Bool, ∀ vvvv : BitVec 4, ∀ mandatory : MandatoryPrefix,
      let second := secondByte ⟨false, false, false, w, vvvv, mandatory⟩
      second.getLsbD 7 = w ∧ ~~~(second.extractLsb' 3 4) = vvvv ∧ second.getLsbD 2 = false ∧
        MandatoryPrefix.ofPp second = mandatory := by
    intro w vvvv mandatory
    cases mandatory <;> revert w vvvv <;> decide
  exact hall w vvvv mandatory

/-- A first payload byte with its two top bits set is the one of a prefix without `r` and `x`. -/
theorem firstByte_and_iff (v : VexFields) (map : OpcodeMap) :
    v.firstByte map &&& 0xC0 = 0xC0 ↔ v.r = false ∧ v.x = false := by
  obtain ⟨r, x, b, w, vvvv, mandatory⟩ := v
  have hall : ∀ r x b : Bool, ∀ map : OpcodeMap,
      firstByte ⟨r, x, b, false, 0, .absent⟩ map &&& 0xC0 = 0xC0 ↔ r = false ∧ x = false := by
    intro r x b map
    cases map <;> revert r x b <;> decide
  exact hall r x b map

end VexFields

namespace Head

/-! ## VEX prefixes -/

/-- The payload bytes of a three-byte prefix are those that writing its fields produces. -/
theorem ofThreeByte_eq_some_iff (mode : Mode) (first second : Byte) (head : Head) :
    ofThreeByte mode first second = some head ↔
      ∃ v : VexFields, first = v.firstByte head.map ∧ second = v.secondByte ∧
        head = v.head mode head.map := by
  have hrestrict (map : OpcodeMap) : restrict mode
      { vex := some .threeByte
        extension :=
          { r := !first.getLsbD 7
            x := !first.getLsbD 6
            b := !first.getLsbD 5
            w := second.getLsbD 7 }
        vvvv := vvvvOf second
        mandatory := .ofPp second
        map := map } = (VexFields.ofBytes first second).head mode map := by
    cases mode <;>
      simp [restrict, VexFields.head, VexFields.ofBytes, VexFields.extensionIn, VexFields.vvvvIn,
        vvvvOf]
  unfold ofThreeByte
  constructor
  · intro h
    cases hlong : second.getLsbD 2 with
    | true => simp [hlong] at h
    | false =>
      rw [hlong, if_neg Bool.false_ne_true, Option.map_eq_some_iff] at h
      obtain ⟨map, hmap, rfl⟩ := h
      rw [hrestrict]
      exact ⟨VexFields.ofBytes first second, (VexFields.firstByte_ofBytes second hmap).symm,
        (VexFields.secondByte_ofBytes first hlong).symm, rfl⟩
  · rintro ⟨v, rfl, rfl, hhead⟩
    obtain ⟨hr, hx, hb, hmap⟩ := v.firstByte_fields head.map
    obtain ⟨hw, hvvvv, hlong, hmandatory⟩ := v.secondByte_fields
    have hfields : VexFields.ofBytes (v.firstByte head.map) v.secondByte = v := by
      unfold VexFields.ofBytes
      rw [hr, hx, hb, hw, hvvvv, hmandatory]
      simp only [Bool.not_not]
    rw [hlong, if_neg Bool.false_ne_true, hmap, Option.map_some, hrestrict, hfields, ← hhead]

/-- A two-byte prefix selects the first opcode map. -/
theorem map_of_ofTwoByte {mode : Mode} {payload : Byte} {head : Head}
    (h : ofTwoByte mode payload = some head) : head.map = .map0F := by
  unfold ofTwoByte at h
  split at h
  · cases h
  · cases h
    cases mode <;> rfl

theorem orRefuse_eq_ok_iff (answer : Option Head) (head : Head) (bytes rest : List Byte) :
    orRefuse answer bytes = .ok (head, rest) ↔ answer = some head ∧ rest = bytes := by
  cases answer with
  | none =>
    constructor
    · intro h
      exact absurd h (Reader.refuse_ne_ok _)
    · intro h
      cases h.1
  | some found =>
    rw [orRefuse, Reader.pure_eq_ok_iff, Option.some.injEq, eq_comm (a := head)]

/-- Reading a VEX prefix, where the lead byte is known to open one. -/
theorem readVex_eq_ok_iff {mode : Mode} {head : Head} (hmap : head.map ≠ .map0F) {lead : Byte}
    (hlead : lead = 0xC4 ∨ lead = 0xC5) (bytes rest : List Byte) :
    readVex mode (lead :: bytes) = .ok (head, rest) ↔
      ∃ v : VexFields, head = v.head mode head.map ∧
        lead :: bytes = v.bytes head.map ++ rest := by
  unfold readVex
  simp only [Reader.bind_eq_ok_iff, Reader.next_eq_ok_iff]
  constructor
  · rintro ⟨_, _, ⟨rfl, rfl⟩, first, middle, rfl, h⟩
    split at h
    · rw [orRefuse_eq_ok_iff] at h
      exact absurd (map_of_ofTwoByte h.1) hmap
    · next hne =>
      simp only [Reader.bind_eq_ok_iff, Reader.next_eq_ok_iff, orRefuse_eq_ok_iff,
        ofThreeByte_eq_some_iff] at h
      obtain ⟨second, _, rfl, ⟨v, rfl, rfl, hhead⟩, rfl⟩ := h
      obtain rfl : lead = 0xC4 := hlead.resolve_right hne
      exact ⟨v, hhead, rfl⟩
  · rintro ⟨v, hhead, hbytes⟩
    obtain ⟨rfl, rfl⟩ := List.cons.inj hbytes
    refine ⟨_, _, rfl, _, _, rfl, ?_⟩
    rw [if_neg (by decide)]
    simp only [Reader.bind_eq_ok_iff, Reader.next_eq_ok_iff, orRefuse_eq_ok_iff,
      ofThreeByte_eq_some_iff]
    exact ⟨_, _, rfl, ⟨v, rfl, rfl, hhead⟩, rfl⟩

/-! ## Which head comes next -/

/-- A VEX prefix is seen at its lead byte, and in 32-bit code at the two top bits after it. -/
theorem startsVex_eq_ok_true_iff (mode : Mode) (bytes rest : List Byte) :
    startsVex mode bytes = .ok (true, rest) ↔
      rest = bytes ∧ ∃ lead tail, bytes = lead :: tail ∧ (lead = 0xC4 ∨ lead = 0xC5) ∧
        (mode = .bits32 → ∃ first ∈ tail.head?, first &&& 0xC0 = 0xC0) := by
  unfold startsVex
  simp only [Reader.bind_eq_ok_iff, Reader.peek_eq_ok_iff]
  constructor
  · rintro ⟨lead, middle, ⟨hlead, rfl⟩, h⟩
    split at h
    · next hvex =>
      obtain ⟨tail, rfl⟩ : ∃ tail, middle = lead :: tail := by
        rw [← List.head?_eq_getElem?] at hlead
        exact List.head?_eq_some_iff.mp hlead
      cases mode with
      | bits64 =>
        rw [Reader.pure_eq_ok_iff] at h
        exact ⟨h.2, lead, tail, rfl, hvex, by rintro ⟨⟩⟩
      | bits32 =>
        simp only [Reader.bind_eq_ok_iff, Reader.peek_eq_ok_iff, Reader.pure_eq_ok_iff] at h
        obtain ⟨first, _, ⟨hfirst, rfl⟩, htop, rfl⟩ := h
        refine ⟨rfl, lead, tail, rfl, hvex, fun _ ↦ ⟨first, ?_, ?_⟩⟩
        · rw [List.head?_eq_getElem?]
          simpa using hfirst
        · simpa using htop.symm
    · rw [Reader.pure_eq_ok_iff] at h
      cases h.1
  · rintro ⟨rfl, lead, tail, rfl, hvex, htop⟩
    refine ⟨lead, lead :: tail, ⟨rfl, rfl⟩, ?_⟩
    rw [if_pos hvex]
    cases mode with
    | bits64 => rfl
    | bits32 =>
      obtain ⟨first, hfirst, hbits⟩ := htop rfl
      simp only [Reader.bind_eq_ok_iff, Reader.peek_eq_ok_iff, Reader.pure_eq_ok_iff]
      refine ⟨first, _, ⟨?_, rfl⟩, (decide_eq_true hbits).symm, rfl⟩
      rw [List.head?_eq_getElem?] at hfirst
      simpa using hfirst

theorem startsVex_eq_ok_false {mode : Mode} {bytes rest : List Byte}
    (h : startsVex mode bytes = .ok (false, rest)) : rest = bytes := by
  unfold startsVex at h
  simp only [Reader.bind_eq_ok_iff, Reader.peek_eq_ok_iff] at h
  obtain ⟨lead, _, ⟨-, rfl⟩, h⟩ := h
  split at h
  · cases mode with
    | bits64 =>
      rw [Reader.pure_eq_ok_iff] at h
      exact h.2
    | bits32 =>
      simp only [Reader.bind_eq_ok_iff, Reader.peek_eq_ok_iff, Reader.pure_eq_ok_iff] at h
      obtain ⟨first, _, ⟨-, rfl⟩, -, rfl⟩ := h
      rfl
  · rw [Reader.pure_eq_ok_iff] at h
    exact h.2

theorem startsVex_escape (mode : Mode) (tail : List Byte) :
    startsVex mode (0x0F :: tail) = .ok (false, 0x0F :: tail) := rfl

theorem readLegacy_eq_ok_iff {run : PrefixRun} {head : Head} (hmap : head.map ≠ .map0F)
    (bytes rest : List Byte) :
    readLegacy run bytes = .ok (head, rest) ↔
      head = ofRun run head.map ∧ bytes = head.map.escape ++ rest := by
  unfold readLegacy
  simp only [Reader.bind_eq_ok_iff, Reader.next_eq_ok_iff]
  constructor
  · rintro ⟨lead, middle, rfl, h⟩
    split at h
    · exact absurd h (Reader.refuse_ne_ok _)
    · next hlead =>
      obtain rfl : lead = 0x0F := Decidable.not_not.mp hlead
      simp only [Reader.bind_eq_ok_iff, Reader.peek_eq_ok_iff] at h
      obtain ⟨escape, _, ⟨hescape, rfl⟩, h⟩ := h
      split at h
      · simp only [Reader.bind_eq_ok_iff, Reader.next_eq_ok_iff, Reader.pure_eq_ok_iff] at h
        obtain ⟨_, _, rfl, rfl, rfl⟩ := h
        cases hescape
        exact ⟨rfl, rfl⟩
      · simp only [Reader.bind_eq_ok_iff, Reader.next_eq_ok_iff, Reader.pure_eq_ok_iff] at h
        obtain ⟨_, _, rfl, rfl, rfl⟩ := h
        cases hescape
        exact ⟨rfl, rfl⟩
      · rw [Reader.pure_eq_ok_iff] at h
        obtain ⟨rfl, -⟩ := h
        exact absurd rfl hmap
  · rintro ⟨hhead, rfl⟩
    rw [hhead] at hmap ⊢
    cases hescape : head.map with
    | map0F => exact absurd hescape hmap
    | map0F38 => exact ⟨0x0F, _, rfl, rfl⟩
    | map0F3A => exact ⟨0x0F, _, rfl, rfl⟩

/-- Reading a head accepts a VEX prefix after prefixes that allow one, or escape bytes. -/
theorem read_eq_ok_iff {mode : Mode} {run : PrefixRun} {head : Head} (hmap : head.map ≠ .map0F)
    (bytes rest : List Byte) :
    read mode run bytes = .ok (head, rest) ↔
      (∃ v : VexFields, run.conflictsWithVex = false ∧
        (mode = .bits32 → v.r = false ∧ v.x = false) ∧ head = v.head mode head.map ∧
        bytes = v.bytes head.map ++ rest) ∨
      (head = ofRun run head.map ∧ bytes = head.map.escape ++ rest) := by
  unfold read
  rw [Reader.bind_eq_ok_iff]
  constructor
  · rintro ⟨answer, middle, hstarts, h⟩
    cases answer with
    | false =>
      obtain rfl := startsVex_eq_ok_false hstarts
      exact .inr ((readLegacy_eq_ok_iff hmap _ _).mp h)
    | true =>
      obtain ⟨rfl, lead, tail, rfl, hlead, htop⟩ := (startsVex_eq_ok_true_iff mode _ _).mp hstarts
      cases hconflict : run.conflictsWithVex with
      | true =>
        rw [hconflict] at h
        exact absurd h (Reader.refuse_ne_ok _)
      | false =>
        rw [hconflict] at h
        obtain ⟨v, hhead, hbytes⟩ := (readVex_eq_ok_iff hmap hlead tail rest).mp h
        refine .inl ⟨v, rfl, fun h32 ↦ ?_, hhead, hbytes⟩
        obtain ⟨first, hfirst, hbits⟩ := htop h32
        obtain ⟨-, rfl⟩ := List.cons.inj hbytes
        cases hfirst
        exact (v.firstByte_and_iff head.map).mp hbits
  · rintro (⟨v, hconflict, h32, hhead, rfl⟩ | ⟨hhead, rfl⟩)
    · refine ⟨true, _, (startsVex_eq_ok_true_iff mode _ _).mpr
        ⟨rfl, 0xC4, _, rfl, .inl rfl, fun hmode ↦ ?_⟩, ?_⟩
      · exact ⟨v.firstByte head.map, rfl, (v.firstByte_and_iff head.map).mpr (h32 hmode)⟩
      · rw [if_pos rfl, hconflict]
        exact (readVex_eq_ok_iff hmap (.inl rfl) _ rest).mpr ⟨v, hhead, rfl⟩
    · have hlegacy := (readLegacy_eq_ok_iff hmap (head.map.escape ++ rest) rest).mpr ⟨hhead, rfl⟩
      obtain ⟨tail, htail⟩ : ∃ tail, head.map.escape ++ rest = 0x0F :: tail := by
        cases head.map <;> exact ⟨_, rfl⟩
      rw [htail] at hlegacy ⊢
      exact ⟨false, _, startsVex_escape mode tail, hlegacy⟩

end Head

end TrapEmulation

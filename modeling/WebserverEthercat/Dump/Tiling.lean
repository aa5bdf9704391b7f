import WebserverEthercat.Dump.PdoAssign

/-!
# The rows of an assignment tile its bits

One row is printed for each mapping word of the assigned PDOs, and each row
starts where the row before ends.
-/

set_option autoImplicit false

namespace WebserverEthercat

open Loops

/-! ## The mapping words -/

/-- A PDO that is assigned, with the mapping words of its object. -/
structure AssignedPdo where
  idx : UInt16
  words : List UInt32
  few : words.length ≤ 255

/-- The assignment object and the mapping objects can be read, and hold these PDOs. -/
structure Assigns (slave : CoeSlave) (pdoAssign : UInt16) (pdos : List AssignedPdo) : Prop where
  nidx : slave.readU16 pdoAssign 0 = some (UInt16.ofNat pdos.length)
  idx : ∀ place (inside : place < pdos.length),
    slave.readU16 pdoAssign (UInt8.ofNat (1 + place)) = some pdos[place].idx
  subcnt : ∀ pdo ∈ pdos, pdo.idx ≠ 0 →
    slave.readU8 pdo.idx 0 = some (UInt8.ofNat pdo.words.length)
  word : ∀ pdo ∈ pdos, pdo.idx ≠ 0 → ∀ place (inside : place < pdo.words.length),
    slave.readU32 pdo.idx (UInt8.ofNat (1 + place)) = some pdo.words[place]

/-- The words of the PDOs with an index, in their order. -/
def mappedWords (pdos : List AssignedPdo) : List UInt32 :=
  (pdos.filter fun pdo => pdo.idx ≠ 0).flatMap AssignedPdo.words

/-- The parts as they are cut from an `int32`. -/
def MappedEntry.ofInt32 (rdat2 : Int32) : MappedEntry :=
  { objIdx := (rdat2 >>> 16).toInt16.toUInt16
    objSubidx := ((rdat2 >>> 8) &&& 0x000000ff).toInt8.toUInt8
    bitlen := rdat2.toInt8.toUInt8 }

/-- Below a shift, an arithmetic one brings in no sign bits. -/
theorem signExtend_sshiftRight {shift width : Nat} (low : shift + width ≤ 32)
    (word : BitVec 32) :
    (word.sshiftRight shift).signExtend width = (word >>> shift).setWidth width := by
  rw [BitVec.signExtend_eq_setWidth_of_le _ (by omega)]
  ext bit small
  rw [BitVec.getElem_setWidth, BitVec.getElem_setWidth, BitVec.getLsbD_sshiftRight,
    BitVec.getLsbD_ushiftRight]
  have inside : shift + bit < 32 := by omega
  have short : ¬ 32 ≤ bit := by omega
  simp [inside, short]

/-- The parts are those of the unsigned word, also when it is negative. -/
theorem MappedEntry.ofInt32_toInt32 (word : UInt32) :
    MappedEntry.ofInt32 word.toInt32 = MappedEntry.ofWord word := by
  have upper := @signExtend_sshiftRight 16 16 (by omega) word.toBitVec
  have middle := @signExtend_sshiftRight 8 8 (by omega) word.toBitVec
  have lower := @signExtend_sshiftRight 0 8 (by omega) word.toBitVec
  simp only [MappedEntry.ofInt32, MappedEntry.ofWord, MappedEntry.mk.injEq,
    ← UInt16.toBitVec_inj, ← UInt8.toBitVec_inj]
  refine ⟨by simpa using upper, by simp [middle], by simpa using lower⟩

theorem ofWord_parts (word : UInt32) :
    (MappedEntry.ofWord word).objIdx.toNat = word.toNat / 2 ^ 16 ∧
      (MappedEntry.ofWord word).objSubidx.toNat = word.toNat / 2 ^ 8 % 2 ^ 8 ∧
      (MappedEntry.ofWord word).bitlen.toNat = word.toNat % 2 ^ 8 := by
  have bound := word.toNat_lt
  have masked : word.toNat / 256 &&& 255 = word.toNat / 256 % 256 :=
    Nat.and_two_pow_sub_one_eq_mod _ 8
  simp only [MappedEntry.ofWord, UInt32.toNat_toUInt16, UInt32.toNat_toUInt8,
    UInt32.toNat_shiftRight, UInt32.toNat_and, UInt32.reduceToNat, Nat.shiftRight_eq_div_pow]
  simp only [Nat.reduceMod, Nat.reducePow, masked]
  exact ⟨Nat.mod_eq_of_lt (by omega), Nat.mod_mod _ _, trivial⟩

theorem counters_get {first count place : Nat} (inside : place < (counters first count).length) :
    (counters first count)[place] = UInt16.ofNat (first + place) := by
  simp [counters]

theorem pdoEntries_assigned {slave : CoeSlave} {pdoAssign : UInt16} {pdos : List AssignedPdo}
    (assigns : Assigns slave pdoAssign pdos) {pdo : AssignedPdo} (member : pdo ∈ pdos) :
    pdoEntries slave pdo.idx =
      if pdo.idx ≠ 0 then pdo.words.map MappedEntry.ofWord else [] := by
  have few := pdo.few
  by_cases zero : pdo.idx = 0
  · simp [pdoEntries, zero]
  · have positive : pdo.idx > 0 := by
      rw [gt_iff_lt, UInt16.lt_iff_toNat_lt]
      exact Nat.pos_of_ne_zero fun none => zero (UInt16.toNat_inj.mp none)
    have count : (UInt8.ofNat pdo.words.length).toNat = pdo.words.length := by
      rw [UInt8.toNat_ofNat']
      omega
    rw [pdoEntries, if_pos positive, if_pos zero, assigns.subcnt pdo member zero, Option.getD_some,
      count]
    apply List.ext_getElem (by simp)
    intro place inside _
    have short : place < pdo.words.length := by simpa using inside
    simp only [List.getElem_map, List.getElem_range', Nat.one_mul,
      assigns.word pdo member zero place short, Option.getD_some]

theorem mappedWords_cons (pdo : AssignedPdo) (pdos : List AssignedPdo) :
    mappedWords (pdo :: pdos) = (if pdo.idx ≠ 0 then pdo.words else []) ++ mappedWords pdos := by
  by_cases zero : pdo.idx = 0
  · simp [mappedWords, zero]
  · simp [mappedWords, zero]

theorem mappedEntries_assigned {slave : CoeSlave} {pdoAssign : UInt16} {pdos : List AssignedPdo}
    (few : pdos.length ≤ 255) (assigns : Assigns slave pdoAssign pdos) :
    mappedEntries slave pdoAssign = (mappedWords pdos).map MappedEntry.ofWord := by
  have count : (UInt16.ofNat pdos.length).toNat = pdos.length := by
    rw [UInt16.toNat_ofNat']
    omega
  have named : (counters 1 pdos.length).map
      (fun idxloop => (slave.readU16 pdoAssign idxloop.toUInt8).getD 0) =
        pdos.map AssignedPdo.idx := by
    apply List.ext_getElem (by simp [counters])
    intro place inside _
    have short : place < pdos.length := by simpa [counters] using inside
    have cut : (UInt16.ofNat (1 + place)).toUInt8 = UInt8.ofNat (1 + place) := by
      rw [← UInt8.toNat_inj, UInt16.toNat_toUInt8, UInt16.toNat_ofNat', UInt8.toNat_ofNat']
      omega
    simp only [List.getElem_map, counters_get, cut, assigns.idx place short, Option.getD_some]
  rw [mappedEntries, assigns.nidx, Option.getD_some, count,
    ← List.flatMap_map (fun idxloop : UInt16 => (slave.readU16 pdoAssign idxloop.toUInt8).getD 0)
      (pdoEntries slave), named, List.flatMap_map,
    List.flatMap_congr fun pdo member => pdoEntries_assigned assigns member]
  clear assigns few count named
  induction pdos with
  | nil => rfl
  | cons pdo pdos ih =>
      rw [List.flatMap_cons, ih, mappedWords_cons, List.map_append]
      split <;> rfl

/-! ## The tiling -/

/-- The position of a row in the process data, in bits. -/
def PdoRow.position (row : PdoRow) : Int := 8 * row.absOffset + row.absBit

/-- The rows stand one behind the other from the first position to the last. -/
def Tile : Int → List PdoRow → Int → Prop
  | position, [], last => position = last
  | position, row :: rest, last =>
      row.position = position ∧ Tile (position + row.bitlen.toNat) rest last

theorem mappedRow_position (slave : CoeSlave) (mapoffset bitoffset : Int) (entry : MappedEntry) :
    (mappedRow slave mapoffset bitoffset entry).position = 8 * mapoffset + bitoffset := by
  have split := Int.mul_tdiv_add_tmod bitoffset 8
  simp only [PdoRow.position, mappedRow]
  omega

theorem mappedRows_tile (slave : CoeSlave) (mapoffset : Int) (entries : List MappedEntry) :
    ∀ bitoffset, Tile (8 * mapoffset + bitoffset) (mappedRows slave mapoffset bitoffset entries)
      (8 * mapoffset + bitoffset + bits entries) := by
  induction entries with
  | nil =>
      intro bitoffset
      exact (Int.add_zero _).symm
  | cons entry entries ih =>
      intro bitoffset
      have rest := ih (bitoffset + entry.bitlen.toNat)
      refine ⟨mappedRow_position .., ?_⟩
      rw [bits_cons, Nat.cast_add, ← Int.add_assoc, Int.add_assoc (8 * mapoffset)]
      exact Int.add_assoc (8 * mapoffset) .. ▸ rest

/-- The parts of the word that a row is printed for. -/
structure PdoRow.Shows (row : PdoRow) (word : UInt32) : Prop where
  objIdx : row.objIdx.toNat = word.toNat / 2 ^ 16
  objSubidx : row.objSubidx.toNat = word.toNat / 2 ^ 8 % 2 ^ 8
  bitlen : row.bitlen.toNat = word.toNat % 2 ^ 8
  signed : MappedEntry.ofInt32 word.toInt32 =
    { objIdx := row.objIdx, objSubidx := row.objSubidx, bitlen := row.bitlen }

/-- The rows and the offsets are `int`s, and a bit is one of a byte. -/
structure PdoRow.Fits (row : PdoRow) : Prop where
  absOffset : 0 ≤ row.absOffset ∧ row.absOffset < 2 ^ 31
  absBit : 0 ≤ row.absBit ∧ row.absBit < 8

theorem mappedRows_shows (slave : CoeSlave) (mapoffset : Int) (words : List UInt32) :
    ∀ bitoffset, List.Forall₂ PdoRow.Shows
      (mappedRows slave mapoffset bitoffset (words.map MappedEntry.ofWord)) words := by
  induction words with
  | nil => exact fun _ => .nil
  | cons word words ih =>
      intro bitoffset
      obtain ⟨objIdx, objSubidx, bitlen⟩ := ofWord_parts word
      exact .cons ⟨objIdx, objSubidx, bitlen, MappedEntry.ofInt32_toInt32 word⟩ (ih _)

theorem mappedRows_fit (slave : CoeSlave) {mapoffset : Int} (low : 0 ≤ mapoffset)
    (entries : List MappedEntry) :
    ∀ {bitoffset : Int}, 0 ≤ bitoffset → mapoffset + bitoffset + bits entries < 2 ^ 31 →
      ∀ row ∈ mappedRows slave mapoffset bitoffset entries, row.Fits := by
  induction entries with
  | nil =>
      intro bitoffset _ _ row member
      cases member
  | cons entry entries ih =>
      intro bitoffset nonneg small row member
      rw [bits_cons, Nat.cast_add] at small
      rcases List.mem_cons.mp member with rfl | later
      · constructor
        · simp only [mappedRow, Int.tdiv_eq_ediv_of_nonneg nonneg]
          omega
        · simp only [mappedRow, Int.tmod_eq_emod_of_nonneg nonneg]
          omega
      · exact ih (by omega) (by omega) row later

theorem sum_words_le (pdos : List AssignedPdo) :
    (mappedWords pdos).length ≤ pdos.length * 255 := by
  induction pdos with
  | nil => exact Nat.zero_le _
  | cons pdo pdos ih =>
      have few := pdo.few
      rw [mappedWords_cons, List.length_append, List.length_cons, Nat.succ_mul]
      split
      · omega
      · rw [List.length_nil]
        omega

theorem bits_le_words (words : List UInt32) :
    bits (words.map MappedEntry.ofWord) ≤ words.length * 255 := by
  induction words with
  | nil => exact Nat.zero_le _
  | cons word words ih =>
      have byte := (MappedEntry.ofWord word).bitlen.toNat_lt
      rw [List.map_cons, bits_cons, List.length_cons, Nat.succ_mul]
      omega

/-- `si_PDOassign` prints one row for each mapping word, and the rows tile the bits that it
returns the number of. -/
theorem every_bit_once (slave : CoeSlave) (pdoAssign : UInt16) (pdos : List AssignedPdo)
    (few : pdos.length ≤ 255) (assigns : Assigns slave pdoAssign pdos) (mapoffset bitoffset : Int)
    (offsets : 0 ≤ mapoffset ∧ mapoffset ≤ 2 ^ 24 ∧ 0 ≤ bitoffset ∧ bitoffset ≤ 2 ^ 24) :
    ∃ walk, siPdoAssign slave pdoAssign mapoffset bitoffset = some walk ∧
      List.Forall₂ PdoRow.Shows walk.printed (mappedWords pdos) ∧
      Tile (8 * mapoffset + bitoffset) walk.printed (8 * mapoffset + bitoffset + walk.bsize) ∧
      walk.bsize = (((mappedWords pdos).map fun word => word.toNat % 2 ^ 8).sum : Nat) ∧
      (∀ row ∈ walk.printed, row.Fits) ∧ walk.bitoffset < 2 ^ 31 := by
  have bounded : Bounded slave pdoAssign := by
    intro full
    have value := congrArg UInt16.toNat (Option.some.inj (assigns.nidx.symm.trans full))
    have wrapless : (65535 : UInt16).toNat = 65535 := rfl
    rw [UInt16.toNat_ofNat'] at value
    omega
  have entries := mappedEntries_assigned few assigns
  have words := sum_words_le pdos
  have small := bits_le_words (mappedWords pdos)
  have lengths : bits ((mappedWords pdos).map MappedEntry.ofWord) =
      ((mappedWords pdos).map fun word => word.toNat % 2 ^ 8).sum := by
    rw [bits, List.map_map]
    exact congrArg List.sum (List.map_congr_left fun word _ => (ofWord_parts word).2.2)
  refine ⟨_, siPdoAssign_eq bounded mapoffset bitoffset, ?_, ?_, ?_, ?_, ?_⟩
  · rw [entries]
    exact mappedRows_shows ..
  · exact mappedRows_tile ..
  · exact congrArg Int.ofNat (entries ▸ lengths)
  · rw [entries]
    exact mappedRows_fit slave offsets.1 _ offsets.2.2.1 (by omega)
  · simp only [entries]
    omega

/-- A slave that maps a status word and, with the top bit set, the object 0x8000. -/
def CoeSlave.mapping : CoeSlave where
  sdo index subidx :=
    if index = 0x1c13 then
      if subidx = 0 then some [2, 0] else if subidx = 1 then some [0x00, 0x1a]
      else if subidx = 2 then some [0, 0] else none
    else if index = 0x1a00 then
      if subidx = 0 then some [2] else if subidx = 1 then some [16, 0, 0x41, 0x60]
      else if subidx = 2 then some [5, 3, 0x00, 0x80] else none
    else none
  objectEntry _ _ := none

def mappingPdos : List AssignedPdo :=
  [⟨0x1a00, [0x60410010, 0x80000305], by decide⟩, ⟨0, [], by decide⟩]

theorem mapping_assigns : Assigns .mapping 0x1c13 mappingPdos where
  nidx := rfl
  idx
    | 0, _ => rfl
    | 1, _ => rfl
  subcnt pdo member some := by
    simp only [mappingPdos, List.mem_cons, List.not_mem_nil, or_false] at member
    rcases member with rfl | rfl
    · rfl
    · exact absurd rfl some
  word pdo member some := by
    simp only [mappingPdos, List.mem_cons, List.not_mem_nil, or_false] at member
    rcases member with rfl | rfl
    · rintro (_ | _ | place) inside
      · rfl
      · rfl
      · exact absurd inside (by simp)
    · exact absurd rfl some

theorem every_bit_once_mapping :
    ∃ walk, siPdoAssign .mapping 0x1c13 10 3 = some walk ∧
      List.Forall₂ PdoRow.Shows walk.printed (mappedWords mappingPdos) ∧
      Tile (8 * 10 + 3) walk.printed (8 * 10 + 3 + walk.bsize) ∧
      walk.bsize = (((mappedWords mappingPdos).map fun word => word.toNat % 2 ^ 8).sum : Nat) ∧
      (∀ row ∈ walk.printed, row.Fits) ∧ walk.bitoffset < 2 ^ 31 :=
  every_bit_once .mapping 0x1c13 mappingPdos (by decide) mapping_assigns 10 3 (by decide)

end WebserverEthercat

import Mathlib.Data.UInt
import WebserverEthercat.Dump.SiiSection

/-!
# Decoding a well-formed section

The descriptors that are written into a section are the ones that the walk
reads, and it ends with the last of them.
-/

set_option autoImplicit false

namespace WebserverEthercat.Sii

open Loops

/-! ## The layout -/

def wordBytes (value : UInt16) : List UInt8 := [value.toUInt8, (value >>> 8).toUInt8]

def SiiEntry.bytes (entry : SiiEntry) : List UInt8 :=
  wordBytes entry.index ++
    [entry.subindex, entry.name, entry.dataType, entry.bitLength] ++ wordBytes entry.flags

def SiiPdo.bytes (pdo : SiiPdo) : List UInt8 :=
  wordBytes pdo.index ++
    [UInt8.ofNat pdo.entries.length, pdo.syncM, pdo.synchronisation, pdo.name] ++
    wordBytes pdo.flags ++ pdo.entries.flatMap SiiEntry.bytes

def sectionWords (pdos : List SiiPdo) : Nat := (pdos.map SiiPdo.words).sum

/-- The length in words, and the descriptors. -/
def sectionBytes (pdos : List SiiPdo) : List UInt8 :=
  wordBytes (UInt16.ofNat (sectionWords pdos)) ++ pdos.flatMap SiiPdo.bytes

/-- The EEPROM has these bytes from an address on. -/
def Stored (eeprom : Eeprom) : UInt16 → List UInt8 → Prop
  | _, [] => True
  | a, byte :: rest => eeprom.siigetbyte a = byte ∧ Stored eeprom (a + 1) rest

instance (eeprom : Eeprom) : ∀ a bytes, Decidable (Stored eeprom a bytes)
  | _, [] => isTrue trivial
  | a, byte :: rest =>
      have := instDecidableStored eeprom (a + 1) rest
      inferInstanceAs (Decidable (eeprom.siigetbyte a = byte ∧ Stored eeprom (a + 1) rest))

theorem stored_append (eeprom : Eeprom) (first second : List UInt8) :
    ∀ a, Stored eeprom a (first ++ second) ↔
      Stored eeprom a first ∧ Stored eeprom (a + UInt16.ofNat first.length) second := by
  induction first with
  | nil => simp [Stored]
  | cons byte first ih =>
      intro a
      have next : a + 1 + UInt16.ofNat first.length = a + UInt16.ofNat (first.length + 1) := by
        rw [Nat.add_comm, UInt16.ofNat_add, UInt16.add_assoc]
        rfl
      simp only [List.cons_append, Stored, ih, next, List.length_cons, and_assoc]

theorem word_of_bytes (value : UInt16) :
    value.toUInt8.toUInt16 + ((value >>> 8).toUInt8.toUInt16 <<< 8) = value := by
  have bound := value.toNat_lt
  rw [← UInt16.toNat_inj]
  simp only [UInt16.toNat_add, UInt16.toNat_shiftLeft, UInt8.toNat_toUInt16, UInt16.toNat_toUInt8,
    UInt16.toNat_shiftRight, UInt16.reduceToNat]
  simp only [Nat.reduceMod, Nat.shiftRight_eq_div_pow, Nat.shiftLeft_eq]
  omega

theorem word_of_stored {eeprom : Eeprom} {a value : UInt16}
    (stored : Stored eeprom a (wordBytes value)) : eeprom.word a = value := by
  obtain ⟨low, high, -⟩ := stored
  rw [Eeprom.word, low, high, word_of_bytes]

theorem length_entryBytes (entry : SiiEntry) : entry.bytes.length = 8 := rfl

theorem read_entry {eeprom : Eeprom} {a : UInt16} {entry : SiiEntry}
    (stored : Stored eeprom a entry.bytes) : SiiEntry.read eeprom a = entry := by
  simp only [SiiEntry.bytes, stored_append] at stored
  obtain ⟨⟨index, subindex, name, dataType, bitLength, -⟩, flags⟩ := stored
  simp only [UInt16.add_assoc] at subindex name dataType bitLength
  have last : eeprom.word (a + 6) = entry.flags := word_of_stored flags
  rw [SiiEntry.read, word_of_stored index, last]
  cases entry
  simp only [SiiEntry.mk.injEq, true_and, and_true]
  exact ⟨subindex, name, dataType, bitLength⟩

theorem read_entries {eeprom : Eeprom} (entries : List SiiEntry) :
    ∀ {a}, Stored eeprom a (entries.flatMap SiiEntry.bytes) →
      readEntries eeprom entries.length a = entries := by
  induction entries with
  | nil => exact fun _ => rfl
  | cons entry entries ih =>
      intro a stored
      rw [List.flatMap_cons, stored_append] at stored
      have rest : readEntries eeprom entries.length (a + 8) = entries := ih stored.2
      rw [List.length_cons, readEntries, read_entry stored.1, rest]

theorem length_pdoBytes (pdo : SiiPdo) : pdo.bytes.length = 2 * pdo.words := by
  have entries : (pdo.entries.flatMap SiiEntry.bytes).length = 8 * pdo.entries.length := by
    simp [List.length_flatMap, length_entryBytes, Nat.mul_comm]
  rw [SiiPdo.bytes, List.length_append, entries, SiiPdo.words]
  simp only [wordBytes, List.length_append, List.length_cons, List.length_nil]
  omega

theorem read_pdo {eeprom : Eeprom} {a : UInt16} {pdo : SiiPdo}
    (stored : Stored eeprom a pdo.bytes) : SiiPdo.read eeprom a = pdo := by
  simp only [SiiPdo.bytes, stored_append] at stored
  obtain ⟨⟨⟨index, count, syncM, synchronisation, name, -⟩, flags⟩, entries⟩ := stored
  simp only [UInt16.add_assoc] at syncM synchronisation name
  have number : eeprom.siigetbyte (a + 2) = UInt8.ofNat pdo.entries.length := count
  have small : (UInt8.ofNat pdo.entries.length).toNat = pdo.entries.length := by
    rw [UInt8.toNat_ofNat']
    exact Nat.mod_eq_of_lt pdo.few
  have flagsWord : eeprom.word (a + 6) = pdo.flags := word_of_stored flags
  have list : readEntries eeprom (eeprom.siigetbyte (a + 2)).toNat (a + 8) = pdo.entries := by
    rw [number, small]
    exact read_entries pdo.entries entries
  cases pdo
  simp only [SiiPdo.read, SiiPdo.mk.injEq]
  exact ⟨word_of_stored index, syncM, synchronisation, name, flagsWord, list⟩

theorem sectionWords_cons (pdo : SiiPdo) (pdos : List SiiPdo) :
    sectionWords (pdo :: pdos) = pdo.words + sectionWords pdos := by
  simp [sectionWords]

theorem length_le_sectionWords (pdos : List SiiPdo) : 4 * pdos.length ≤ sectionWords pdos := by
  induction pdos with
  | nil => exact Nat.le_refl 0
  | cons pdo pdos ih =>
      rw [sectionWords_cons, List.length_cons, SiiPdo.words]
      omega

/-! ## The walk over the descriptors -/

def sectionHeaders : UInt16 → List SiiPdo → List SiiPdoHeader
  | _, [] => []
  | address, pdo :: rest =>
      pdo.header address :: sectionHeaders (address + UInt16.ofNat (2 * pdo.words)) rest

/-- The headings and rows of the active PDOs, the first bit of which is at `position`. -/
def sectionLines (eeprom : Eeprom) (rxPdo : Bool) (mapoffset : Int) : Int → List SiiPdo →
    List SiiLine
  | _, [] => []
  | position, pdo :: rest =>
      pdo.lines eeprom rxPdo mapoffset position ++
        sectionLines eeprom rxPdo mapoffset (position + pdo.bits) rest

def sectionBits (pdos : List SiiPdo) : Nat := (pdos.map SiiPdo.bits).sum

/-- The bits of the active PDOs of one sync manager. -/
def smBits (sm : UInt16) (pdos : List SiiPdo) : Nat :=
  sectionBits (pdos.filter fun pdo => pdo.syncM.toUInt16 = sm)

structure TookPdos (eeprom : Eeprom) (rxPdo : Bool) (mapoffset : Int) (pdos : List SiiPdo)
    (walk next : DumpWalk) : Prop where
  smBitSize : ∀ sm, next.pdo.smBitSize sm =
    walk.pdo.smBitSize sm + UInt16.ofNat (smBits sm pdos)
  totalsize : next.totalsize = walk.totalsize + sectionBits pdos
  printed : next.printed =
    walk.printed ++ sectionLines eeprom rxPdo mapoffset walk.bitoffset pdos
  headers : next.headers = walk.headers ++ sectionHeaders walk.a pdos

variable {eeprom : Eeprom} {rxPdo : Bool} {mapoffset : Int}

theorem smBits_cons (sm : UInt16) (pdo : SiiPdo) (pdos : List SiiPdo) :
    smBits sm (pdo :: pdos) = (if pdo.syncM.toUInt16 = sm then pdo.bits else 0) + smBits sm pdos := by
  by_cases same : pdo.syncM.toUInt16 = sm
  · simp [smBits, same, sectionBits]
  · simp [smBits, same]

theorem TookPdo.single {pdo : SiiPdo} {walk next : DumpWalk}
    (took : TookPdo eeprom rxPdo mapoffset pdo walk next) :
    TookPdos eeprom rxPdo mapoffset [pdo] walk next where
  smBitSize sm := by
    rw [took.smBitSize, smBits_cons]
    by_cases same : pdo.syncM.toUInt16 = sm
    · simp [same, smBits, sectionBits]
    · simp [same, Ne.symm same, smBits, sectionBits]
  totalsize := by simp [took.totalsize, sectionBits]
  printed := by simp [took.printed, sectionLines]
  headers := by simp [took.headers, sectionHeaders]

theorem TookPdo.cons {pdo : SiiPdo} {pdos : List SiiPdo} {walk between next : DumpWalk}
    (first : TookPdo eeprom rxPdo mapoffset pdo walk between)
    (rest : TookPdos eeprom rxPdo mapoffset pdos between next) :
    TookPdos eeprom rxPdo mapoffset (pdo :: pdos) walk next where
  smBitSize sm := by
    rw [rest.smBitSize, first.smBitSize, smBits_cons, UInt16.ofNat_add, UInt16.add_assoc]
    by_cases same : pdo.syncM.toUInt16 = sm
    · simp [same]
    · simp [same, Ne.symm same]
  totalsize := by
    have sum : sectionBits (pdo :: pdos) = pdo.bits + sectionBits pdos := by simp [sectionBits]
    rw [rest.totalsize, first.totalsize, sum]
    omega
  printed := by
    rw [rest.printed, first.printed, first.bitoffset, sectionLines, List.append_assoc]
  headers := by
    rw [rest.headers, first.headers, first.address, sectionHeaders, List.append_assoc]
    rfl

theorem TookPdos.limited {pdos : List SiiPdo} {walk next : DumpWalk}
    (took : TookPdos eeprom rxPdo mapoffset pdos walk next) :
    TookPdos eeprom rxPdo mapoffset pdos walk next.limited := by
  rw [DumpWalk.limited]
  split
  · exact ⟨took.smBitSize, took.totalsize, took.printed, took.headers⟩
  · exact took

/-- The loop takes the descriptors that are stored, and no others. -/
theorem turns_took {startpos : UInt16} (pdos : List SiiPdo) :
    ∀ {turns room done : Nat} {walk : DumpWalk}, pdos ≠ [] → pdos.length ≤ turns →
      pdos.length ≤ room + 1 → done + sectionWords pdos < 32768 →
      Stored eeprom walk.a (pdos.flatMap SiiPdo.bytes) →
      StandsAt startpos (UInt16.ofNat (done + sectionWords pdos)) room done walk →
      ∃ last, doWhile (DumpWalk.turn eeprom rxPdo mapoffset) DumpWalk.again turns walk = some last ∧
        TookPdos eeprom rxPdo mapoffset pdos walk last := by
  induction pdos with
  | nil => exact fun empty => absurd rfl empty
  | cons pdo pdos ih =>
      intro turns room done walk _ enough fits short stored stands
      obtain ⟨turns, rfl⟩ : ∃ left, turns = left + 1 := ⟨turns - 1, by simp at enough; omega⟩
      rw [List.flatMap_cons, stored_append, length_pdoBytes] at stored
      rw [sectionWords_cons, ← Nat.add_assoc] at short stands
      rw [List.length_cons] at enough fits
      have took := onePdo_took eeprom rxPdo mapoffset walk
      have goesOn := @StandsAt.again_iff eeprom rxPdo mapoffset _ _ _ _ _ stands
      rw [read_pdo stored.1] at took goesOn
      rw [UInt16.toNat_ofNat_of_lt' (Nat.lt_trans short (by decide))] at goesOn
      cases pdos with
      | nil =>
          have nothing : sectionWords [] = 0 := rfl
          have stops : ¬ (walk.turn eeprom rxPdo mapoffset).again = true := by
            rw [goesOn (by omega), nothing]
            omega
          refine ⟨_, ?_, took.single.limited⟩
          rw [doWhile, if_neg stops]
          rfl
      | cons second rest =>
          have more := length_le_sectionWords (second :: rest)
          simp only [List.length_cons] at enough fits more
          obtain ⟨room, rfl⟩ : ∃ left, room = left + 1 := ⟨room - 1, by omega⟩
          have next := stands.next eeprom rxPdo mapoffset
          rw [read_pdo stored.1] at next
          obtain ⟨last, ends, later⟩ := @ih turns room (done + pdo.words) _ (by simp)
            (by simp; omega) (by simp; omega) short
            (stands.turn_eq eeprom rxPdo mapoffset ▸ took.address ▸ stored.2) next
          rw [stands.turn_eq eeprom rxPdo mapoffset] at later
          refine ⟨last, ?_, took.cons later⟩
          rw [doWhile, if_pos ((goesOn (by omega)).mpr ⟨by omega, by omega⟩)]
          exact ends

/-! ## The call -/

theorem length_sectionBytes (pdos : List SiiPdo) :
    (sectionBytes pdos).length = 2 + 2 * sectionWords pdos := by
  have bodies : (pdos.flatMap SiiPdo.bytes).length = 2 * sectionWords pdos := by
    induction pdos with
    | nil => rfl
    | cons pdo pdos ih =>
        rw [List.flatMap_cons, List.length_append, length_pdoBytes, ih, ← Nat.mul_add]
        rfl
  rw [sectionBytes, List.length_append, bodies]
  rfl

theorem SiiEntry.row_position (eeprom : Eeprom) (mapoffset position : Int) (entry : SiiEntry) :
    8 * (entry.row eeprom mapoffset position).absOffset +
      (entry.row eeprom mapoffset position).absBit = 8 * mapoffset + position := by
  have split := Int.mul_tdiv_add_tmod position 8
  simp only [SiiEntry.row]
  omega

/-- `si_siiPDO` decodes a section that is well formed: it takes the descriptors once each and in
their order, sums up the bits of the active ones, and prints their entries at their bit
positions. -/
theorem section_decoded (eeprom : Eeprom) (memory : EepromPdo) (t : UInt8)
    (mapoffset bitoffset : Int) (pdos : List SiiPdo) (nonempty : pdos ≠ [])
    (found : 0 < eeprom.pdoSection t)
    (stored : Stored eeprom (eeprom.pdoSection t) (sectionBytes pdos))
    (cached : (eeprom.pdoSection t).toNat + (sectionBytes pdos).length ≤ 4096) :
    ∃ walk, siSiiPdo eeprom memory t mapoffset bitoffset = some walk ∧
      walk.headers = sectionHeaders (eeprom.pdoSection t + 2) pdos ∧
      walk.totalsize = sectionBits pdos ∧
      (∀ sm < ecMaxSM, walk.pdo.smBitSize sm = UInt16.ofNat (smBits sm pdos)) ∧
      walk.printed =
        sectionLines eeprom (direction t ≠ 0) mapoffset bitoffset pdos := by
  rw [length_sectionBytes] at cached
  rw [sectionBytes, stored_append] at stored
  have words := length_le_sectionWords pdos
  have positive : 0 < (eeprom.pdoSection t).toNat := UInt16.lt_iff_toNat_lt.mp found
  have limit : ecMaxEepDo.toNat = 512 := rfl
  have stands := StandsAt.opened eeprom memory (eeprom.pdoSection t) bitoffset
  rw [word_of_stored stored.1, ← Nat.zero_add (sectionWords pdos)] at stands
  obtain ⟨walk, ends, took⟩ := @turns_took eeprom (direction t ≠ 0) mapoffset _ pdos
    ecMaxEepDo.toNat 510 0 _ nonempty (by omega) (by omega) (by omega) stored.2 stands
  refine ⟨walk, ?_, ?_, ?_, fun sm inRange => ?_, ?_⟩
  · rw [siSiiPdo]
    exact (if_pos found).trans ends
  · simpa using took.headers
  · simpa using took.totalsize
  · rw [took.smBitSize]
    simp [EepromPdo.opened, EepromPdo.cleared, inRange]
  · simpa using took.printed

/-! ## Two PDOs -/

/-- An EEPROM with the given bytes from its only section on. -/
def Eeprom.holding (start : UInt16) (bytes : List UInt8) : Eeprom where
  siigetbyte a := if start ≤ a then bytes.getD (a - start).toNat 0xff else 0xff
  siifind _ := start
  siistring _ := []

/-- A status word and a filler of SM3 behind a deactivated PDO. -/
def statusPdos : List SiiPdo :=
  [⟨0x1a01, 0xff, 0, 0, 0, [⟨0x6064, 0, 0, 4, 32, 0⟩], by decide⟩,
    ⟨0x1a00, 3, 0, 0, 0, [⟨0x6041, 0, 0, 6, 16, 0⟩, ⟨0, 0, 0, 0, 8, 0⟩], by decide⟩]

theorem section_decoded_statusPdos :
    ∃ walk, siSiiPdo (.holding 130 (sectionBytes statusPdos)) ⟨0, 0, 0, 0, 0, 0, 0⟩ 0 0 0 =
        some walk ∧
      walk.headers = sectionHeaders
        ((Eeprom.holding 130 (sectionBytes statusPdos)).pdoSection 0 + 2) statusPdos ∧
      walk.totalsize = sectionBits statusPdos ∧
      (∀ sm < ecMaxSM, walk.pdo.smBitSize sm = UInt16.ofNat (smBits sm statusPdos)) ∧
      walk.printed = sectionLines (.holding 130 (sectionBytes statusPdos))
        (direction 0 ≠ 0) 0 0 statusPdos :=
  section_decoded (.holding 130 (sectionBytes statusPdos)) ⟨0, 0, 0, 0, 0, 0, 0⟩ 0 0 0 statusPdos
    (by decide) (by decide) (by decide +kernel) (by decide +kernel)

end WebserverEthercat.Sii

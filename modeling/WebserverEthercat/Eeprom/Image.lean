import WebserverEthercat.Dump.SiiDecoded
import WebserverEthercat.Eeprom.Sii

/-!
# An EEPROM's image

The sections stand one behind the other, each with its category and its length
in words in front, and the category `0xffff` ends them.
-/

set_option autoImplicit false

namespace WebserverEthercat.Eeprom

open Reads
open Sii (wordBytes word_of_bytes)

structure SiiSection where
  category : UInt16
  body : List UInt8
  named : category ≠ 0xffff
  whole : 2 ∣ body.length

theorem ectSiiString_named : ectSiiString ≠ 0xffff := by decide

def SiiSection.words (part : SiiSection) : UInt16 := UInt16.ofNat (part.body.length / 2)

def SiiSection.bytes (part : SiiSection) : List UInt8 :=
  wordBytes part.category ++ (wordBytes part.words ++ part.body)

def imageBytes (parts : List SiiSection) : List UInt8 :=
  parts.flatMap SiiSection.bytes ++ wordBytes 0xffff

/-! ## A drive -/

/-- Strings, a general section that asks for no LRW, two FMMUs and three sync managers. -/
def driveParts : List SiiSection :=
  [⟨ectSiiString, [2, 2, 0x46, 0x4d, 2, 0x6d, 0x6d, 0], by decide, by decide⟩,
    ⟨ectSiiGeneral, [0, 0, 0, 0, 0, 0x2f, 1, 0, 0, 0, 0, 2, 0xf4, 1], by decide, by decide⟩,
    ⟨ectSiiFmmu, [1, 2], by decide, by decide⟩,
    ⟨ectSiiSm, [0, 0x10, 128, 0, 0x26, 0, 1, 1, 0x80, 0x10, 128, 0, 0x22, 0, 1, 2,
      0, 0x11, 23, 0, 0x64, 0, 1, 3], by decide, by decide⟩]

def driveContents (a : UInt16) : UInt8 :=
  if a < siiStart then 0x1d else (imageBytes driveParts).getD (a - siiStart).toNat 0xff

/-! ## Bytes that stand in an EEPROM -/

section Stands

variable (contents : UInt16 → UInt8) (limit : Nat)

/-- The bytes stand at a position, below a limit. -/
def Stands : Nat → List UInt8 → Prop
  | _, [] => True
  | position, byte :: rest =>
      (position < limit ∧ contents (UInt16.ofNat position) = byte) ∧ Stands (position + 1) rest

instance : ∀ position bytes, Decidable (Stands contents limit position bytes)
  | _, [] => isTrue trivial
  | position, byte :: rest =>
      have := instDecidableStands (position + 1) rest
      inferInstanceAs (Decidable ((position < limit ∧ contents (UInt16.ofNat position) = byte) ∧
        Stands contents limit (position + 1) rest))

variable {contents limit}

theorem stands_append (first second : List UInt8) : ∀ position,
    Stands contents limit position (first ++ second) ↔
      Stands contents limit position first ∧
        Stands contents limit (position + first.length) second := by
  induction first with
  | nil => simp [Stands]
  | cons byte first ih =>
      intro position
      have next : position + 1 + first.length = position + (byte :: first).length := by
        rw [List.length_cons]
        omega
      simp only [List.cons_append, Stands, ih, next, and_assoc]

def Below (limit : Nat) (a : UInt16) : Prop := a.toNat < limit

variable {position : Nat}

theorem siiByte_returns {byte : UInt8} {rest : List UInt8} (small : limit ≤ 32768)
    (stands : Stands contents limit position (byte :: rest)) :
    Returns contents (Below limit) (siiByte (UInt16.ofNat position)) byte := by
  obtain ⟨⟨inside, rfl⟩, -⟩ := stands
  refine returns_get ?_
  rw [Below, UInt16.toNat_ofNat', Nat.mod_eq_of_lt (by omega)]
  exact inside

theorem siiWord_returns {value : UInt16} (small : limit ≤ 32768)
    (stands : Stands contents limit position (wordBytes value)) :
    Returns contents (Below limit) (siiWord (UInt16.ofNat position)) value := by
  have high := siiByte_returns small stands.2
  rw [UInt16.ofNat_add] at high
  refine (siiByte_returns small stands).bind (high.bind ?_)
  rw [word_of_bytes]
  exact returns_pure value

theorem siiBytes_returns (small : limit ≤ 32768) (bytes : List UInt8) :
    ∀ {position : Nat} (count : Nat), count ≤ bytes.length →
      Stands contents limit position bytes →
      Returns contents (Below limit) (siiBytes count (UInt16.ofNat position))
        (bytes.take count) := by
  induction bytes with
  | nil =>
      intro position count few _
      rw [Nat.le_zero.mp few]
      exact returns_pure []
  | cons byte bytes ih =>
      intro position count few stands
      cases count with
      | zero => exact returns_pure []
      | succ count =>
          have rest := ih count (Nat.le_of_succ_le_succ few) stands.2
          rw [UInt16.ofNat_add] at rest
          exact (siiByte_returns small stands).bind (rest.bind (returns_pure _))

end Stands

/-! ## The search -/

section Search

variable {contents : UInt16 → UInt8} {limit : Nat} {cat : UInt16}

def firstCategory : List SiiSection → UInt16
  | [] => 0xffff
  | part :: _ => part.category

def addressOf (cat : UInt16) : Nat → List SiiSection → UInt16
  | _, [] => 0
  | position, part :: rest =>
      if part.category = cat then UInt16.ofNat (position + 2)
      else addressOf cat (position + part.bytes.length) rest

theorem imageBytes_cons (part : SiiSection) (rest : List SiiSection) :
    imageBytes (part :: rest) = part.bytes ++ imageBytes rest := by
  simp [imageBytes]

theorem firstCategory_stands {position : Nat} (parts : List SiiSection)
    (stands : Stands contents limit position (imageBytes parts)) :
    Stands contents limit position (wordBytes (firstCategory parts)) := by
  cases parts with
  | nil => exact stands
  | cons part rest =>
      rw [imageBytes_cons, SiiSection.bytes, List.append_assoc, stands_append] at stands
      exact stands.1

theorem SiiSection.length_bytes (part : SiiSection) : part.bytes.length = 4 + part.body.length := by
  simp only [bytes, wordBytes, List.length_append, List.length_cons, List.length_nil]
  omega

theorem behind_section (position : Nat) (part : SiiSection) :
    behind (UInt16.ofNat (position + 2)) part.words =
      UInt16.ofNat (position + part.bytes.length) := by
  have whole := Nat.div_mul_cancel part.whole
  have two : (2 : UInt16).toNat = 2 := rfl
  rw [← UInt16.toNat_inj, behind, SiiSection.words, part.length_bytes]
  simp only [UInt16.toNat_add, UInt16.toNat_shiftLeft, UInt16.toNat_ofNat', two, UInt16.toNat_one]
  simp only [Nat.reduceMod, Nat.shiftLeft_eq]
  omega

theorem traverse_returns (small : limit ≤ 32768) (real : cat ≠ 0xffff) (parts : List SiiSection) :
    ∀ {position turns : Nat}, parts.length < turns →
      Stands contents limit position (imageBytes parts) →
      Returns contents (Below limit)
        (traverse cat turns (UInt16.ofNat (position + 2)) (firstCategory parts))
        (addressOf cat position parts) := by
  induction parts with
  | nil =>
      intro position turns enough _
      obtain ⟨turns, rfl⟩ := Nat.exists_eq_succ_of_ne_zero (Nat.ne_of_gt enough)
      have stops : ¬ ((0xffff : UInt16) ≠ cat ∧ (0xffff : UInt16) ≠ 0xffff) := fun both => both.2 rfl
      rw [firstCategory, traverse, if_neg stops, if_neg real.symm]
      exact returns_pure 0
  | cons part rest ih =>
      intro position turns enough stands
      obtain ⟨turns, rfl⟩ := Nat.exists_eq_succ_of_ne_zero (Nat.ne_zero_of_lt enough)
      rw [firstCategory, traverse, addressOf]
      by_cases found : part.category = cat
      · rw [if_neg fun both => both.1 found, if_pos found, if_pos found]
        exact returns_pure _
      · rw [if_pos ⟨found, part.named⟩, if_neg found]
        rw [imageBytes_cons, stands_append] at stands
        have length := stands.1
        rw [SiiSection.bytes, stands_append, stands_append] at length
        have category := siiWord_returns small (firstCategory_stands rest stands.2)
        have behindRest := ih (Nat.lt_of_succ_lt_succ enough) stands.2
        rw [UInt16.ofNat_add] at behindRest
        refine (siiWord_returns small length.2.1).bind ?_
        simp only [behind_section]
        exact category.bind behindRest

theorem addressOf_found (parts : List SiiSection) {part : SiiSection} :
    ∀ {position : Nat}, parts.find? (·.category = cat) = some part →
      Stands contents limit position (imageBytes parts) →
      ∃ start, addressOf cat position parts = UInt16.ofNat start ∧ position < start ∧
        Stands contents limit start (wordBytes part.words ++ part.body) := by
  induction parts with
  | nil => exact fun found => nomatch found
  | cons first rest ih =>
      intro position found stands
      rw [imageBytes_cons, stands_append] at stands
      rw [addressOf]
      by_cases here : first.category = cat
      · rw [List.find?_cons_of_pos (by simpa using here)] at found
        cases found
        have body := stands.1
        rw [SiiSection.bytes, stands_append] at body
        exact ⟨position + 2, if_pos here, by omega, body.2⟩
      · rw [List.find?_cons_of_neg (by simpa using here)] at found
        obtain ⟨start, address, later, body⟩ := ih found stands.2
        exact ⟨start, (if_neg here).trans address, by omega, body⟩

theorem addressOf_missing (parts : List SiiSection) :
    ∀ position, parts.find? (·.category = cat) = none → addressOf cat position parts = 0 := by
  induction parts with
  | nil => exact fun _ _ => rfl
  | cons first rest ih =>
      intro position missing
      have none := List.find?_eq_none.mp missing
      have here : first.category ≠ cat := by simpa using none first List.mem_cons_self
      rw [addressOf, if_neg here]
      exact ih _ (List.find?_eq_none.mpr fun other member => none other (List.mem_cons_of_mem _ member))

end Search

/-! ## `ecx_siifind` -/

/-- An EEPROM that holds sections, with its end below a limit. -/
structure Holds (contents : UInt16 → UInt8) (limit : Nat) (parts : List SiiSection) : Prop where
  small : limit ≤ 32768
  stands : Stands contents limit 0x80 (imageBytes parts)

section Found

variable {contents : UInt16 → UInt8} {limit turns : Nat} {parts : List SiiSection} {cat : UInt16}

theorem Holds.siifind_returns (holds : Holds contents limit parts) (enough : parts.length < turns)
    (cat : UInt16) (real : cat ≠ 0xffff) :
    Returns contents (Below limit) (siifind turns cat) (addressOf cat 0x80 parts) :=
  (siiWord_returns holds.small (firstCategory_stands parts holds.stands)).bind
    (traverse_returns holds.small real parts enough holds.stands)

theorem Holds.found (holds : Holds contents limit parts) {part : SiiSection}
    (found : parts.find? (·.category = cat) = some part) :
    ∃ start, addressOf cat 0x80 parts = UInt16.ofNat start ∧ UInt16.ofNat start > 0 ∧
      UInt16.ofNat start < 0x8000 ∧
      Stands contents limit start (wordBytes part.words ++ part.body) := by
  obtain ⟨start, address, later, stands⟩ := addressOf_found parts found holds.stands
  have inside : start < limit := stands.1.1
  have small := holds.small
  have half : (0x8000 : UInt16).toNat = 32768 := rfl
  refine ⟨start, address, ?_, ?_, stands⟩
  · rw [gt_iff_lt, UInt16.lt_iff_toNat_lt, UInt16.toNat_ofNat', UInt16.toNat_zero]
    omega
  · rw [UInt16.lt_iff_toNat_lt, UInt16.toNat_ofNat', half]
    omega

end Found

end WebserverEthercat.Eeprom

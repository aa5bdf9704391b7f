import WebserverEthercat.Eeprom.Lookup
import WebserverEthercat.Eeprom.SectionBodies

/-!
# The PDO section of an image

`si_siiPDO` on the SII functions themselves: the section that it walks is the
one that `ecx_siifind` finds, and the names are those of the string section.
-/

set_option autoImplicit false

namespace WebserverEthercat.Eeprom

open Reads
open Sii (SiiPdo wordBytes sectionBytes sectionWords sectionBits sectionHeaders sectionLines smBits
  ectSiiPdo direction siSiiPdo)

/-- The SII functions of a slave; `%s` prints a string up to its first zero. -/
def eepromOf (turns : Nat) (contents : UInt16 → UInt8) : Sii.Eeprom where
  siigetbyte := siiBytesOf contents
  siifind cat := (evaluate (siiBytesOf contents) (siifind turns cat)).getD 0
  siistring sn :=
    ((evaluate (siiBytesOf contents) (siistring turns sn)).getD []).takeWhile (· ≠ 0)

variable {contents : UInt16 → UInt8} {turns : Nat} {parts : List SiiSection}

theorem Stands.stored {bytes : List UInt8} : ∀ {position : Nat},
    Stands (siiBytesOf contents) 4096 position bytes →
      Sii.Stored (eepromOf turns contents) (UInt16.ofNat position) bytes := by
  induction bytes with
  | nil => exact fun _ => trivial
  | cons byte bytes ih =>
      intro position stands
      have rest := ih stands.2
      rw [UInt16.ofNat_add] at rest
      exact ⟨stands.1.2, rest⟩

theorem Stands.length_le {bytes : List UInt8} : ∀ {position : Nat},
    Stands (siiBytesOf contents) 4096 position bytes → position ≤ 4096 → position + bytes.length ≤ 4096 := by
  induction bytes with
  | nil => exact fun _ inside => inside
  | cons byte bytes ih =>
      intro position stands _
      have rest := ih stands.2 stands.1.1
      rw [List.length_cons]
      omega

end WebserverEthercat.Eeprom

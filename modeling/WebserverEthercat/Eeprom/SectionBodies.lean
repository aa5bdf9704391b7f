import WebserverEthercat.Eeprom.Image

/-!
# What the sections hold

Strings, sync managers and FMMUs that are written into their sections are the
ones that the SII functions return.
-/

set_option autoImplicit false

namespace WebserverEthercat.Eeprom

open Reads
open Sii (wordBytes)

variable {contents : UInt16 → UInt8} {limit turns : Nat} {parts : List SiiSection}

/-! ## Strings -/

def stringBytes (string : List UInt8) : List UInt8 := UInt8.ofNat string.length :: string

/-- The number of strings, and the strings with their lengths. -/
def stringsBody (strings : List (List UInt8)) : List UInt8 :=
  UInt8.ofNat strings.length :: strings.flatMap stringBytes

/-- String `sn`, cut at `EC_MAXNAME` characters; there is no string 0. -/
def stringAt (strings : List (List UInt8)) : Nat → List UInt8
  | 0 => []
  | sn + 1 => (strings[sn]?.getD []).take ecMaxName

theorem stringAt_cons (string : List UInt8) (strings : List (List UInt8)) (sn : Nat) :
    stringAt (string :: strings) (sn + 2) = stringAt strings (sn + 1) := rfl

theorem stringAt_beyond {strings : List (List UInt8)} {sn : Nat} (beyond : strings.length < sn) :
    stringAt strings sn = [] := by
  obtain ⟨sn, rfl⟩ := Nat.exists_eq_succ_of_ne_zero (Nat.ne_zero_of_lt beyond)
  rw [stringAt, List.getElem?_eq_none (Nat.le_of_lt_succ beyond), Option.getD_none, List.take_nil]

theorem toNat_length {Item : Type} {items : List Item} (few : items.length < 256) :
    (UInt8.ofNat items.length).toNat = items.length := by
  rw [UInt8.toNat_ofNat']
  exact Nat.mod_eq_of_lt few

theorem lastString_returns (small : limit ≤ 32768) (strings : List (List UInt8)) :
    ∀ {position sn : Nat}, (∀ string ∈ strings, string.length < 256) → sn ≤ strings.length →
      Stands contents limit position (strings.flatMap stringBytes) →
      Returns contents (Below limit) (lastString sn (UInt16.ofNat position))
        (stringAt strings sn) := by
  induction strings with
  | nil =>
      intro position sn _ few _
      rw [Nat.le_zero.mp few]
      exact returns_pure []
  | cons string strings ih =>
      intro position sn short few stands
      rw [List.flatMap_cons, stands_append] at stands
      obtain ⟨here, rest⟩ := List.forall_mem_cons.mp short
      have length := siiByte_returns small stands.1
      match sn with
      | 0 => exact returns_pure []
      | 1 =>
          have cut : (UInt8.ofNat string.length).toNat = string.length := toNat_length here
          have copied := siiBytes_returns small string (min string.length ecMaxName)
            (Nat.min_le_left _ _) stands.1.2
          have taken : string.take (min string.length ecMaxName) = string.take ecMaxName := by
            rw [Nat.min_comm, ← List.take_eq_take_min]
          rw [UInt16.ofNat_add, taken] at copied
          rw [lastString]
          refine length.bind ?_
          rw [cut]
          exact copied
      | sn + 2 =>
          have next : UInt16.ofNat (position + (stringBytes string).length) =
              UInt16.ofNat position + 1 + (UInt8.ofNat string.length).toUInt16 := by
            have cast : (UInt8.ofNat string.length).toUInt16 = UInt16.ofNat string.length := by
              rw [← UInt16.toNat_inj, UInt8.toNat_toUInt16, toNat_length here,
                UInt16.toNat_ofNat', Nat.mod_eq_of_lt (by omega)]
            rw [cast, stringBytes, List.length_cons, Nat.add_comm string.length, ← Nat.add_assoc,
              UInt16.ofNat_add, UInt16.ofNat_add]
            rfl
          have behind := @ih _ (sn + 1) rest (Nat.le_of_succ_le_succ few) stands.2
          rw [next] at behind
          rw [lastString, stringAt_cons]
          exact length.bind behind

/-- A string section: its strings are counted and measured by a byte. -/
structure Strings where
  strings : List (List UInt8)
  few : strings.length < 256
  short : ∀ string ∈ strings, string.length < 256

theorem siistring_returns (holds : Holds contents limit parts) (enough : parts.length < turns)
    {part : SiiSection} (found : parts.find? (·.category = ectSiiString) = some part)
    (table : Strings) {pad : List UInt8} (body : part.body = stringsBody table.strings ++ pad)
    (sn : UInt16) :
    Returns contents (Below limit) (siistring turns sn)
      (stringAt table.strings sn.toNat ++ [0]) := by
  obtain ⟨start, address, positive, -, stands⟩ := holds.found found
  rw [body, stands_append, stringsBody] at stands
  have count := siiByte_returns holds.small stands.2
  have strings := ((stands_append _ _ _).mp stands.2.2).1
  have small := toNat_length table.few
  have find := holds.siifind_returns enough ectSiiString ectSiiString_named
  rw [address] at find
  have two : UInt16.ofNat (start + (wordBytes part.words).length) = UInt16.ofNat start + 2 :=
    UInt16.ofNat_add start 2
  have three : UInt16.ofNat (start + (wordBytes part.words).length + 1) = UInt16.ofNat start + 3 :=
    UInt16.ofNat_add start 3
  rw [two] at count
  rw [siistring]
  refine find.bind ?_
  rw [if_pos positive]
  refine count.bind ?_
  have available : sn ≤ (UInt8.ofNat table.strings.length).toUInt16 ↔
      sn.toNat ≤ table.strings.length := by
    rw [UInt16.le_iff_toNat_le, UInt8.toNat_toUInt16, small]
  by_cases inside : sn.toNat ≤ table.strings.length
  · have chars := lastString_returns holds.small table.strings table.short inside strings
    rw [three] at chars
    rw [if_pos (available.mpr inside)]
    exact chars.bind (returns_pure _)
  · rw [if_neg (mt available.mp inside), stringAt_beyond (Nat.lt_of_not_le inside)]
    exact returns_pure _

/-! ## Sync managers -/

def SiiSm.bytes (sm : SiiSm) : List UInt8 :=
  wordBytes sm.phStart ++
    (wordBytes sm.plength ++ [sm.creg, sm.sreg, sm.activate, sm.pdiCtrl])

theorem readSm_returns (small : limit ≤ 32768) {position : Nat} {sm : SiiSm}
    (stands : Stands contents limit position sm.bytes) :
    Returns contents (Below limit) (readSm (UInt16.ofNat position)) sm := by
  rw [SiiSm.bytes, stands_append, stands_append] at stands
  obtain ⟨phStart, plength, rest⟩ := stands
  have plength := siiWord_returns small plength
  have creg := siiByte_returns small rest
  have sreg := siiByte_returns small rest.2
  have activate := siiByte_returns small rest.2.2
  have pdiCtrl := siiByte_returns small rest.2.2.2
  simp only [wordBytes, List.length_cons, List.length_nil, Nat.add_assoc, UInt16.ofNat_add]
    at plength creg sreg activate pdiCtrl
  exact (siiWord_returns small phStart).bind (plength.bind (creg.bind (sreg.bind
    (activate.bind (pdiCtrl.bind (returns_pure _))))))

theorem sm_stands (sms : List SiiSm) {sm : SiiSm} : ∀ {position n : Nat}, sms[n]? = some sm →
    Stands contents limit position (sms.flatMap SiiSm.bytes) →
    Stands contents limit (position + n * 8) sm.bytes := by
  induction sms with
  | nil => exact fun present => nomatch present
  | cons first sms ih =>
      intro position n present stands
      rw [List.flatMap_cons, stands_append] at stands
      cases n with
      | zero =>
          cases present
          rw [Nat.zero_mul]
          exact stands.1
      | succ n =>
          have rest := ih present stands.2
          have length : first.bytes.length = 8 := rfl
          rw [length, Nat.add_assoc, Nat.add_comm 8, ← Nat.succ_mul] at rest
          exact rest

theorem length_flatMap_smBytes (sms : List SiiSm) :
    (sms.flatMap SiiSm.bytes).length = 8 * sms.length := by
  have each : ∀ sm : SiiSm, sm.bytes.length = 8 := fun _ => rfl
  simp [List.length_flatMap, each, Nat.mul_comm]

/-- A sync manager section: `nSM` is a byte. -/
structure SyncManagers where
  first : SiiSm
  rest : List SiiSm
  few : rest.length < 255

def SyncManagers.all (table : SyncManagers) : List SiiSm := table.first :: table.rest

def SyncManagers.count (table : SyncManagers) : UInt8 := UInt8.ofNat table.all.length

theorem SyncManagers.toNat_count (table : SyncManagers) :
    table.count.toNat = table.all.length := by
  refine toNat_length ?_
  rw [all, List.length_cons]
  have few := table.few
  omega

theorem words_smSection {part : SiiSection} {table : SyncManagers}
    (body : part.body = table.all.flatMap SiiSm.bytes) :
    (part.words / 4).toUInt8 = table.count := by
  have few := table.few
  have length : table.all.length = table.rest.length + 1 := rfl
  have four : (4 : UInt16).toNat = 4 := rfl
  rw [← UInt8.toNat_inj, table.toNat_count, UInt16.toNat_toUInt8, UInt16.toNat_div,
    SiiSection.words, UInt16.toNat_ofNat', body, length_flatMap_smBytes, four]
  omega

theorem siiSm_returns (holds : Holds contents limit parts) (enough : parts.length < turns)
    {part : SiiSection} (found : parts.find? (·.category = ectSiiSm) = some part)
    (table : SyncManagers) (body : part.body = table.all.flatMap SiiSm.bytes)
    (before : EepromSm) :
    ∃ start, Stands contents limit (start + 2) (table.all.flatMap SiiSm.bytes) ∧
      Returns contents (Below limit) (siiSm turns before)
        ⟨UInt16.ofNat start, table.count, table.first⟩ := by
  obtain ⟨start, address, positive, -, stands⟩ := holds.found found
  rw [stands_append, body] at stands
  have find := holds.siifind_returns enough ectSiiSm (by decide)
  rw [address] at find
  have sm := readSm_returns holds.small (sm_stands table.all (n := 0) rfl stands.2)
  rw [Nat.zero_mul, Nat.add_zero] at sm
  have two : UInt16.ofNat (start + (wordBytes part.words).length) = UInt16.ofNat start + 2 :=
    UInt16.ofNat_add start 2
  rw [two] at sm
  refine ⟨start, stands.2, find.bind ?_⟩
  rw [if_pos positive, ← words_smSection body]
  exact (siiWord_returns holds.small stands.1).bind (sm.bind (returns_pure _))

theorem siiSmNext_returns (small : limit ≤ 32768) {start : Nat} (table : SyncManagers)
    (stands : Stands contents limit (start + 2) (table.all.flatMap SiiSm.bytes))
    (last : SiiSm) {n : Nat} (byte : n < 256) :
    Returns contents (Below limit)
      (siiSmNext ⟨UInt16.ofNat start, table.count, last⟩ (UInt16.ofNat n))
      ((table.all[n]?).map fun sm => ⟨UInt16.ofNat start, table.count, sm⟩) := by
  have available : UInt16.ofNat n < table.count.toUInt16 ↔ n < table.all.length := by
    rw [UInt16.lt_iff_toNat_lt, UInt8.toNat_toUInt16, table.toNat_count, UInt16.toNat_ofNat',
      Nat.mod_eq_of_lt (by omega)]
  rw [siiSmNext]
  by_cases inside : n < table.all.length
  · have present : table.all[n]? = some table.all[n] := List.getElem?_eq_getElem inside
    have sm := readSm_returns small (sm_stands table.all present stands)
    rw [UInt16.ofNat_add, UInt16.ofNat_add, UInt16.ofNat_mul] at sm
    rw [if_pos (available.mpr inside), present]
    exact sm.bind (returns_pure _)
  · rw [if_neg (mt available.mp inside), List.getElem?_eq_none (Nat.le_of_not_lt inside)]
    exact returns_pure _

/-! ## FMMUs -/

/-- An FMMU section: the functions of two or of four FMMUs, and a byte for each one more. -/
structure Fmmus where
  fmmu0 : UInt8
  fmmu1 : UInt8
  others : Option (UInt8 × UInt8 × List UInt8)
  few : ∀ more ∈ others, more.2.2.length < 252
  whole : ∀ more ∈ others, 2 ∣ more.2.2.length

namespace Fmmus

def body (table : Fmmus) : List UInt8 :=
  table.fmmu0 :: table.fmmu1 ::
    match table.others with
    | none => []
    | some (fmmu2, fmmu3, more) => fmmu2 :: fmmu3 :: more

/-- What `ecx_siiFMMU` fills in. -/
def eeprom (table : Fmmus) (startpos : UInt16) : EepromFmmu :=
  { startpos
    nFMMU := UInt8.ofNat table.body.length
    fmmu0 := table.fmmu0
    fmmu1 := table.fmmu1
    fmmu2 := (table.others.map (·.1)).getD 0
    fmmu3 := (table.others.map (·.2.1)).getD 0 }

theorem nFMMU_ne_zero (table : Fmmus) (startpos : UInt16) :
    (table.eeprom startpos).nFMMU ≠ 0 := by
  have bounds : 2 ≤ table.body.length ∧ table.body.length < 256 := by
    rw [body]
    cases present : table.others with
    | none => simp
    | some more =>
        obtain ⟨fmmu2, fmmu3, more⟩ := more
        have few : more.length < 252 := table.few (fmmu2, fmmu3, more) (Option.mem_def.mpr present)
        simp only [List.length_cons]
        omega
  rw [ne_eq, ← UInt8.toNat_inj, eeprom, UInt8.toNat_ofNat', UInt8.toNat_zero]
  omega

end Fmmus

theorem siiFmmu_returns (holds : Holds contents limit parts) (enough : parts.length < turns)
    {part : SiiSection} (found : parts.find? (·.category = ectSiiFmmu) = some part)
    (table : Fmmus) (body : part.body = table.body) :
    ∃ startpos, Returns contents (Below limit) (siiFmmu turns) (table.eeprom startpos) := by
  obtain ⟨start, address, positive, -, stands⟩ := holds.found found
  have words : part.words.toUInt8 * 2 = UInt8.ofNat table.body.length := by
    have whole := Nat.div_mul_cancel part.whole
    have two : (2 : UInt8).toNat = 2 := rfl
    rw [← UInt8.toNat_inj, UInt8.toNat_mul, UInt16.toNat_toUInt8, SiiSection.words,
      UInt16.toNat_ofNat', UInt8.toNat_ofNat', two, ← body]
    omega
  rw [stands_append, body, Fmmus.body] at stands
  have find := holds.siifind_returns enough ectSiiFmmu (by decide)
  rw [address] at find
  have fmmu0 := siiByte_returns holds.small stands.2
  have fmmu1 := siiByte_returns holds.small stands.2.2
  have length : (wordBytes part.words).length = 2 := rfl
  rw [length] at fmmu0 fmmu1
  simp only [Nat.add_assoc, UInt16.ofNat_add] at fmmu0 fmmu1
  refine ⟨UInt16.ofNat start, find.bind ?_⟩
  rw [if_pos positive]
  refine (siiWord_returns holds.small stands.1).bind ?_
  simp only [words]
  refine fmmu0.bind (fmmu1.bind ?_)
  cases others : table.others with
  | none =>
      have two : UInt8.ofNat table.body.length = 2 := by simp [Fmmus.body, others]
      simp only [two, Fmmus.eeprom, others]
      exact returns_pure _
  | some more =>
      obtain ⟨fmmu2, fmmu3, more⟩ := more
      have few : more.length < 252 := table.few (fmmu2, fmmu3, more) (Option.mem_def.mpr others)
      have several : UInt8.ofNat table.body.length > 2 := by
        have length : table.body.length = more.length + 4 := by simp [Fmmus.body, others]
        have two : (2 : UInt8).toNat = 2 := rfl
        rw [gt_iff_lt, UInt8.lt_iff_toNat_lt, UInt8.toNat_ofNat', length, two]
        omega
      rw [others] at stands
      have fmmu2 := siiByte_returns holds.small stands.2.2.2
      have fmmu3 := siiByte_returns holds.small stands.2.2.2.2
      rw [length] at fmmu2 fmmu3
      simp only [Nat.add_assoc, UInt16.ofNat_add] at fmmu2 fmmu3
      rw [if_pos several, Fmmus.eeprom, others]
      exact fmmu2.bind (fmmu3.bind (returns_pure _))

end WebserverEthercat.Eeprom

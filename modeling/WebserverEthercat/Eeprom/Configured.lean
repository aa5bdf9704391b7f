import WebserverEthercat.Dump.Sdo
import WebserverEthercat.Eeprom.Lookup
import WebserverEthercat.Eeprom.SectionBodies

/-!
# Configured slaves

A network whose EEPROMs hold well-formed sections is configured as the
sections say, through the cache.
-/

set_option autoImplicit false

namespace WebserverEthercat.Eeprom

open Reads
open Sii (wordBytes)

/-! ## The general section -/

/-- The fields at `0x07` to `0x0f`, counted from the section's length. -/
structure General where
  front : List UInt8
  coeDetails : UInt8
  foeDetails : UInt8
  eoeDetails : UInt8
  soeDetails : UInt8
  middle : List UInt8
  flags : UInt8
  ebuscurrent : UInt16
  rest : List UInt8
  length_front : front.length = 5
  length_middle : middle.length = 2

namespace General

def body (general : General) : List UInt8 :=
  general.front ++
    ([general.coeDetails, general.foeDetails, general.eoeDetails, general.soeDetails] ++
      (general.middle ++ (general.flags :: (wordBytes general.ebuscurrent ++ general.rest))))

/-- Bit 1 of the flags: no LRW. -/
abbrev Blocked (general : General) : Prop := general.flags &&& 0x02 > 0

def slave (general : General) (before : Slave) : Slave :=
  { before with
    coeDetails := general.coeDetails
    foeDetails := general.foeDetails
    eoeDetails := general.eoeDetails
    soeDetails := general.soeDetails
    ebuscurrent := general.ebuscurrent
    blockLRW := if general.Blocked then 1 else before.blockLRW }

def master (general : General) (before : Master) : Master where
  blockLRW := if general.Blocked then before.blockLRW + 1 else before.blockLRW
  ebuscurrent := before.ebuscurrent + general.ebuscurrent

end General

/-! ## Descriptions -/

/-- What the sections of a slave say. -/
structure SiiDescription where
  general : Option General
  strings : Option (Strings × List UInt8)
  sms : Option SyncManagers
  fmmus : Option Fmmus

def sectionBody (parts : List SiiSection) (category : UInt16) : Option (List UInt8) :=
  (parts.find? (·.category = category)).map SiiSection.body

structure SiiDescription.Describes (description : SiiDescription) (parts : List SiiSection) : Prop where
  general : sectionBody parts ectSiiGeneral = description.general.map General.body
  strings : sectionBody parts ectSiiString =
    description.strings.map fun table => stringsBody table.1.strings ++ table.2
  sms : sectionBody parts ectSiiSm = description.sms.map fun table => table.all.flatMap SiiSm.bytes
  fmmus : sectionBody parts ectSiiFmmu = description.fmmus.map Fmmus.body

/-- The items are put from cell `n` on. -/
def setFrom {Item : Type} : List Item → Nat → List Item → List Item
  | cells, _, [] => cells
  | cells, n, item :: items => setFrom (cells.set n item) (n + 1) items

namespace SiiDescription

variable (description : SiiDescription)

def named (slave : Slave) : List UInt8 :=
  putName slave.name <|
    match description.strings with
    | some table => stringAt table.1.strings 1 ++ [0]
    | none => constructedName slave

def syncManagers (sm : List SyncManager) : List SyncManager :=
  match description.sms with
  | some table => setFrom sm 0 ((table.all.take ecMaxSm).map SiiSm.syncManager)
  | none => sm

def mapped (slave : Slave) : Slave :=
  match description.fmmus with
  | some table =>
    { slave with
      fmmu0func := fmmuFunc slave.fmmu0func table.fmmu0
      fmmu1func := fmmuFunc slave.fmmu1func table.fmmu1
      fmmu2func := fmmuFunc slave.fmmu2func ((table.others.map (·.1)).getD 0)
      fmmu3func := fmmuFunc slave.fmmu3func ((table.others.map (·.2.1)).getD 0) }
  | none => slave

def slave (before : Slave) : Slave :=
  let general := match description.general with
    | some general => general.slave before
    | none => before
  description.mapped { general with
    name := description.named general
    sm := description.syncManagers general.sm }

end SiiDescription

/-! ## Reading the sections -/

variable {contents : UInt16 → UInt8} {limit turns : Nat} {parts : List SiiSection}
  {category : UInt16}

theorem find_of_sectionBody {body : List UInt8}
    (present : sectionBody parts category = some body) :
    ∃ part, parts.find? (·.category = category) = some part ∧ part.body = body := by
  obtain ⟨part, found, same⟩ := Option.map_eq_some_iff.mp present
  exact ⟨part, found, same⟩

theorem Holds.siifind_missing (holds : Holds contents limit parts) (enough : parts.length < turns)
    (real : category ≠ 0xffff) (missing : sectionBody parts category = none) :
    Returns contents (Below limit) (siifind turns category) 0 := by
  have find := holds.siifind_returns enough category real
  rwa [addressOf_missing parts _ (Option.map_eq_none_iff.mp missing)] at find

theorem readGeneral_returns (holds : Holds contents limit parts) (enough : parts.length < turns)
    (general : General) (present : sectionBody parts ectSiiGeneral = some general.body)
    (slave : Slave) (master : Master) :
    Returns contents (Below limit) (readGeneral turns slave master)
      (general.slave slave, general.master master) := by
  obtain ⟨part, found, body⟩ := find_of_sectionBody present
  obtain ⟨start, address, positive, -, stands⟩ := holds.found found
  have find := holds.siifind_returns enough ectSiiGeneral (by decide)
  rw [address] at find
  have small := holds.small
  rw [body, General.body, stands_append, stands_append, stands_append, stands_append] at stands
  obtain ⟨-, -, details, -, behind⟩ := stands
  have ebuscurrent := ((stands_append _ _ _).mp behind.2).1
  have flags := siiByte_returns small behind
  have ebuscurrent := siiWord_returns small ebuscurrent
  have coe := siiByte_returns small details
  have foe := siiByte_returns small details.2
  have eoe := siiByte_returns small details.2.2
  have soe := siiByte_returns small details.2.2.2
  simp only [wordBytes, List.length_cons, List.length_nil, general.length_front,
    general.length_middle, Nat.add_assoc, Nat.reduceAdd, UInt16.ofNat_add]
    at coe foe eoe soe flags ebuscurrent
  refine find.bind ?_
  rw [if_pos (UInt16.pos_iff_ne_zero.mp positive)]
  exact coe.bind (foe.bind (eoe.bind (soe.bind (flags.bind (ebuscurrent.bind (returns_pure _))))))

theorem readName_returns (holds : Holds contents limit parts) (enough : parts.length < turns)
    (description : SiiDescription) (describes : description.Describes parts) (slave : Slave) :
    Returns contents (Below limit) (readName turns slave)
      { slave with name := description.named slave } := by
  have strings := describes.strings
  rw [SiiDescription.named]
  cases present : description.strings with
  | none =>
      rw [present] at strings
      refine (holds.siifind_missing enough (by decide) strings).bind ?_
      rw [if_neg fun both => absurd both.1 (by decide)]
      exact returns_pure _
  | some table =>
      rw [present] at strings
      obtain ⟨part, found, body⟩ := find_of_sectionBody strings
      obtain ⟨start, address, positive, low, -⟩ := holds.found found
      have find := holds.siifind_returns enough ectSiiString ectSiiString_named
      rw [address] at find
      refine find.bind ?_
      rw [if_pos ⟨positive, low⟩]
      exact (siistring_returns holds enough found table.1 body 1).bind (returns_pure _)

/-- `sms` are the sync managers behind the first `smc`. -/
theorem moreSms_returns (small : limit ≤ 32768) {start : Nat} (table : SyncManagers)
    (stands : Stands contents limit (start + 2) (table.all.flatMap SiiSm.bytes)) (left : Nat) :
    ∀ (smc : Nat) (last : SiiSm) (sm : List SyncManager), smc + left ≤ 256 →
      Returns contents (Below limit)
        (moreSms left smc ⟨UInt16.ofNat start, table.count, last⟩ sm)
        (setFrom sm smc (((table.all.drop smc).take left).map SiiSm.syncManager)) := by
  induction left with
  | zero => exact fun _ _ sm _ => returns_pure sm
  | succ left ih =>
      intro smc last sm byte
      have next := siiSmNext_returns small table stands last (n := smc) (by omega)
      rw [moreSms]
      cases present : table.all[smc]? with
      | none =>
          have beyond : table.all.length ≤ smc := List.getElem?_eq_none_iff.mp present
          rw [present] at next
          rw [List.drop_eq_nil_of_le beyond]
          exact next.bind (returns_pure sm)
      | some here =>
          obtain ⟨inside, rfl⟩ := List.getElem?_eq_some_iff.mp present
          rw [present] at next
          rw [List.drop_eq_getElem_cons inside, List.take_succ_cons, List.map_cons, setFrom]
          exact next.bind (ih (smc + 1) table.all[smc] _ (by omega))

theorem readSms_returns (holds : Holds contents limit parts) (enough : parts.length < turns)
    (description : SiiDescription) (describes : description.Describes parts) (slave : Slave) :
    Returns contents (Below limit) (readSms turns slave)
      { slave with sm := description.syncManagers slave.sm } := by
  have sms := describes.sms
  rw [SiiDescription.syncManagers]
  cases present : description.sms with
  | none =>
      rw [present] at sms
      have find := holds.siifind_missing enough (by decide) sms
      have none : Returns contents (Below limit) (siiSm turns ⟨0, 0, ⟨0, 0, 0, 0, 0, 0⟩⟩)
          ⟨0, 0, ⟨0, 0, 0, 0, 0, 0⟩⟩ := find.bind (returns_pure _)
      exact none.bind (returns_pure _)
  | some table =>
      rw [present] at sms
      obtain ⟨part, found, body⟩ := find_of_sectionBody sms
      obtain ⟨start, stands, first⟩ := siiSm_returns holds enough found table body
        ⟨0, 0, ⟨0, 0, 0, 0, 0, 0⟩⟩
      have several : table.count > 0 := by
        rw [gt_iff_lt, UInt8.lt_iff_toNat_lt, table.toNat_count]
        exact Nat.succ_pos _
      refine first.bind ?_
      rw [if_pos several]
      exact (moreSms_returns holds.small table stands 7 1 table.first _ (by omega)).bind
        (returns_pure _)

theorem readFmmus_returns (holds : Holds contents limit parts) (enough : parts.length < turns)
    (description : SiiDescription) (describes : description.Describes parts) (slave : Slave) :
    Returns contents (Below limit) (readFmmus turns slave) (description.mapped slave) := by
  have fmmus := describes.fmmus
  rw [SiiDescription.mapped]
  cases present : description.fmmus with
  | none =>
      rw [present] at fmmus
      have find := holds.siifind_missing enough (by decide) fmmus
      have none : Returns contents (Below limit) (siiFmmu turns) ⟨0, 0, 0, 0, 0, 0⟩ :=
        find.bind (returns_pure _)
      exact none.bind (returns_pure _)
  | some table =>
      rw [present] at fmmus
      obtain ⟨part, found, body⟩ := find_of_sectionBody fmmus
      obtain ⟨startpos, returns⟩ := siiFmmu_returns holds enough found table body
      refine returns.bind ?_
      rw [if_pos (table.nFMMU_ne_zero startpos)]
      exact returns_pure _

/-! ## Slaves -/

theorem readSii_returns (holds : Holds contents limit parts) (enough : parts.length < turns)
    (description : SiiDescription) (describes : description.Describes parts) (slave : Slave) (master : Master) :
    ∃ sums, Returns contents (Below limit) (readSii turns slave master)
      (description.slave slave, sums) := by
  have general : ∃ read : Slave × Master,
      Returns contents (Below limit) (readGeneral turns slave master) read ∧
        description.slave slave = description.mapped
          { read.1 with
            name := description.named read.1
            sm := description.syncManagers read.1.sm } := by
    have section_ := describes.general
    rw [SiiDescription.slave]
    cases present : description.general with
    | none =>
        rw [present] at section_
        have find := holds.siifind_missing enough (by decide) section_
        exact ⟨(slave, master), find.bind (returns_pure _), rfl⟩
    | some general =>
        rw [present] at section_
        exact ⟨_, readGeneral_returns holds enough general section_ slave master, rfl⟩
  obtain ⟨read, returns, same⟩ := general
  rw [same]
  exact ⟨read.2, returns.bind ((readName_returns holds enough description describes read.1).bind
    ((readSms_returns holds enough description describes _).bind
      ((readFmmus_returns holds enough description describes _).bind (returns_pure _))))⟩

/-- A slave's EEPROM with well-formed sections. -/
structure SlaveImage where
  contents : UInt16 → UInt8
  parts : List SiiSection
  description : SiiDescription
  describes : description.Describes parts
  -- the last answer of eight bytes has room in the cache
  holds : Holds (siiBytesOf contents) 4088 parts

namespace SlaveImage

def slave (image : SlaveImage) : Slave :=
  defaultMailbox (image.description.slave (identify image.contents))

theorem configured_eq (image : SlaveImage) (enough : image.parts.length < turns) :
    configured turns image.contents = some image.slave := by
  obtain ⟨sums, returns⟩ := readSii_returns image.holds enough image.description image.describes
    (identify image.contents) ⟨0, 0⟩
  have ran : evaluate (siiBytesOf image.contents)
    (readSii turns (identify image.contents) ⟨0, 0⟩) = some (_, sums) := returns.run
  rw [configured, readAlone, ran]
  rfl

theorem configSlave_returns (image : SlaveImage) (enough : image.parts.length < turns)
    {earlier : List Slave} (master : Master)
    (before : ∀ prev ∈ earlier, ∃ others, configured turns others = some prev ∧
      (sameId (identify image.contents) (identify others) = true → others = image.contents)) :
    Returns (siiBytesOf image.contents) (Below 4088)
      (configSlave turns earlier (identify image.contents) master)
      (image.slave, master.add image.slave) := by
  constructor
  · refine (configSlave_eq master before).trans ?_
    rw [image.configured_eq enough]
    rfl
  · rw [configSlave]
    cases earlier.find? (sameId (identify image.contents)) with
    | none =>
        obtain ⟨sums, returns⟩ := readSii_returns image.holds enough image.description
          image.describes (identify image.contents) master
        have whole : Returns (siiBytesOf image.contents) (Below 4088)
            (readSii turns (identify image.contents) master >>= fun read =>
              pure (defaultMailbox read.1, read.2)) _ := returns.bind (returns_pure _)
        exact whole.served
    | some prev => exact fun _ member => absurd member List.not_mem_nil

end SlaveImage

/-! ## Networks -/

/-- Slaves with numbers, whose answers have room in the cache. -/
def InCache (asked : UInt16 × UInt16) : Prop := asked.1 ≠ 0 ∧ Below 4088 asked.2

theorem InCache.fits (device : EepromDevice) {asked : UInt16 × UInt16} (inCache : InCache asked) :
    asked.1 ≠ 0 ∧ device.Fits asked := by
  obtain ⟨number, a⟩ := asked
  obtain ⟨real, below⟩ := inCache
  have wide := device.cnt_cases number
  have bound : a.toNat < 4088 := below
  exact ⟨real, fun _ => by omega⟩

theorem configSlaves_returns {count : Nat} (few : count < 65536) {contents : EepromContents}
    {image : Nat → SlaveImage} (enough : ∀ number, (image number).parts.length < turns)
    (stored : ∀ number ∈ List.range' 1 count,
      contents (UInt16.ofNat number) = (image number).contents)
    (constant : SiiConstant contents count) (left : Nat) :
    ∀ (earlier : List Slave) (master : Master), earlier.length + left = count →
      (∀ prev ∈ earlier, ∃ number ∈ List.range' 1 count, (image number).slave = prev) →
      Returns (byteAt contents) InCache
        (configSlaves turns (fun number => identify (contents number)) left earlier master)
        (earlier ++ (List.range' (earlier.length + 1) left).map fun number => (image number).slave,
          ((List.range' (earlier.length + 1) left).map fun number => (image number).slave).foldl
            Master.add master) := by
  induction left with
  | zero =>
      intro earlier master _ _
      rw [List.range'_zero, List.map_nil, List.append_nil]
      exact returns_pure _
  | succ left ih =>
      intro earlier master total before
      have here : earlier.length + 1 ∈ List.range' 1 count := by
        rw [List.mem_range'_1]
        omega
      have own := stored _ here
      have real : UInt16.ofNat (earlier.length + 1) ≠ 0 := by
        rw [ne_eq, ← UInt16.toNat_inj, UInt16.toNat_ofNat', UInt16.toNat_zero]
        omega
      have turn := (image (earlier.length + 1)).configSlave_returns (enough _) master
        fun prev member => by
          obtain ⟨number, inside, rfl⟩ := before prev member
          have same := constant _ _ here inside
          rw [stored number inside, own] at same
          exact ⟨_, (image number).configured_eq (enough number), same⟩
      rw [← own] at turn
      have rest := ih (earlier ++ [(image (earlier.length + 1)).slave])
        (master.add (image (earlier.length + 1)).slave)
        (by rw [List.length_append, List.length_singleton]; omega) fun prev member => by
          rcases List.mem_append.mp member with old | new
          · exact before prev old
          · exact ⟨_, here, (List.mem_singleton.mp new).symm⟩
      rw [List.length_append, List.length_singleton, List.append_assoc] at rest
      rw [configSlaves, List.range'_succ, List.map_cons, List.foldl_cons]
      exact Returns.bind (Returns.relabel (turn.mono fun a below => ⟨real, below⟩)) rest

/-- Whatever the cache holds of the slaves, a network with well-formed EEPROMs is configured as
their sections say, and the master gets the sums. -/
theorem network_configured {device : EepromDevice} {contents : EepromContents}
    (answers : device.Answers contents) {cache : EepromCache} (valid : cache.Valid contents)
    {count : Nat} (few : count < 65536) (image : Nat → SlaveImage)
    (enough : ∀ number, (image number).parts.length < turns)
    (stored : ∀ number ∈ List.range' 1 count,
      contents (UInt16.ofNat number) = (image number).contents)
    (constant : SiiConstant contents count) :
    ∃ after,
      (configSlaves turns (fun number => identify (contents number)) count [] ⟨0, 0⟩).run.serve
          (siigetbyte device) cache =
        some (some ((List.range' 1 count).map fun number => (image number).slave,
          ((List.range' 1 count).map fun number => (image number).slave).foldl Master.add ⟨0, 0⟩),
          after) ∧
      after.Valid contents := by
  have returns := configSlaves_returns few enough stored constant count [] ⟨0, 0⟩
    (Nat.zero_add count) fun _ member => absurd member List.not_mem_nil
  have ran := serve_eq_run (siigetbyte_serves answers) _ cache valid
    fun asked member => InCache.fits device (returns.served asked member)
  rw [returns.run] at ran
  exact ran

/-! ## Two drives -/

def driveDescription : SiiDescription where
  general := some ⟨[0, 0, 0, 0, 0], 0x2f, 1, 0, 0, [0, 0], 2, 500, [], rfl, rfl⟩
  strings := some (⟨[[0x46, 0x4d], [0x6d, 0x6d]], by decide, by decide⟩, [0])
  sms := some ⟨⟨0x1000, 128, 0x26, 0, 1, 1⟩,
    [⟨0x1080, 128, 0x22, 0, 1, 2⟩, ⟨0x1100, 23, 0x64, 0, 1, 3⟩], by decide⟩
  fmmus := some ⟨1, 2, none, by simp, by simp⟩

def driveImage : SlaveImage where
  contents := driveContents
  parts := driveParts
  description := driveDescription
  describes := ⟨by decide, by decide, by decide, by decide⟩
  holds := ⟨by decide, by decide +kernel⟩

/-- Two drives of one kind, with answers of four bytes and of eight. -/
theorem network_configured_drives :
    ∃ after,
      (configSlaves 9 (fun _ => identify driveContents) 2 [] ⟨0, 0⟩).run.serve
          (siigetbyte (.storing (fun _ => driveContents) fun slave => slave = 2)) .initial =
        some (some ((List.range' 1 2).map fun _ => driveImage.slave,
          ((List.range' 1 2).map fun _ => driveImage.slave).foldl Master.add ⟨0, 0⟩), after) ∧
      after.Valid fun _ => driveContents :=
  network_configured (EepromDevice.storing_answers _ _) (EepromCache.initial_valid _) (by decide)
    (fun _ => driveImage) (fun _ => by decide) (fun _ _ => rfl) fun _ _ _ _ _ => rfl

end WebserverEthercat.Eeprom

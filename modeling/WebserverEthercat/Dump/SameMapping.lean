import WebserverEthercat.Dump.MappingRun

/-!
# The mapping that is dumped and the mapping that is configured

The two loops bound the number of sync managers differently, and only
`ecx_readPDOmap` repairs a type 0 of SM2 or SM3.
-/

set_option autoImplicit false

namespace WebserverEthercat

/-- What the two walks have to agree on. -/
structure SameMapping (dump : MapWalk) (config : ConfigMap) : Prop where
  managers : ∀ iSM direction, (iSM, direction) ∈ dump.dumped ↔ (iSM, direction) ∈ config.assigned
  size : ∀ direction, dump.bitoffset direction = config.size direction

/-- No ninth type makes SM8 an output or an input, and SM2 and SM3 are not of type 0. -/
structure UsualTypes (slave : CoeSlave) : Prop where
  sm8 : 9 ≤ slave.typeCount → dumpedDirection slave 8 = none
  sm2 : 3 ≤ slave.typeCount → correctedType slave 2 ≠ some 0
  sm3 : 4 ≤ slave.typeCount → correctedType slave 3 ≠ some 0

theorem configuredDirection_eq {slave : CoeSlave} {iSM : UInt8}
    (usual : iSM = 2 ∨ iSM = 3 → correctedType slave iSM ≠ some 0) :
    configuredDirection slave iSM = dumpedDirection slave iSM := by
  unfold configuredDirection dumpedDirection
  cases type : correctedType slave iSM with
  | none => rfl
  | some tSM =>
      have unchanged : ConfigMap.zeroType iSM tSM = tSM := by
        unfold ConfigMap.zeroType
        rw [type] at usual
        grind
      simp only [Option.bind_some, unchanged]

theorem dumpedManagers_split (slave : CoeSlave) :
    dumpedManagers slave =
      configuredManagers slave ++ if 9 ≤ slave.typeCount then [8] else [] := by
  rw [dumpedManagers_eq, configuredManagers_eq]
  split
  case isTrue many =>
    have eight : min (slave.typeCount - 1) 8 = 8 := by omega
    have seven : min slave.typeCount 8 - 1 = 7 := by omega
    rw [eight, seven]
    decide
  case isFalse few =>
    have same : min (slave.typeCount - 1) 8 = min slave.typeCount 8 - 1 := by omega
    rw [same, List.append_nil]

theorem mem_dumpedManagers (slave : CoeSlave) (iSM : UInt8) :
    iSM ∈ dumpedManagers slave ↔
      iSM ∈ configuredManagers slave ∨ 9 ≤ slave.typeCount ∧ iSM = 8 := by
  rw [dumpedManagers_split, List.mem_append]
  split
  case isTrue many => simp [many]
  case isFalse few => simp [few]

theorem mem_configuredManagers (slave : CoeSlave) (iSM : UInt8) :
    iSM ∈ configuredManagers slave ↔
      2 ≤ iSM.toNat ∧ iSM.toNat < slave.typeCount ∧ iSM.toNat < 8 := by
  rw [configuredManagers_eq, mem_syncManagers (by omega)]
  omega

/-- The two walks find the same sync managers in the same directions. -/
def SameDirections (slave : CoeSlave) : Prop :=
  ∀ iSM direction,
    iSM ∈ dumpedManagers slave ∧ dumpedDirection slave iSM = some direction ↔
      iSM ∈ configuredManagers slave ∧ configuredDirection slave iSM = some direction

/-- A configured manager whose type reads as 0 would have to be dumped, too. -/
theorem SameDirections.correctedType_ne_zero {slave : CoeSlave} (same : SameDirections slave)
    {iSM : UInt8} (repaired : directionOf (ConfigMap.zeroType iSM 0) ≠ none)
    (member : iSM ∈ configuredManagers slave) :
    correctedType slave iSM ≠ some 0 := by
  intro type
  obtain ⟨direction, here⟩ := Option.ne_none_iff_exists'.mp repaired
  have configured : configuredDirection slave iSM = some direction := by
    rw [configuredDirection, type, Option.bind_some, here]
  have dumped := ((same iSM direction).mpr ⟨member, configured⟩).2
  rw [dumpedDirection, type] at dumped
  cases dumped

theorem SameDirections.usual {slave : CoeSlave} (same : SameDirections slave) :
    UsualTypes slave := by
  constructor
  · intro many
    cases here : dumpedDirection slave 8 with
    | none => rfl
    | some direction =>
        have member : 8 ∈ dumpedManagers slave := (mem_dumpedManagers slave 8).mpr (.inr ⟨many, rfl⟩)
        have inside := ((same 8 direction).mp ⟨member, here⟩).1
        have range := (mem_configuredManagers slave 8).mp inside
        simp at range
  · intro several
    apply same.correctedType_ne_zero (by decide)
    rw [mem_configuredManagers]
    simp only [UInt8.reduceToNat]
    omega
  · intro several
    apply same.correctedType_ne_zero (by decide)
    rw [mem_configuredManagers]
    simp only [UInt8.reduceToNat]
    omega

theorem UsualTypes.configuredDirection_eq {slave : CoeSlave} (usual : UsualTypes slave)
    {iSM : UInt8} (member : iSM ∈ configuredManagers slave) :
    configuredDirection slave iSM = dumpedDirection slave iSM := by
  have range := (mem_configuredManagers slave iSM).mp member
  apply WebserverEthercat.configuredDirection_eq
  rintro (rfl | rfl)
  · exact usual.sm2 range.2.1
  · exact usual.sm3 range.2.1

theorem UsualTypes.same_directions {slave : CoeSlave} (usual : UsualTypes slave) :
    SameDirections slave := by
  intro iSM direction
  constructor
  · rintro ⟨member, here⟩
    rcases (mem_dumpedManagers slave iSM).mp member with inside | ⟨many, rfl⟩
    · exact ⟨inside, (usual.configuredDirection_eq inside).trans here⟩
    · rw [usual.sm8 many] at here
      cases here
  · rintro ⟨inside, here⟩
    exact ⟨(mem_dumpedManagers slave iSM).mpr (.inl inside),
      (usual.configuredDirection_eq inside).symm.trans here⟩

/-- With usual types the dump adds up the bits that the configuration adds up. -/
theorem UsualTypes.same_bits {slave : CoeSlave} (usual : UsualTypes slave)
    (direction : Direction) :
    directionBits slave (dumpedDirection slave) direction (dumpedManagers slave) =
      directionBits slave (configuredDirection slave) direction (configuredManagers slave) := by
  have last : directionBits slave (dumpedDirection slave) direction (dumpedManagers slave) =
      directionBits slave (dumpedDirection slave) direction (configuredManagers slave) := by
    rw [dumpedManagers_split]
    split
    case isTrue many => simp [directionBits, List.filter_append, usual.sm8 many]
    case isFalse few => rw [List.append_nil]
  rw [last, directionBits, directionBits]
  congr 2
  apply List.filter_congr
  intro iSM member
  rw [usual.configuredDirection_eq member]

theorem sameMapping_iff {slave : CoeSlave} {dump : MapWalk} {config : ConfigMap}
    (dumped : dump.dumped = assignments (dumpedDirection slave) (dumpedManagers slave))
    (dumpBits : ∀ direction, dump.bitoffset direction =
      directionBits slave (dumpedDirection slave) direction (dumpedManagers slave))
    (assigned : config.assigned =
      assignments (configuredDirection slave) (configuredManagers slave))
    (configBits : ∀ direction, config.size direction =
      directionBits slave (configuredDirection slave) direction (configuredManagers slave)) :
    SameMapping dump config ↔ UsualTypes slave := by
  have managers : (∀ iSM direction,
      (iSM, direction) ∈ dump.dumped ↔ (iSM, direction) ∈ config.assigned) ↔
        SameDirections slave := by
    simp only [dumped, assigned, mem_assignments, SameDirections]
  constructor
  · intro same
    exact (managers.mp same.managers).usual
  · intro usual
    refine ⟨managers.mpr usual.same_directions, ?_⟩
    intro direction
    rw [dumpBits, configBits, usual.same_bits]

/-- The dump shows the sync managers and the sizes of the configuration exactly for usual
types. -/
theorem same_mapping_iff (slave : CoeSlave) (placement : Placement)
    (counts : ∀ (iSM : UInt8) (count : UInt16),
      slave.readU16 (ectSdoPdoAssign + iSM.toUInt16) 0 = some count → count ≤ 255) :
    ∃ dump config, siMapSdo slave placement = some dump ∧ ecxReadPdoMap slave = some config ∧
      (SameMapping dump config ↔ UsualTypes slave) := by
  have bounded : ∀ iSM : UInt8, Bounded slave (ectSdoPdoAssign + iSM.toUInt16) := by
    intro iSM endless
    exact absurd (counts iSM 65535 endless) (by decide)
  obtain ⟨dump, dumpRun, printed, dumpBits⟩ :=
    siMapSdo_eq slave placement fun iSM _ _ => bounded iSM
  obtain ⟨config, configRun, configured, configBits⟩ :=
    ecxReadPdoMap_eq slave fun iSM _ _ => bounded iSM
  have assigned : config.assigned =
      assignments (configuredDirection slave) (configuredManagers slave) := by
    rw [ConfigMap.assigned, configured, configuredSM_assignments]
  have dumped : dump.dumped = assignments (dumpedDirection slave) (dumpedManagers slave) := by
    rw [MapWalk.dumped, printed, ← dumpLines_assignments slave placement (dumpedManagers slave)]
    rfl
  exact ⟨dump, config, dumpRun, configRun, sameMapping_iff dumped dumpBits assigned configBits⟩

/-- A slave with the given SDO contents and an empty object description. -/
def CoeSlave.ofObjects (objects : List ((UInt16 × UInt8) × List UInt8)) : CoeSlave where
  sdo index subidx := objects.lookup (index, subidx)
  objectEntry _ _ := none

theorem CoeSlave.ofObjects_readU16 {objects : List ((UInt16 × UInt8) × List UInt8)}
    {index : UInt16} {subidx : UInt8} {value : UInt16}
    (read : (CoeSlave.ofObjects objects).readU16 index subidx = some value) :
    ∃ bytes, ((index, subidx), bytes) ∈ objects ∧ UInt16.ofNat (littleEndian bytes) = value := by
  obtain ⟨number, found, rfl⟩ := Option.map_eq_some_iff.mp read
  simp only [CoeSlave.ecSdoRead, CoeSlave.ofObjects] at found
  split at found
  case h_1 bytes here =>
    split at found
    · cases found
      obtain ⟨before, after, split, -⟩ := List.lookup_eq_some_iff.mp here
      exact ⟨bytes, by simp [split], rfl⟩
    · cases found
  case h_2 => cases found

/-- One output byte behind SM2, whose type is 0, and one input byte behind SM3. -/
def zeroTypeObjects : List ((UInt16 × UInt8) × List UInt8) :=
  [((0x1c00, 0), [4]), ((0x1c00, 1), [1]), ((0x1c00, 2), [2]), ((0x1c00, 3), [0]),
    ((0x1c00, 4), [4]),
    ((0x1c12, 0), [1, 0]), ((0x1c12, 1), [0, 0x16]),
    ((0x1600, 0), [1]), ((0x1600, 1), [8, 1, 0, 0x70]),
    ((0x1c13, 0), [1, 0]), ((0x1c13, 1), [0, 0x1a]),
    ((0x1a00, 0), [1]), ((0x1a00, 1), [8, 1, 0, 0x60])]

theorem same_mapping_iff_zeroType :
    ∃ dump config, siMapSdo (.ofObjects zeroTypeObjects) ⟨0, 1⟩ = some dump ∧
      ecxReadPdoMap (.ofObjects zeroTypeObjects) = some config ∧
      (SameMapping dump config ↔ UsualTypes (.ofObjects zeroTypeObjects)) := by
  apply same_mapping_iff
  intro iSM count read
  have small : ∀ object ∈ zeroTypeObjects, object.1.2 = 0 →
      UInt16.ofNat (littleEndian object.2) ≤ 255 := by decide
  obtain ⟨bytes, member, rfl⟩ := CoeSlave.ofObjects_readU16 read
  exact small _ member rfl

/-- The output byte is configured and not dumped. -/
theorem zero_type_not_dumped :
    ∃ dump config, siMapSdo (.ofObjects zeroTypeObjects) ⟨0, 1⟩ = some dump ∧
      ecxReadPdoMap (.ofObjects zeroTypeObjects) = some config ∧
      (2, .outputs) ∈ config.assigned ∧ (2, .outputs) ∉ dump.dumped ∧
      config.osize = 8 ∧ dump.outputsBo = 0 := by
  refine ⟨_, _, rfl, rfl, ?_, ?_, rfl, rfl⟩
  · decide
  · decide

end WebserverEthercat

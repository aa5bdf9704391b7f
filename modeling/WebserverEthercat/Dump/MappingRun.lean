import WebserverEthercat.Dump.Mapping

/-!
# The runs of `si_map_sdo` and `ecx_readPDOmap`

Each loop over the sync managers is followed to its end: which of them it takes
for outputs or inputs, how many bits it adds up, and what the dump prints.
-/

set_option autoImplicit false

namespace WebserverEthercat

/-! ## The directions and the bits of the sync managers -/

/-- `SMt_bug_add` behind SM2, whose type is subindex 3. -/
def CoeSlave.bugAdd (slave : CoeSlave) : UInt8 :=
  if slave.readU8 ectSdoSmCommType 3 = some 2 then 1 else 0

def correctedType (slave : CoeSlave) (iSM : UInt8) : Option UInt8 :=
  (slave.readU8 ectSdoSmCommType (iSM + 1)).map fun tSM =>
    if tSM ≠ 0 then tSM + slave.bugAdd else tSM

def dumpedDirection (slave : CoeSlave) (iSM : UInt8) : Option Direction :=
  (correctedType slave iSM).bind directionOf

def configuredDirection (slave : CoeSlave) (iSM : UInt8) : Option Direction :=
  (correctedType slave iSM).bind fun tSM => directionOf (ConfigMap.zeroType iSM tSM)

/-- What `ecx_readPDOmap` stores about a sync manager whose type it can read. -/
def configuredSM (slave : CoeSlave) (iSM : UInt8) : Option ConfiguredSM :=
  (correctedType slave iSM).map fun tSM =>
    { iSM
      tSM := ConfigMap.zeroType iSM tSM
      tsize := if configuredDirection slave iSM = none then 0
        else bits (mappedEntries slave (ectSdoPdoAssign + iSM.toUInt16)) }

def assignedEntries (slave : CoeSlave) (iSM : UInt8) : List MappedEntry :=
  mappedEntries slave (ectSdoPdoAssign + iSM.toUInt16)

def assignedBits (slave : CoeSlave) (iSM : UInt8) : Nat := bits (assignedEntries slave iSM)

/-- The bits of the given sync managers that belong to a direction. -/
def directionBits (slave : CoeSlave) (directionAt : UInt8 → Option Direction)
    (direction : Direction) (managers : List UInt8) : Nat :=
  ((managers.filter fun iSM => directionAt iSM = some direction).map (assignedBits slave)).sum

def assignments (directionAt : UInt8 → Option Direction) (managers : List UInt8) :
    List (UInt8 × Direction) :=
  managers.filterMap fun iSM => (directionAt iSM).map fun direction => (iSM, direction)

def MapLine.assignment : MapLine → Option (UInt8 × Direction)
  | .heading iSM direction => some (iSM, direction)
  | .title | .workaround | .row _ => none

/-- The sync managers that the dump has a heading for. -/
def MapWalk.dumped (walk : MapWalk) : List (UInt8 × Direction) :=
  walk.printed.filterMap MapLine.assignment

def ConfiguredSM.assignment (sm : ConfiguredSM) : Option (UInt8 × Direction) :=
  (directionOf sm.tSM).map fun direction => (sm.iSM, direction)

/-- The sync managers that the slave is configured to exchange. -/
def ConfigMap.assigned (config : ConfigMap) : List (UInt8 × Direction) :=
  config.configured.filterMap ConfiguredSM.assignment

/-- What the dump prints about a sync manager, from the offsets reached before it. -/
def managerLines (slave : CoeSlave) (placement : Placement) (bitoffset : Direction → Int)
    (iSM : UInt8) : List MapLine :=
  (if iSM = 2 ∧ slave.readU8 ectSdoSmCommType 3 = some 2 then [.workaround] else []) ++
    match dumpedDirection slave iSM with
    | some direction =>
        .heading iSM direction :: (mappedRows slave (placement.mapoffset direction)
          (bitoffset direction) (assignedEntries slave iSM)).map .row
    | none => []

/-! ## One sync manager -/

/-- `SMt_bug_add` in front of a sync manager. -/
def CoeSlave.bugAddBefore (slave : CoeSlave) (iSM : UInt8) : UInt8 :=
  if iSM = 2 then 0 else slave.bugAdd

theorem bugAddBefore_unread {slave : CoeSlave} {iSM : UInt8}
    (unread : slave.readU8 ectSdoSmCommType (iSM + 1) = none) :
    slave.bugAddBefore iSM = slave.bugAdd := by
  by_cases second : iSM = 2
  · subst second
    have none : slave.readU8 ectSdoSmCommType 3 = none := unread
    simp [CoeSlave.bugAddBefore, CoeSlave.bugAdd, none]
  · simp [CoeSlave.bugAddBefore, second]

theorem workaround_eq (slave : CoeSlave) {iSM tSM : UInt8}
    (type : slave.readU8 ectSdoSmCommType (iSM + 1) = some tSM) :
    workaround iSM tSM (slave.bugAddBefore iSM) =
      (if tSM ≠ 0 then tSM + slave.bugAdd else tSM, slave.bugAdd) := by
  have bugAdd : (if iSM = 2 ∧ tSM = 2 then 1 else slave.bugAddBefore iSM) = slave.bugAdd := by
    by_cases second : iSM = 2
    · subst second
      have read : slave.readU8 ectSdoSmCommType 3 = some tSM := type
      simp [CoeSlave.bugAddBefore, CoeSlave.bugAdd, read]
    · simp [CoeSlave.bugAddBefore, second]
  simp only [workaround, bugAdd]

structure MapWalk.Dumped (slave : CoeSlave) (placement : Placement) (iSM : UInt8)
    (walk after : MapWalk) : Prop where
  bugAdd : after.smtBugAdd = slave.bugAdd
  printed : after.printed = walk.printed ++ managerLines slave placement walk.bitoffset iSM
  bitoffset : ∀ direction, after.bitoffset direction =
    walk.bitoffset direction + directionBits slave (dumpedDirection slave) direction [iSM]

theorem MapWalk.advance_bitoffset (walk : MapWalk) (tsize : Int) (direction other : Direction) :
    (walk.advance tsize direction).bitoffset other =
      walk.bitoffset other + if direction = other then tsize else 0 := by
  cases direction <;> cases other <;> simp [MapWalk.advance, MapWalk.bitoffset]

@[simp] theorem MapWalk.print_bitoffset (walk : MapWalk) (lines : List MapLine) :
    (walk.print lines).bitoffset = walk.bitoffset := by
  funext direction
  cases direction <;> rfl

@[simp] theorem MapWalk.advance_printed (walk : MapWalk) (tsize : Int) (direction : Direction) :
    (walk.advance tsize direction).printed = walk.printed := by
  cases direction <;> rfl

@[simp] theorem MapWalk.advance_smtBugAdd (walk : MapWalk) (tsize : Int)
    (direction : Direction) : (walk.advance tsize direction).smtBugAdd = walk.smtBugAdd := by
  cases direction <;> rfl

theorem directionBits_single (slave : CoeSlave) (directionAt : UInt8 → Option Direction)
    (direction : Direction) (iSM : UInt8) :
    directionBits slave directionAt direction [iSM] =
      if directionAt iSM = some direction then assignedBits slave iSM else 0 := by
  by_cases here : directionAt iSM = some direction <;> simp [directionBits, here]

theorem MapWalk.dump_eq {slave : CoeSlave} {iSM : UInt8}
    (bounded : Bounded slave (ectSdoPdoAssign + iSM.toUInt16)) (placement : Placement)
    (direction : Direction) (walk : MapWalk) :
    walk.dump slave placement iSM direction =
      some ((walk.print (.heading iSM direction :: (mappedRows slave
        (placement.mapoffset direction) (walk.bitoffset direction)
        (assignedEntries slave iSM)).map .row)).advance (assignedBits slave iSM) direction) := by
  rw [MapWalk.dump, siPdoAssign_eq bounded]
  rfl

theorem warned_printed (walk : MapWalk) (warns : Prop) [Decidable warns] :
    (if warns then walk.print [.workaround] else walk).printed =
        walk.printed ++ (if warns then [.workaround] else []) ∧
      (if warns then walk.print [.workaround] else walk).bitoffset = walk.bitoffset := by
  split
  · exact ⟨rfl, walk.print_bitoffset _⟩
  · simp

theorem MapWalk.syncManager_dumped (slave : CoeSlave) (placement : Placement) {walk : MapWalk}
    {iSM : UInt8} (ready : walk.smtBugAdd = slave.bugAddBefore iSM)
    (bounded : dumpedDirection slave iSM ≠ none →
      Bounded slave (ectSdoPdoAssign + iSM.toUInt16)) :
    ∃ after, walk.syncManager slave placement iSM = some after ∧
      MapWalk.Dumped slave placement iSM walk after := by
  unfold MapWalk.syncManager
  cases type : slave.readU8 ectSdoSmCommType (iSM + 1) with
  | none =>
      have unknown : dumpedDirection slave iSM = none := by
        simp [dumpedDirection, correctedType, type]
      have quiet : ¬ (iSM = 2 ∧ slave.readU8 ectSdoSmCommType 3 = some 2) := by
        rintro ⟨rfl, read⟩
        exact absurd (type.symm.trans read) (by simp)
      refine ⟨walk, rfl, ?_, ?_, ?_⟩
      · rw [ready, bugAddBefore_unread type]
      · simp [managerLines, unknown, quiet]
      · intro direction
        simp [directionBits_single, unknown]
  | some tSM =>
      have warns : (iSM = 2 ∧ tSM = 2) ↔
          (iSM = 2 ∧ slave.readU8 ectSdoSmCommType 3 = some 2) := by
        constructor
        · rintro ⟨rfl, rfl⟩
          exact ⟨rfl, type⟩
        · rintro ⟨rfl, read⟩
          exact ⟨rfl, Option.some.inj (type.symm.trans read)⟩
      have known : directionOf (if tSM ≠ 0 then tSM + slave.bugAdd else tSM) =
          dumpedDirection slave iSM := by
        simp [dumpedDirection, correctedType, type]
      simp only [ready, workaround_eq slave type, known, warns]
      obtain ⟨lines, offsets⟩ := warned_printed walk
        (iSM = 2 ∧ slave.readU8 ectSdoSmCommType 3 = some 2)
      generalize (if iSM = 2 ∧ slave.readU8 ectSdoSmCommType 3 = some 2 then
        walk.print [.workaround] else walk) = warned at lines offsets
      have kept : ({ warned with smtBugAdd := slave.bugAdd } : MapWalk).bitoffset =
          warned.bitoffset := by
        funext direction
        cases direction <;> rfl
      cases here : dumpedDirection slave iSM with
      | none =>
          refine ⟨_, rfl, rfl, ?_, ?_⟩
          · simp only [managerLines, here, List.append_nil, lines]
          · intro direction
            simp only [directionBits_single, here, reduceCtorEq, if_false, kept, offsets,
              Nat.cast_zero, Int.add_zero]
      | some own =>
          have ends := bounded (here ▸ Option.some_ne_none own)
          refine ⟨_, MapWalk.dump_eq ends placement own _, ?_, ?_, ?_⟩
          · rw [MapWalk.advance_smtBugAdd]
            rfl
          · rw [MapWalk.advance_printed, kept, offsets]
            simp only [MapWalk.print, lines, managerLines, here, List.append_assoc]
          · intro direction
            rw [MapWalk.advance_bitoffset, MapWalk.print_bitoffset, kept, offsets,
              directionBits_single, here]
            simp only [Option.some.injEq, Nat.cast_ite, Nat.cast_zero]

/-! ## The whole loop -/

/-- What is printed about the managers, one after the other. -/
def dumpLines (slave : CoeSlave) (placement : Placement) :
    (Direction → Int) → List UInt8 → List MapLine
  | _, [] => []
  | bitoffset, iSM :: rest =>
      managerLines slave placement bitoffset iSM ++
        dumpLines slave placement (fun direction => bitoffset direction +
          directionBits slave (dumpedDirection slave) direction [iSM]) rest

theorem directionBits_cons (slave : CoeSlave) (directionAt : UInt8 → Option Direction)
    (direction : Direction) (iSM : UInt8) (rest : List UInt8) :
    directionBits slave directionAt direction (iSM :: rest) =
      directionBits slave directionAt direction [iSM] +
        directionBits slave directionAt direction rest := by
  simp only [directionBits, List.filter_cons]
  split <;> simp

/-- `SMt_bug_add` when a loop over the managers starts: only the first one can be SM2. -/
structure Starts (slave : CoeSlave) (managers : List UInt8) (smtBugAdd : UInt8) : Prop where
  first : ∀ iSM, managers.head? = some iSM → smtBugAdd = slave.bugAddBefore iSM
  later : 2 ∉ managers.tail

theorem Starts.tail {slave : CoeSlave} {iSM smtBugAdd : UInt8} {rest : List UInt8}
    (starts : Starts slave (iSM :: rest) smtBugAdd) : Starts slave rest slave.bugAdd := by
  have without : 2 ∉ rest := starts.later
  constructor
  · intro other head
    have different : other ≠ 2 := by
      intro second
      exact without (second ▸ List.mem_of_mem_head? head)
    rw [CoeSlave.bugAddBefore, if_neg different]
  · exact fun second => without (List.mem_of_mem_tail second)

theorem syncManagers_starts (slave : CoeSlave) {last : Nat} (small : last ≤ 8) :
    Starts slave (syncManagers last) 0 := by
  have cases : last = 0 ∨ last = 1 ∨ last = 2 ∨ last = 3 ∨ last = 4 ∨ last = 5 ∨ last = 6 ∨
      last = 7 ∨ last = 8 := by omega
  constructor
  · intro iSM head
    obtain rfl : iSM = 2 := by
      rcases cases with rfl | rfl | rfl | rfl | rfl | rfl | rfl | rfl | rfl <;>
        simp [syncManagers, List.range'] at head <;> exact head.symm
    rfl
  · rcases cases with rfl | rfl | rfl | rfl | rfl | rfl | rfl | rfl | rfl <;> decide

theorem foldlM_dumped (slave : CoeSlave) (placement : Placement) (managers : List UInt8) :
    ∀ walk : MapWalk, Starts slave managers walk.smtBugAdd →
      (∀ iSM ∈ managers, dumpedDirection slave iSM ≠ none →
        Bounded slave (ectSdoPdoAssign + iSM.toUInt16)) →
      ∃ after, managers.foldlM (MapWalk.syncManager slave placement) walk = some after ∧
        after.printed = walk.printed ++ dumpLines slave placement walk.bitoffset managers ∧
        ∀ direction, after.bitoffset direction = walk.bitoffset direction +
          directionBits slave (dumpedDirection slave) direction managers := by
  induction managers with
  | nil =>
      intro walk _ _
      exact ⟨walk, rfl, by simp [dumpLines], by simp [directionBits]⟩
  | cons iSM rest ih =>
      intro walk starts bounded
      obtain ⟨next, step, one⟩ := MapWalk.syncManager_dumped slave placement
        (starts.first iSM rfl) (bounded iSM List.mem_cons_self)
      obtain ⟨after, run, printed, offsets⟩ := ih next (one.bugAdd ▸ starts.tail)
        (fun other member => bounded other (List.mem_cons_of_mem _ member))
      have base : next.bitoffset = fun direction => walk.bitoffset direction +
          directionBits slave (dumpedDirection slave) direction [iSM] :=
        funext one.bitoffset
      refine ⟨after, ?_, ?_, ?_⟩
      · rw [List.foldlM_cons, step]
        exact run
      · rw [printed, one.printed, base, dumpLines, List.append_assoc]
      · intro direction
        have sum := directionBits_cons slave (dumpedDirection slave) direction iSM rest
        rw [offsets, one.bitoffset]
        omega

structure ConfigMap.Configured (slave : CoeSlave) (managers : List UInt8)
    (config after : ConfigMap) : Prop where
  configured : after.configured = config.configured ++ managers.filterMap (configuredSM slave)
  size : ∀ direction, after.size direction =
    config.size direction + directionBits slave (configuredDirection slave) direction managers

theorem ConfigMap.syncManager_configured (slave : CoeSlave) {config : ConfigMap} {iSM : UInt8}
    (ready : config.smtBugAdd = slave.bugAddBefore iSM)
    (bounded : configuredDirection slave iSM ≠ none →
      Bounded slave (ectSdoPdoAssign + iSM.toUInt16)) :
    ∃ after, config.syncManager slave iSM = some after ∧ after.smtBugAdd = slave.bugAdd ∧
      ConfigMap.Configured slave [iSM] config after := by
  unfold ConfigMap.syncManager
  cases type : slave.readU8 ectSdoSmCommType (iSM + 1) with
  | none =>
      have unknown : configuredDirection slave iSM = none := by
        simp [configuredDirection, correctedType, type]
      refine ⟨config, rfl, ready.trans (bugAddBefore_unread type), ?_, ?_⟩
      · simp [configuredSM, correctedType, type]
      · intro direction
        simp [directionBits_single, unknown]
  | some tSM =>
      simp only [ready, workaround_eq slave type]
      generalize corrected : zeroType iSM (if tSM ≠ 0 then tSM + slave.bugAdd else tSM) = own
      have known : configuredDirection slave iSM = directionOf own := by
        rw [← corrected]
        simp [configuredDirection, correctedType, type]
      have stored : configuredSM slave iSM = some ⟨iSM, own,
          if directionOf own = none then 0 else assignedBits slave iSM⟩ := by
        simp only [configuredSM, correctedType, type, Option.map_some, corrected, known]
        rfl
      cases here : directionOf own with
      | none =>
          refine ⟨_, rfl, rfl, ?_, ?_⟩
          · rw [List.filterMap_cons_some stored, here]
            rfl
          · intro direction
            rw [directionBits_single, known, here]
            cases direction <;> simp [ConfigMap.size, ConfigMap.configure]
      | some direction =>
          have bound : ecxReadPdoAssign slave (ectSdoPdoAssign + iSM.toUInt16) =
              some (assignedBits slave iSM) :=
            ecxReadPdoAssign_eq (bounded (by simp [known, here]))
          simp only [bound, Option.map_some]
          refine ⟨_, rfl, ?_, ?_, ?_⟩
          · cases direction <;> rfl
          · rw [List.filterMap_cons_some stored, here]
            cases direction <;> rfl
          · intro other
            rw [directionBits_single, known, here]
            cases direction <;> cases other <;>
              simp [ConfigMap.size, ConfigMap.configure, ConfigMap.advance]

theorem foldlM_configured (slave : CoeSlave) (managers : List UInt8) :
    ∀ config : ConfigMap, Starts slave managers config.smtBugAdd →
      (∀ iSM ∈ managers, configuredDirection slave iSM ≠ none →
        Bounded slave (ectSdoPdoAssign + iSM.toUInt16)) →
      ∃ after, managers.foldlM (ConfigMap.syncManager slave) config = some after ∧
        ConfigMap.Configured slave managers config after := by
  induction managers with
  | nil =>
      intro config _ _
      exact ⟨config, rfl, by simp, by simp [directionBits]⟩
  | cons iSM rest ih =>
      intro config starts bounded
      obtain ⟨next, step, bugAdd, one⟩ := ConfigMap.syncManager_configured slave
        (starts.first iSM rfl) (bounded iSM List.mem_cons_self)
      obtain ⟨after, run, more⟩ := ih next (bugAdd ▸ starts.tail)
        (fun other member => bounded other (List.mem_cons_of_mem _ member))
      refine ⟨after, ?_, ?_, ?_⟩
      · rw [List.foldlM_cons, step]
        exact run
      · rw [more.configured, one.configured, List.append_assoc]
        congr 1
        exact List.filterMap_append.symm
      · intro direction
        have sum := directionBits_cons slave (configuredDirection slave) direction iSM rest
        rw [more.size, one.size]
        omega

/-! ## The two functions -/

/-- The number of types in object 0x1C00. -/
def CoeSlave.typeCount (slave : CoeSlave) : Nat :=
  ((slave.readU8 ectSdoSmCommType 0).getD 0).toNat

theorem dumpedManagers_eq (slave : CoeSlave) :
    dumpedManagers slave = syncManagers (min (slave.typeCount - 1) 8) := by
  unfold dumpedManagers CoeSlave.typeCount
  cases slave.readU8 ectSdoSmCommType 0 with
  | none => rfl
  | some nSM =>
      simp only [Option.getD_some]
      split
      case isTrue several =>
        congr 1
        simp only [gt_iff_lt, UInt8.lt_iff_toNat_lt, UInt8.reduceToNat] at several
        have pred : (nSM - 1).toNat = nSM.toNat - 1 := by
          apply UInt8.toNat_sub_of_le
          simp only [UInt8.le_iff_toNat_le, UInt8.reduceToNat]
          omega
        split
        case isTrue many =>
          simp only [gt_iff_lt, ecMaxSM, UInt8.lt_iff_toNat_lt, pred, UInt8.reduceToNat]
            at many ⊢
          omega
        case isFalse few =>
          simp only [gt_iff_lt, ecMaxSM, UInt8.lt_iff_toNat_lt, pred, UInt8.reduceToNat]
            at few ⊢
          omega
      case isFalse few =>
        simp only [gt_iff_lt, UInt8.lt_iff_toNat_lt, UInt8.reduceToNat] at few
        have none : min (nSM.toNat - 1) 8 - 1 = 0 := by omega
        simp [syncManagers, none]

theorem configuredManagers_eq (slave : CoeSlave) :
    configuredManagers slave = syncManagers (min slave.typeCount 8 - 1) := by
  unfold configuredManagers CoeSlave.typeCount
  cases slave.readU8 ectSdoSmCommType 0 with
  | none => rfl
  | some nSM =>
      simp only [Option.getD_some]
      split
      case isTrue several =>
        congr 2
        split
        case isTrue many =>
          simp only [gt_iff_lt, ecMaxSM, UInt8.lt_iff_toNat_lt, UInt8.reduceToNat] at many ⊢
          omega
        case isFalse few =>
          simp only [gt_iff_lt, ecMaxSM, UInt8.lt_iff_toNat_lt, UInt8.reduceToNat] at few ⊢
          omega
      case isFalse few =>
        simp only [gt_iff_lt, UInt8.lt_iff_toNat_lt, UInt8.reduceToNat] at few
        have none : min nSM.toNat 8 - 1 - 1 = 0 := by omega
        simp [syncManagers, none]

theorem mem_syncManagers {last : Nat} (small : last ≤ 8) {iSM : UInt8} :
    iSM ∈ syncManagers last ↔ 2 ≤ iSM.toNat ∧ iSM.toNat ≤ last := by
  simp only [syncManagers, List.mem_map, List.mem_range'_1]
  constructor
  · rintro ⟨number, ⟨low, high⟩, rfl⟩
    rw [UInt8.toNat_ofNat']
    omega
  · rintro ⟨low, high⟩
    exact ⟨iSM.toNat, by omega, UInt8.ofNat_toNat⟩

theorem mem_assignments {directionAt : UInt8 → Option Direction} {managers : List UInt8}
    {iSM : UInt8} {direction : Direction} :
    (iSM, direction) ∈ assignments directionAt managers ↔
      iSM ∈ managers ∧ directionAt iSM = some direction := by
  simp only [assignments, List.mem_filterMap, Option.map_eq_some_iff, Prod.mk.injEq]
  constructor
  · rintro ⟨other, member, found, here, rfl, rfl⟩
    exact ⟨member, here⟩
  · rintro ⟨member, here⟩
    exact ⟨iSM, member, direction, here, rfl, rfl⟩

theorem managerLines_assignments (slave : CoeSlave) (placement : Placement)
    (bitoffset : Direction → Int) (iSM : UInt8) :
    (managerLines slave placement bitoffset iSM).filterMap MapLine.assignment =
      assignments (dumpedDirection slave) [iSM] := by
  have warning : ((if iSM = 2 ∧ slave.readU8 ectSdoSmCommType 3 = some 2 then [.workaround]
      else [] : List MapLine)).filterMap MapLine.assignment = [] := by
    split <;> rfl
  have rows : ∀ printed : List PdoRow,
      (printed.map MapLine.row).filterMap MapLine.assignment = [] := by
    intro printed
    rw [List.filterMap_map]
    exact List.filterMap_eq_nil_iff.mpr fun _ _ => rfl
  rw [managerLines, List.filterMap_append, warning, List.nil_append]
  cases here : dumpedDirection slave iSM with
  | none => simp [assignments, here]
  | some direction => simp [assignments, here, MapLine.assignment, rows]

theorem dumpLines_assignments (slave : CoeSlave) (placement : Placement)
    (managers : List UInt8) : ∀ bitoffset : Direction → Int,
      (dumpLines slave placement bitoffset managers).filterMap MapLine.assignment =
        assignments (dumpedDirection slave) managers := by
  induction managers with
  | nil => exact fun _ => rfl
  | cons iSM rest ih =>
      intro bitoffset
      rw [dumpLines, List.filterMap_append, ih, managerLines_assignments]
      exact List.filterMap_append.symm

theorem configuredSM_assignments (slave : CoeSlave) (managers : List UInt8) :
    (managers.filterMap (configuredSM slave)).filterMap ConfiguredSM.assignment =
      assignments (configuredDirection slave) managers := by
  rw [List.filterMap_filterMap, assignments]
  apply List.filterMap_congr
  intro iSM _
  cases type : correctedType slave iSM <;>
    simp [configuredSM, configuredDirection, type, ConfiguredSM.assignment]

theorem dumpedManagers_starts (slave : CoeSlave) : Starts slave (dumpedManagers slave) 0 := by
  rw [dumpedManagers_eq]
  exact syncManagers_starts slave (Nat.min_le_right _ _)

theorem configuredManagers_starts (slave : CoeSlave) :
    Starts slave (configuredManagers slave) 0 := by
  rw [configuredManagers_eq]
  exact syncManagers_starts slave (by omega)

theorem siMapSdo_eq (slave : CoeSlave) (placement : Placement)
    (bounded : ∀ iSM ∈ dumpedManagers slave, dumpedDirection slave iSM ≠ none →
      Bounded slave (ectSdoPdoAssign + iSM.toUInt16)) :
    ∃ dump, siMapSdo slave placement = some dump ∧
      dump.printed = .title :: dumpLines slave placement (fun _ => 0) (dumpedManagers slave) ∧
      ∀ direction, dump.bitoffset direction =
        directionBits slave (dumpedDirection slave) direction (dumpedManagers slave) := by
  have starts := dumpedManagers_starts slave
  obtain ⟨dump, run, printed, offsets⟩ := foldlM_dumped slave placement (dumpedManagers slave)
    { smtBugAdd := 0, outputsBo := 0, inputsBo := 0, printed := [.title] } starts bounded
  have base : MapWalk.bitoffset
      { smtBugAdd := 0, outputsBo := 0, inputsBo := 0, printed := [.title] } = fun _ => 0 := by
    funext direction
    cases direction <;> rfl
  rw [base] at printed offsets
  exact ⟨dump, run, printed, fun direction => (offsets direction).trans (Int.zero_add _)⟩

theorem ecxReadPdoMap_eq (slave : CoeSlave)
    (bounded : ∀ iSM ∈ configuredManagers slave, configuredDirection slave iSM ≠ none →
      Bounded slave (ectSdoPdoAssign + iSM.toUInt16)) :
    ∃ config, ecxReadPdoMap slave = some config ∧
      config.configured = (configuredManagers slave).filterMap (configuredSM slave) ∧
      ∀ direction, config.size direction =
        directionBits slave (configuredDirection slave) direction (configuredManagers slave) := by
  have starts := configuredManagers_starts slave
  obtain ⟨config, run, configured⟩ := foldlM_configured slave (configuredManagers slave)
    { smtBugAdd := 0, osize := 0, isize := 0, configured := [] } starts bounded
  refine ⟨config, run, configured.configured, ?_⟩
  intro direction
  rw [configured.size]
  cases direction <;> exact Nat.zero_add _

/-! ## Calls that return -/

theorem bounded_of_syncManager {slave : CoeSlave} {placement : Placement} {walk after : MapWalk}
    {iSM : UInt8} (ready : walk.smtBugAdd = slave.bugAddBefore iSM)
    (returned : walk.syncManager slave placement iSM = some after)
    (direction : dumpedDirection slave iSM ≠ none) :
    Bounded slave (ectSdoPdoAssign + iSM.toUInt16) := by
  by_contra unbounded
  obtain ⟨own, here⟩ := Option.ne_none_iff_exists'.mp direction
  unfold MapWalk.syncManager at returned
  cases type : slave.readU8 ectSdoSmCommType (iSM + 1) with
  | none => simp [dumpedDirection, correctedType, type] at here
  | some tSM =>
      have known : directionOf (if tSM ≠ 0 then tSM + slave.bugAdd else tSM) = some own := by
        rw [← here]
        simp [dumpedDirection, correctedType, type]
      simp only [type, ready, workaround_eq slave type, known, MapWalk.dump,
        siPdoAssign_eq_none unbounded, Option.map_none] at returned
      cases returned

/-- A loop over the sync managers whose steps succeed only on bounded assignments. -/
theorem bounded_of_loop {Walk : Type} {slave : CoeSlave} (bugAdd : Walk → UInt8)
    {step : Walk → UInt8 → Option Walk} {direction : UInt8 → Option Direction}
    (one : ∀ walk after iSM, bugAdd walk = slave.bugAddBefore iSM → step walk iSM = some after →
      (direction iSM ≠ none → Bounded slave (ectSdoPdoAssign + iSM.toUInt16)) ∧
        bugAdd after = slave.bugAdd)
    (managers : List UInt8) :
    ∀ walk after : Walk, Starts slave managers (bugAdd walk) →
      managers.foldlM step walk = some after →
      ∀ iSM ∈ managers, direction iSM ≠ none →
        Bounded slave (ectSdoPdoAssign + iSM.toUInt16) := by
  induction managers with
  | nil =>
      intro walk after _ _ iSM member
      cases member
  | cons iSM rest ih =>
      intro walk after starts returned
      obtain ⟨next, step, later⟩ := Option.bind_eq_some_iff.mp returned
      obtain ⟨bounded, fixed⟩ := one walk next iSM (starts.first iSM rfl) step
      intro other member
      rcases List.mem_cons.mp member with rfl | inside
      · exact bounded
      · exact ih next after (fixed ▸ starts.tail) later other inside

theorem bounded_of_dumpedRun (slave : CoeSlave) (placement : Placement) {managers : List UInt8}
    {walk after : MapWalk} (starts : Starts slave managers walk.smtBugAdd)
    (returned : managers.foldlM (MapWalk.syncManager slave placement) walk = some after) :
    ∀ iSM ∈ managers, dumpedDirection slave iSM ≠ none →
      Bounded slave (ectSdoPdoAssign + iSM.toUInt16) := by
  refine bounded_of_loop MapWalk.smtBugAdd ?_ managers walk after starts returned
  intro walk after iSM ready step
  have bounded := bounded_of_syncManager ready step
  obtain ⟨same, again, one⟩ := MapWalk.syncManager_dumped slave placement ready bounded
  cases Option.some.inj (step.symm.trans again)
  exact ⟨bounded, one.bugAdd⟩

theorem siMapSdo_returned {slave : CoeSlave} {placement : Placement} {dump : MapWalk}
    (returned : siMapSdo slave placement = some dump) :
    dump.printed = .title :: dumpLines slave placement (fun _ => 0) (dumpedManagers slave) := by
  obtain ⟨same, again, printed, -⟩ := siMapSdo_eq slave placement
    (bounded_of_dumpedRun slave placement (dumpedManagers_starts slave) returned)
  cases Option.some.inj (returned.symm.trans again)
  exact printed

end WebserverEthercat

import WebserverEthercat.Dump.PdoAssign

/-!
# The sync managers of a CoE slave

`si_map_sdo` prints the assignments that `ecx_readPDOmap` has configured the
slave with.  Both read the types of the sync managers from object 0x1C00 and
correct the ones that slaves are known to get wrong.
-/

set_option autoImplicit false

namespace WebserverEthercat

def ecMaxSM : UInt8 := 8

inductive Direction where
  | outputs
  | inputs
deriving DecidableEq, Repr

/-- Type 3 is outputs, type 4 is inputs. -/
def directionOf (tSM : UInt8) : Option Direction :=
  if tSM = 3 then some .outputs else if tSM = 4 then some .inputs else none

/-- The workaround for types 0 1 2 3 that should be 1 2 3 4: the corrected type
and the new `SMt_bug_add`. -/
def workaround (iSM tSM smtBugAdd : UInt8) : UInt8 × UInt8 :=
  let smtBugAdd := if iSM = 2 ∧ tSM = 2 then 1 else smtBugAdd
  (if tSM ≠ 0 then tSM + smtBugAdd else tSM, smtBugAdd)

/-- The sync managers 2, 3, .. up to the last, which is at most `EC_MAXSM`. -/
def syncManagers (last : Nat) : List UInt8 := (List.range' 2 (last - 1)).map UInt8.ofNat

/-! ## `si_map_sdo` -/

/-- The byte offsets of `ec_slave[slave].outputs` and `inputs` in the IOmap. -/
structure Placement where
  outputs : Int
  inputs : Int
deriving DecidableEq, Repr

def Placement.mapoffset (placement : Placement) : Direction → Int
  | .outputs => placement.outputs
  | .inputs => placement.inputs

inductive MapLine where
  /-- `PDO mapping according to CoE :\n` -/
  | title
  /-- `Activated SM type workaround, possible incorrect mapping.\n` -/
  | workaround
  /-- `  SM%1d outputs\n` or `inputs`, and the line of column titles -/
  | heading (iSM : UInt8) (direction : Direction)
  | row (row : PdoRow)
deriving DecidableEq, Repr

structure MapWalk where
  smtBugAdd : UInt8
  outputsBo : Int
  inputsBo : Int
  printed : List MapLine
deriving DecidableEq, Repr

namespace MapWalk

def bitoffset (walk : MapWalk) : Direction → Int
  | .outputs => walk.outputsBo
  | .inputs => walk.inputsBo

def advance (walk : MapWalk) (tsize : Int) : Direction → MapWalk
  | .outputs => { walk with outputsBo := walk.outputsBo + tsize }
  | .inputs => { walk with inputsBo := walk.inputsBo + tsize }

def print (walk : MapWalk) (lines : List MapLine) : MapWalk :=
  { walk with printed := walk.printed ++ lines }

/-- The heading and the assignment of a sync manager. -/
def dump (slave : CoeSlave) (placement : Placement) (iSM : UInt8) (direction : Direction)
    (walk : MapWalk) : Option MapWalk :=
  (siPdoAssign slave (ectSdoPdoAssign + iSM.toUInt16) (placement.mapoffset direction)
    (walk.bitoffset direction)).map fun assigned =>
      (walk.print (.heading iSM direction :: assigned.printed.map .row)).advance assigned.bsize
        direction

def syncManager (slave : CoeSlave) (placement : Placement) (walk : MapWalk) (iSM : UInt8) :
    Option MapWalk :=
  match slave.readU8 ectSdoSmCommType (iSM + 1) with
  | none => some walk
  | some tSM =>
      let corrected := WebserverEthercat.workaround iSM tSM walk.smtBugAdd
      let warned :=
        if iSM = 2 ∧ tSM = 2 then walk.print [.workaround] else walk
      let next := { warned with smtBugAdd := corrected.2 }
      match directionOf corrected.1 with
      | some direction => next.dump slave placement iSM direction
      | none => some next

end MapWalk

/-- `nSM--` comes before the limit, and the loop includes `nSM`. -/
def dumpedManagers (slave : CoeSlave) : List UInt8 :=
  match slave.readU8 ectSdoSmCommType 0 with
  | none => []
  | some nSM =>
      if nSM > 2 then
        let nSM := nSM - 1
        syncManagers (if nSM > ecMaxSM then ecMaxSM else nSM).toNat
      else []

/-- `none` is a call that does not return. -/
def siMapSdo (slave : CoeSlave) (placement : Placement) : Option MapWalk :=
  (dumpedManagers slave).foldlM (MapWalk.syncManager slave placement)
    { smtBugAdd := 0, outputsBo := 0, inputsBo := 0, printed := [.title] }

/-! ## `ecx_readPDOmap` -/

/-- `SMtype[iSM]` and, for outputs and inputs, the bits that `SMlength` is rounded up from. -/
structure ConfiguredSM where
  iSM : UInt8
  tSM : UInt8
  tsize : Nat
deriving DecidableEq, Repr

structure ConfigMap where
  smtBugAdd : UInt8
  osize : Nat
  isize : Nat
  configured : List ConfiguredSM
deriving DecidableEq, Repr

namespace ConfigMap

def size (config : ConfigMap) : Direction → Nat
  | .outputs => config.osize
  | .inputs => config.isize

def advance (config : ConfigMap) (tsize : Nat) : Direction → ConfigMap
  | .outputs => { config with osize := config.osize + tsize }
  | .inputs => { config with isize := config.isize + tsize }

def configure (config : ConfigMap) (iSM tSM : UInt8) (tsize : Nat) : ConfigMap :=
  { config with configured := config.configured ++ [{ iSM, tSM, tsize }] }

/-- Type 0 of SM2 and SM3, another bug of slaves. -/
def zeroType (iSM tSM : UInt8) : UInt8 :=
  if iSM = 2 ∧ tSM = 0 then 3 else if iSM = 3 ∧ tSM = 0 then 4 else tSM

def syncManager (slave : CoeSlave) (config : ConfigMap) (iSM : UInt8) : Option ConfigMap :=
  match slave.readU8 ectSdoSmCommType (iSM + 1) with
  | none => some config
  | some tSM =>
      let corrected := workaround iSM tSM config.smtBugAdd
      let tSM := zeroType iSM corrected.1
      let next := { config with smtBugAdd := corrected.2 }
      match directionOf tSM with
      | some direction =>
          (ecxReadPdoAssign slave (ectSdoPdoAssign + iSM.toUInt16)).map fun tsize =>
            (next.configure iSM tSM tsize).advance tsize direction
      | none => some (next.configure iSM tSM 0)

end ConfigMap

/-- The limit is on `nSM`, and the loop stops in front of it. -/
def configuredManagers (slave : CoeSlave) : List UInt8 :=
  match slave.readU8 ectSdoSmCommType 0 with
  | none => []
  | some nSM =>
      if nSM > 2 then syncManagers ((if nSM > ecMaxSM then ecMaxSM else nSM).toNat - 1) else []

def ecxReadPdoMap (slave : CoeSlave) : Option ConfigMap :=
  (configuredManagers slave).foldlM (ConfigMap.syncManager slave)
    { smtBugAdd := 0, osize := 0, isize := 0, configured := [] }

end WebserverEthercat

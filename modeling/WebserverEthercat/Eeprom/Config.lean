import WebserverEthercat.Eeprom.Sii
import WebserverEthercat.Lib.Printf

/-!
# Configuring the slaves from their SII

`ecx_config_init` reads a slave's SII, unless a slave with the same identity
was read before: `ecx_lookup_prev_sii` then copies what was read.
-/

set_option autoImplicit false

namespace WebserverEthercat.Eeprom

open Reads
open CString (lowerHex)

/-- `ec_smt` -/
structure SyncManager where
  startAddr : UInt16
  smLength : UInt16
  smFlags : UInt32
deriving DecidableEq, Repr

/-- The fields of `ec_slavet` that come from the EEPROM. -/
structure Slave where
  eepMan : UInt32
  eepId : UInt32
  eepRev : UInt32
  mbxWo : UInt16
  mbxL : UInt16
  mbxRo : UInt16
  mbxRl : UInt16
  coeDetails : UInt8
  foeDetails : UInt8
  eoeDetails : UInt8
  soeDetails : UInt8
  blockLRW : UInt8
  ebuscurrent : UInt16
  /-- the `EC_MAXNAME + 1` cells -/
  name : List UInt8
  sm : List SyncManager
  fmmu0func : UInt8
  fmmu1func : UInt8
  fmmu2func : UInt8
  fmmu3func : UInt8
deriving DecidableEq, Repr

/-- What `ecx_config_init` sums up in `slavelist[0]`. -/
structure Master where
  blockLRW : UInt8
  ebuscurrent : UInt16
deriving DecidableEq, Repr

def ecMaxSm : Nat := 8

def ecDefaultMbxSm0 : UInt32 := 0x00010026
def ecDefaultMbxSm1 : UInt32 := 0x00010022

/-! ## The words that are read from all slaves first -/

/-- `ecx_readeeprom2` -/
def readEeprom (contents : UInt16 → UInt8) (eeproma : UInt16) : UInt32 :=
  let a := eeproma * 2
  (contents a).toUInt32 + ((contents (a + 1)).toUInt32 <<< 8) +
    ((contents (a + 2)).toUInt32 <<< 16) + ((contents (a + 3)).toUInt32 <<< 24)

def loWord (value : UInt32) : UInt16 := value.toUInt16
def hiWord (value : UInt32) : UInt16 := (value >>> 16).toUInt16

/-- A slave's entry when its SII's turn comes: cleared, with its identity and the default
mailbox. -/
def identify (contents : UInt16 → UInt8) : Slave :=
  let eedat := readEeprom contents 0x18
  let mbxWo := loWord eedat
  let mbxL := hiWord eedat
  let eedat := if mbxL > 0 then readEeprom contents 0x1a else 0
  let mbxRo := loWord eedat
  let mbxRl := if mbxL > 0 ∧ hiWord eedat = 0 then mbxL else hiWord eedat
  let cleared := List.replicate ecMaxSm (⟨0, 0, 0⟩ : SyncManager)
  let sm := if mbxL > 0 then
      (cleared.set 0 ⟨mbxWo, mbxL, ecDefaultMbxSm0⟩).set 1 ⟨mbxRo, mbxRl, ecDefaultMbxSm1⟩
    else cleared
  { eepMan := readEeprom contents 0x08
    eepId := readEeprom contents 0x0a
    eepRev := readEeprom contents 0x0c
    mbxWo, mbxL, mbxRo, mbxRl
    coeDetails := 0, foeDetails := 0, eoeDetails := 0, soeDetails := 0
    blockLRW := 0, ebuscurrent := 0
    name := List.replicate (ecMaxName + 1) 0
    sm
    fmmu0func := 0, fmmu1func := 0, fmmu2func := 0, fmmu3func := 0 }

/-! ## The SII -/

def readGeneral (turns : Nat) (slave : Slave) (master : Master) : SiiRead (Slave × Master) := do
  let ssigen ← siifind turns ectSiiGeneral
  if ssigen ≠ 0 then do
    let coeDetails ← siiByte (ssigen + 0x07)
    let foeDetails ← siiByte (ssigen + 0x08)
    let eoeDetails ← siiByte (ssigen + 0x09)
    let soeDetails ← siiByte (ssigen + 0x0a)
    let flags ← siiByte (ssigen + 0x0d)
    let ebuscurrent ← siiWord (ssigen + 0x0e)
    let blocked := flags &&& 0x02 > 0
    return (
      { slave with
        coeDetails, foeDetails, eoeDetails, soeDetails, ebuscurrent
        blockLRW := if blocked then 1 else slave.blockLRW },
      { blockLRW := if blocked then master.blockLRW + 1 else master.blockLRW
        ebuscurrent := master.ebuscurrent + ebuscurrent })
  else return (slave, master)

/-- `sprintf(name, "? M:%8.8x I:%8.8x", ...)` -/
def constructedName (slave : Slave) : List UInt8 :=
  [0x3f, 0x20, 0x4d, 0x3a] ++ lowerHex 8 slave.eepMan.toNat ++ [0x20, 0x49, 0x3a] ++
    lowerHex 8 slave.eepId.toNat ++ [0]

def putName (name cells : List UInt8) : List UInt8 := cells ++ name.drop cells.length

def readName (turns : Nat) (slave : Slave) : SiiRead Slave := do
  let found ← siifind turns ectSiiString
  -- `ecx_siifind` returns an `int16`
  if 0 < found ∧ found < 0x8000 then do
    let cells ← siistring turns 1
    return { slave with name := putName slave.name cells }
  else return { slave with name := putName slave.name (constructedName slave) }

/-- `(eepSM->Creg) + (eepSM->Activate << 16)` are the flags. -/
def SiiSm.syncManager (sm : SiiSm) : SyncManager where
  startAddr := sm.phStart
  smLength := sm.plength
  smFlags := sm.creg.toUInt32 + (sm.activate.toUInt32 <<< 16)

/-- `while ((SMc < EC_MAXSM) && ecx_siiSMnext(context, slave, context->eepSM, SMc))`, with
`EC_MAXSM - SMc` in front. -/
def moreSms : Nat → Nat → EepromSm → List SyncManager → SiiRead (List SyncManager)
  | 0, _, _, sm => pure sm
  | left + 1, smc, eepSm, sm => do
    let next ← siiSmNext eepSm (UInt16.ofNat smc)
    match next with
    | none => return sm
    | some eepSm => moreSms left (smc + 1) eepSm (sm.set smc eepSm.sm.syncManager)

def readSms (turns : Nat) (slave : Slave) : SiiRead Slave := do
  -- without a section, nothing but `nSM` is looked at
  let eepSm ← siiSm turns ⟨0, 0, ⟨0, 0, 0, 0, 0, 0⟩⟩
  if eepSm.nSM > 0 then do
    let sm ← moreSms (ecMaxSm - 1) 1 eepSm (slave.sm.set 0 eepSm.sm.syncManager)
    return { slave with sm }
  else return slave

def fmmuFunc (before fmmu : UInt8) : UInt8 := if fmmu ≠ 0xff then fmmu else before

def readFmmus (turns : Nat) (slave : Slave) : SiiRead Slave := do
  let eepFmmu ← siiFmmu turns
  if eepFmmu.nFMMU ≠ 0 then
    return { slave with
      fmmu0func := fmmuFunc slave.fmmu0func eepFmmu.fmmu0
      fmmu1func := fmmuFunc slave.fmmu1func eepFmmu.fmmu1
      fmmu2func := fmmuFunc slave.fmmu2func eepFmmu.fmmu2
      fmmu3func := fmmuFunc slave.fmmu3func eepFmmu.fmmu3 }
  else return slave

def readSii (turns : Nat) (slave : Slave) (master : Master) : SiiRead (Slave × Master) := do
  let (slave, master) ← readGeneral turns slave master
  let slave ← readName turns slave
  let slave ← readSms turns slave
  let slave ← readFmmus turns slave
  return (slave, master)

/-! ## `ecx_lookup_prev_sii` -/

def sameId (first second : Slave) : Bool :=
  first.eepMan = second.eepMan ∧ first.eepId = second.eepId ∧ first.eepRev = second.eepRev

/-- What is copied from `slavelist[i]`. -/
def copySii (earlier slave : Slave) (master : Master) : Slave × Master :=
  let blocked := earlier.blockLRW > 0
  ({ slave with
      coeDetails := earlier.coeDetails
      foeDetails := earlier.foeDetails
      eoeDetails := earlier.eoeDetails
      soeDetails := earlier.soeDetails
      blockLRW := if blocked then 1 else slave.blockLRW
      ebuscurrent := earlier.ebuscurrent
      name := earlier.name
      sm := earlier.sm
      fmmu0func := earlier.fmmu0func
      fmmu1func := earlier.fmmu1func
      fmmu2func := earlier.fmmu2func
      fmmu3func := earlier.fmmu3func },
    { blockLRW := if blocked then master.blockLRW + 1 else master.blockLRW
      ebuscurrent := master.ebuscurrent + earlier.ebuscurrent })

/-! ## `ecx_config_init` -/

/-- `if (SM[n].StartAddr == 0x0000)`, which "should never happen" -/
def defaultSm (sm : List SyncManager) (n : Nat) (mailbox : SyncManager) : List SyncManager :=
  if sm[n]?.any fun old => old.startAddr = 0 then sm.set n mailbox else sm

def defaultMailbox (slave : Slave) : Slave :=
  if slave.mbxL > 0 then
    { slave with
      sm := defaultSm (defaultSm slave.sm 0 ⟨0x1000, 0x0080, ecDefaultMbxSm0⟩) 1
        ⟨0x1080, 0x0080, ecDefaultMbxSm1⟩ }
  else slave

/-- A slave's turn, behind the slaves with smaller numbers. -/
def configSlave (turns : Nat) (earlier : List Slave) (slave : Slave) (master : Master) :
    SiiRead (Slave × Master) := do
  let read ← match earlier.find? (sameId slave) with
    | some prev => pure (copySii prev slave master)
    | none => readSii turns slave master
  return (defaultMailbox read.1, read.2)

/-- Its reads are reads of slave `number`. -/
def onSlave {Result : Type} (number : UInt16) (program : SiiRead Result) :
    OptionT (Program (UInt16 × UInt16) UInt8) Result :=
  OptionT.mk (program.run.relabel fun a => (number, a))

/-- `for (slave = 1; slave <= *(context->slavecount); slave++)` -/
def configSlaves (turns : Nat) (identity : UInt16 → Slave) :
    Nat → List Slave → Master → OptionT (Program (UInt16 × UInt16) UInt8) (List Slave × Master)
  | 0, earlier, master => pure (earlier, master)
  | left + 1, earlier, master => do
    let number := UInt16.ofNat (earlier.length + 1)
    let (slave, master) ← onSlave number (configSlave turns earlier (identity number) master)
    configSlaves turns identity left (earlier ++ [slave]) master

end WebserverEthercat.Eeprom

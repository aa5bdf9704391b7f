import WebserverEthercat.Dump.Mapping
import WebserverEthercat.Dump.ObjectDictionary
import WebserverEthercat.Dump.Sii
import WebserverEthercat.Lib.Fgets

/-!
# The text that `slaveinfo` prints

For each slave a header, the object dictionary of a CoE slave, and the PDO
mapping.  A line is kept with its kind, so that it can be followed into the
files that are made of the dump.
-/

set_option autoImplicit false

namespace WebserverEthercat

open CString

inductive LineKind where
  | header
  | dictionary
  | heading
  | row
  /-- titles of sections, and what is printed around the slaves -/
  | other
deriving DecidableEq, Repr

/-- What one `printf` prints; there may be several lines in it. -/
structure DumpLine where
  kind : LineKind
  text : List UInt8
deriving DecidableEq, Repr

def sdoMarker : List UInt8 := ascii "CoE Object Description found"
def pdoMarker : List UInt8 := ascii "PDO mapping according to CoE"

/-- The texts that section titles and column titles are recognised by. -/
def markers : List (List UInt8) :=
  [sdoMarker, pdoMarker, ascii "SM2 outputs", ascii "SM3 inputs", ascii "addr b",
    ascii "index: sub bitl"]

/-- `ecx_err2string` without its line feed and `ec_ALstatuscode2string`.  All of their texts are
short lines of their own, and none has a marker. -/
structure MasterTexts (Error : Type) where
  errorText : Error → List UInt8
  statusText : UInt16 → List UInt8
  errorStart : ∀ error, ∃ rest, errorText error = ascii "Time:" ++ rest
  errorLine : ∀ error, 10 ∉ errorText error
  errorShort : ∀ error, (errorText error).length ≤ 200
  errorPlain : ∀ error, ∀ marker ∈ markers, ¬ marker <:+: errorText error
  statusPlain : ∀ code, ∃ byte ∈ pdoMarker, byte ∉ statusText code

variable {Error : Type}

def MasterTexts.elist2string (texts : MasterTexts Error) : Option (Raised Error) → List UInt8
  | some raised => texts.errorText raised.error ++ [10]
  | none => []

/-! ## The object dictionary -/

/-- `snprintf(name, sizeof(name) - 1, "\"%s\"", ..)` -/
def quoted (name : List UInt8) : List UInt8 := (34 :: name ++ [34]).take 126

namespace SdoLine

def text (texts : MasterTexts Error) : SdoLine Error → List UInt8
  | found entries =>
      ascii " CoE Object Description found, " ++ decimal entries ++ ascii " entries.\n"
  | odError popped => ascii " - " ++ texts.elist2string popped ++ ascii "\n"
  | object index name objectCode maxSub =>
      ascii "0x" ++ lowerHex 4 index.toNat ++ ascii "      " ++ leftJustified 40 (quoted name) ++
        ascii "      [" ++ otype2string objectCode ++
        (if objectCode = otypeVar then []
        else ascii "  maxsub(0x" ++ lowerHex 2 maxSub.toNat ++ ascii " / " ++
          decimal maxSub.toNat ++ ascii ")") ++ ascii "]\n"
  | oeError popped => ascii "- " ++ texts.elist2string popped ++ ascii "\n"
  | entry _ j oe text =>
      ascii "    0x" ++ lowerHex 2 j ++ ascii "      " ++ leftJustified 40 (quoted oe.name) ++
        ascii "      [" ++ leftJustified 16 (dtype2string oe.dataType oe.bitLength) ++
        ascii " " ++ rightJustified 6 (access2string oe.objAccess) ++ ascii "]      " ++
        (match text with
        | some (.value value) => value
        | some (.error popped) => texts.elist2string popped
        | none => []) ++ ascii "\n"
  | listError popped => texts.elist2string popped

/-- The title of the dictionary is no line of it. -/
def kind : SdoLine Error → LineKind
  | found _ | listError _ => .other
  | odError _ | object .. | oeError _ | entry .. => .dictionary

end SdoLine

/-! ## The PDO mapping -/

def columnTitles : List UInt8 := ascii "     addr b   index: sub bitl data_type    name\n"

namespace MapLine

def text : MapLine → List UInt8
  | title => ascii "PDO mapping according to CoE :\n"
  | workaround => ascii "Activated SM type workaround, possible incorrect mapping.\n"
  | heading iSM direction =>
      ascii "  SM" ++ decimal iSM.toNat ++
        (match direction with
        | .outputs => ascii " outputs\n"
        | .inputs => ascii " inputs\n") ++ columnTitles
  | row printed => printed.text

def kind : MapLine → LineKind
  | title | workaround => .other
  | heading .. => .heading
  | row _ => .row

end MapLine

namespace Sii.SiiLine

def text : SiiLine → List UInt8
  | heading syncM rxPdo index name =>
      ascii "  SM" ++ decimal syncM.toNat ++ (if rxPdo then ascii " RXPDO 0x" else ascii " TXPDO 0x") ++
        upperHex 4 index.toNat ++ ascii " " ++ name ++ ascii "\n" ++ columnTitles
  | row printed => printed.text

def kind : SiiLine → LineKind
  | heading .. => .heading
  | row _ => .row

end Sii.SiiLine

/-! ## The header of a slave -/

structure SyncManager where
  nSM : Nat
  startAddr : UInt16
  smLength : UInt16
  smFlags : UInt32
  smType : UInt8

structure Fmmu where
  logStart : UInt32
  logLength : UInt16
  logStartbit : UInt8
  logEndbit : UInt8
  physStart : UInt16
  physStartBit : UInt8
  fmmuType : UInt8
  fmmuActive : UInt8

/-- The fields of `ec_slave[cnt]` that are printed; `char name[EC_MAXNAME + 1]`. -/
structure SlaveInfo where
  name : List UInt8
  nameFits : name.length ≤ 40
  obits : UInt16
  ibits : UInt16
  state : UInt16
  pdelay : Int32
  hasdc : Bool
  parentport : UInt8
  activeports : UInt8
  configadr : UInt16
  eepMan : UInt32
  eepId : UInt32
  eepRev : UInt32
  sm : List SyncManager
  fmmu : List Fmmu
  fmmu0func : UInt8
  fmmu1func : UInt8
  fmmu2func : UInt8
  fmmu3func : UInt8
  mbxL : UInt16
  mbxRl : UInt16
  mbxProto : UInt16
  coeDetails : UInt8
  foeDetails : UInt8
  eoeDetails : UInt8
  soeDetails : UInt8
  ebuscurrent : Int
  blockLrw : UInt8

def SyncManager.line (sm : SyncManager) : List UInt8 :=
  ascii " SM" ++ decimal sm.nSM ++ ascii " A:" ++ lowerHex 4 sm.startAddr.toNat ++ ascii " L:" ++
    rightJustified 4 (decimal sm.smLength.toNat) ++ ascii " F:" ++ lowerHex 8 sm.smFlags.toNat ++
    ascii " Type:" ++ decimal sm.smType.toNat

def Fmmu.line (fmmu : Fmmu) (j : Nat) : List UInt8 :=
  ascii " FMMU" ++ decimal j ++ ascii " Ls:" ++ lowerHex 8 fmmu.logStart.toNat ++ ascii " Ll:" ++
    rightJustified 4 (decimal fmmu.logLength.toNat) ++ ascii " Lsb:" ++
    decimal fmmu.logStartbit.toNat ++ ascii " Leb:" ++ decimal fmmu.logEndbit.toNat ++
    ascii " Ps:" ++ lowerHex 4 fmmu.physStart.toNat ++ ascii " Psb:" ++
    decimal fmmu.physStartBit.toNat ++ ascii " Ty:" ++ lowerHex 2 fmmu.fmmuType.toNat ++
    ascii " Act:" ++ lowerHex 2 fmmu.fmmuActive.toNat

namespace SlaveInfo

def activeport (info : SlaveInfo) (mask : UInt8) : List UInt8 :=
  decimal (if info.activeports &&& mask > 0 then 1 else 0)

/-- ` Man: %8.8x ID: %8.8x Rev: %8.8x` -/
def identity (info : SlaveInfo) : List UInt8 :=
  ascii " Man: " ++ lowerHex 8 info.eepMan.toNat ++ ascii " ID: " ++ lowerHex 8 info.eepId.toNat ++
    ascii " Rev: " ++ lowerHex 8 info.eepRev.toNat

/-- The lines behind the name. -/
def numbers (info : SlaveInfo) : List (List UInt8) :=
  [ascii " Output size: " ++ decimal info.obits.toNat ++ ascii "bits",
    ascii " Input size: " ++ decimal info.ibits.toNat ++ ascii "bits",
    ascii " State: " ++ decimal info.state.toNat,
    ascii " Delay: " ++ decimal info.pdelay.toInt ++ ascii "[ns]",
    ascii " Has DC: " ++ decimal (if info.hasdc then 1 else 0)] ++
  (if info.hasdc then [ascii " DCParentport:" ++ decimal info.parentport.toNat] else []) ++
  [ascii " Activeports:" ++ info.activeport 1 ++ ascii "." ++ info.activeport 2 ++ ascii "." ++
      info.activeport 4 ++ ascii "." ++ info.activeport 8,
    ascii " Configured address: " ++ lowerHex 4 info.configadr.toNat,
    info.identity] ++
  ((info.sm.filter fun sm => sm.startAddr > 0).map SyncManager.line) ++
  info.fmmu.zipIdx.map (fun (fmmu, j) => fmmu.line j) ++
  [ascii " FMMUfunc 0:" ++ decimal info.fmmu0func.toNat ++ ascii " 1:" ++
      decimal info.fmmu1func.toNat ++ ascii " 2:" ++ decimal info.fmmu2func.toNat ++ ascii " 3:" ++
      decimal info.fmmu3func.toNat,
    ascii " MBX length wr: " ++ decimal info.mbxL.toNat ++ ascii " rd: " ++
      decimal info.mbxRl.toNat ++ ascii " MBX protocols : " ++ lowerHex 2 info.mbxProto.toNat,
    ascii " CoE details: " ++ lowerHex 2 info.coeDetails.toNat ++ ascii " FoE details: " ++
      lowerHex 2 info.foeDetails.toNat ++ ascii " EoE details: " ++
      lowerHex 2 info.eoeDetails.toNat ++ ascii " SoE details: " ++
      lowerHex 2 info.soeDetails.toNat,
    ascii " Ebus current: " ++ decimal info.ebuscurrent ++ ascii "[mA]",
    ascii " only LRD/LWR:" ++ decimal info.blockLrw.toNat]

def nameLine (info : SlaveInfo) : List UInt8 := ascii " Name:" ++ info.name

def header (info : SlaveInfo) (cnt : Nat) : List (List UInt8) :=
  (ascii "Slave:" ++ decimal cnt) :: info.nameLine :: info.numbers

end SlaveInfo

/-! ## The dump -/

def ecMaxOdList : Nat := 1024

/-- What `si_sdo` prints: the list was read, or the errors of that. -/
inductive SdoDump (Error : Type) where
  | listed (entries : Nat) (lines : List (SdoLine Error)) (few : entries ≤ ecMaxOdList)
      (dictionary : ∀ line ∈ lines, line.kind = .dictionary)
  | notListed (errors : List (Option (Raised Error)))

/-- The mapping behind its title. -/
inductive SlaveMapping (Error : Type) where
  | coe (sdo : SdoDump Error) (map : List MapLine)
  | sii (map : List Sii.SiiLine)

structure SlaveDump (Error : Type) where
  info : SlaveInfo
  mapping : SlaveMapping Error

def SdoDump.printed : SdoDump Error → List (SdoLine Error)
  | listed entries lines _ _ => .found entries :: lines
  | notListed errors => errors.map .listError

def SdoLine.line (texts : MasterTexts Error) (line : SdoLine Error) : DumpLine :=
  ⟨line.kind, line.text texts⟩

def MapLine.line (line : MapLine) : DumpLine := ⟨line.kind, line.text⟩

def Sii.SiiLine.line (line : Sii.SiiLine) : DumpLine := ⟨line.kind, line.text⟩

def siiTitle : DumpLine := ⟨.other, ascii "PDO mapping according to SII :\n"⟩

def SlaveMapping.lines (texts : MasterTexts Error) : SlaveMapping Error → List DumpLine
  | coe sdo map => sdo.printed.map (·.line texts) ++ MapLine.title.line :: map.map MapLine.line
  | sii map => siiTitle :: map.map Sii.SiiLine.line

namespace SlaveDump

def headerLines (slave : SlaveDump Error) (cnt : Nat) : List DumpLine :=
  (slave.info.header cnt).map fun line => ⟨.header, line ++ [10]⟩

/-- A blank line stands before the header. -/
def lines (texts : MasterTexts Error) (cnt : Nat) (slave : SlaveDump Error) : List DumpLine :=
  ⟨.other, [10]⟩ :: slave.headerLines cnt ++ slave.mapping.lines texts

end SlaveDump

/-- A slave that is not in SAFE_OP. -/
structure StateReport where
  slave : Nat
  state : UInt16
  statusCode : UInt16

/-- What is printed before the slaves. -/
structure Preamble (Error : Type) where
  errors : List (Option (Raised Error))
  slavecount : Nat
  expectedWkc : Int
  notSafeOp : Option (List StateReport)

def StateReport.text (texts : MasterTexts Error) (report : StateReport) : List UInt8 :=
  ascii "Slave " ++ decimal report.slave ++ ascii " State=" ++
    rightJustified 2 (lowerHex 1 report.state.toNat) ++ ascii " StatusCode=" ++
    rightJustified 4 (lowerHex 1 report.statusCode.toNat) ++ ascii " : " ++
    texts.statusText report.statusCode ++ ascii "\n"

def Preamble.texts (texts : MasterTexts Error) (preamble : Preamble Error) : List (List UInt8) :=
  [ascii "SOEM (Simple Open EtherCAT Master)\nSlaveinfo\n", ascii "Starting slaveinfo\n",
    ascii "ec_init on enp0s31f6 succeeded.\n"] ++
  preamble.errors.map texts.elist2string ++
  [decimal preamble.slavecount ++ ascii " slaves found and configured.\n",
    ascii "Calculated workcounter " ++ decimal preamble.expectedWkc ++ ascii "\n"] ++
  match preamble.notSafeOp with
  | some reports =>
      ascii "Not all slaves reached safe operational state.\n" :: reports.map (·.text texts)
  | none => []

def endLine : DumpLine := ⟨.other, ascii "End slaveinfo, close socket\n"⟩

/-- The loop over the slaves, from slave `cnt` on. -/
def slaveLines (texts : MasterTexts Error) : Nat → List (SlaveDump Error) → List DumpLine
  | _, [] => []
  | cnt, slave :: slaves => slave.lines texts cnt ++ slaveLines texts (cnt + 1) slaves

def slaveinfo (texts : MasterTexts Error) (preamble : Preamble Error)
    (slaves : List (SlaveDump Error)) : List DumpLine :=
  (preamble.texts texts).map (⟨.other, ·⟩) ++ slaveLines texts 1 slaves ++ [endLine]

end WebserverEthercat

import WebserverEthercat.Dump.Row
import WebserverEthercat.Lib.Loops

/-!
# The PDO section of the slave's EEPROM

`si_siiPDO` prints the section that `ecx_siiPDO` configures the slave from.
Both walk it with a 16-bit byte address `a` and a 16-bit word counter `c`;
`ec_siigetbyte` is a function of the address.
-/

set_option autoImplicit false

namespace WebserverEthercat.Sii

open Loops

def ecMaxSM : UInt16 := 8
def ecMaxEepDo : UInt16 := 0x200

structure Eeprom where
  siigetbyte : UInt16 → UInt8
  /-- `ec_siifind`: the byte address of a section, 0 when there is none -/
  siifind : UInt16 → UInt16
  siistring : UInt16 → List UInt8

def ectSiiPdo : UInt16 := 50

/-- `ec_siigetbyte(slave, a) + (ec_siigetbyte(slave, a + 1) << 8)` -/
def Eeprom.word (eeprom : Eeprom) (a : UInt16) : UInt16 :=
  (eeprom.siigetbyte a).toUInt16 + ((eeprom.siigetbyte (a + 1)).toUInt16 <<< 8)

/-- `ec_eepromPDOt`: the tables are the cells `0 .. EC_MAXEEPDO - 1` and
`0 .. EC_MAXSM - 1`. -/
structure EepromPdo where
  startpos : UInt16
  length : UInt16
  nPDO : UInt16
  index : UInt16 → UInt16
  syncM : UInt16 → UInt16
  bitSize : UInt16 → UInt16
  smBitSize : UInt16 → UInt16

def assign (table : UInt16 → UInt16) (cell value : UInt16) : UInt16 → UInt16 :=
  fun other => if other = cell then value else table other

/-- What both functions do before they look for the section. -/
def EepromPdo.cleared (memory : EepromPdo) (startpos : UInt16) : EepromPdo :=
  { memory with
    startpos
    length := 0
    nPDO := 0
    index := assign memory.index 1 0
    smBitSize := fun sm => if sm < ecMaxSM then 0 else memory.smBitSize sm }

/-- `PDO->Length` is read from the section's first word. -/
def EepromPdo.opened (memory : EepromPdo) (eeprom : Eeprom) (startpos : UInt16) : EepromPdo :=
  { memory.cleared startpos with length := eeprom.word startpos }

/-- `if (t > 1) t = 1;` -/
def direction (t : UInt8) : UInt8 := if t > 1 then 1 else t

def Eeprom.pdoSection (eeprom : Eeprom) (t : UInt8) : UInt16 :=
  eeprom.siifind (ectSiiPdo + (direction t).toUInt16)

/-- A PDO header that the walk has come to. -/
structure SiiPdoHeader where
  /-- the byte address of the header -/
  address : UInt16
  index : UInt16
  entries : UInt16
  syncM : UInt16
deriving DecidableEq, Repr

inductive SiiLine where
  /-- `  SM%1d RXPDO 0x%4.4X %s\n` or `TXPDO`, and the line of column titles -/
  | heading (syncM : UInt16) (rxPdo : Bool) (index : UInt16) (name : List UInt8)
  | row (row : PdoRow)
deriving DecidableEq, Repr

/-- The locals of `si_siiPDO`. -/
structure DumpWalk where
  a : UInt16
  c : UInt16
  pdo : EepromPdo
  bitoffset : Int
  totalsize : Int
  printed : List SiiLine
  /-- the headers met so far -/
  headers : List SiiPdoHeader

/-- The locals of `ecx_siiPDO`. -/
structure ConfigWalk where
  a : UInt16
  c : UInt16
  pdo : EepromPdo
  size : UInt16

def name (eeprom : Eeprom) (objName : UInt8) : List UInt8 :=
  if objName = 0 then [] else eeprom.siistring objName.toUInt16

/-! ## `si_siiPDO` -/

def DumpWalk.entry (eeprom : Eeprom) (mapoffset : Int) (walk : DumpWalk) : DumpWalk :=
  let objIdx := eeprom.word walk.a
  let objSubidx := eeprom.siigetbyte (walk.a + 2)
  let objName := eeprom.siigetbyte (walk.a + 3)
  let objDatatype := eeprom.siigetbyte (walk.a + 4)
  let bitlen := eeprom.siigetbyte (walk.a + 5)
  let number := walk.pdo.nPDO
  let row : PdoRow :=
    { absOffset := mapoffset + walk.bitoffset.tdiv 8
      absBit := walk.bitoffset.tmod 8
      objIdx, objSubidx, bitlen
      description := some { dtype := objDatatype.toUInt16, name := name eeprom objName } }
  { walk with
    a := walk.a + 6 + 2
    c := walk.c + 4
    pdo := { walk.pdo with
      bitSize := assign walk.pdo.bitSize number (walk.pdo.bitSize number + bitlen.toUInt16) }
    -- a filler (0x0000:0x00) is not printed
    printed := walk.printed ++ if objIdx ≠ 0 ∨ objSubidx ≠ 0 then [.row row] else []
    bitoffset := walk.bitoffset + bitlen.toNat
    totalsize := walk.totalsize + bitlen.toNat }

/-- The header of the next PDO, up to the test of its sync manager. -/
def DumpWalk.header (eeprom : Eeprom) (walk : DumpWalk) : DumpWalk :=
  let number := walk.pdo.nPDO + 1
  let entries := (eeprom.siigetbyte (walk.a + 2)).toUInt16
  let syncM := (eeprom.siigetbyte (walk.a + 3)).toUInt16
  { walk with
    a := walk.a + 5 + 1 + 2
    c := walk.c + 1 + 2
    pdo := { walk.pdo with
      nPDO := number
      index := assign walk.pdo.index number (eeprom.word walk.a)
      bitSize := assign walk.pdo.bitSize number 0
      syncM := assign walk.pdo.syncM number syncM }
    headers := walk.headers ++ [{ address := walk.a, index := eeprom.word walk.a, entries, syncM }] }

def DumpWalk.active (eeprom : Eeprom) (rxPdo : Bool) (mapoffset : Int) (title : List UInt8)
    (entries syncM : UInt16) (walk : DumpWalk) : DumpWalk :=
  let titled := { walk with
    printed := walk.printed ++ [.heading syncM rxPdo (walk.pdo.index walk.pdo.nPDO) title] }
  -- `er` runs up to a byte's value, so it does not wrap
  let read := (DumpWalk.entry eeprom mapoffset)^[entries.toNat] titled
  { read with
    c := read.c + 1
    pdo := { read.pdo with
      smBitSize := assign read.pdo.smBitSize syncM
        (read.pdo.smBitSize syncM + read.pdo.bitSize read.pdo.nPDO) } }

def DumpWalk.onePdo (eeprom : Eeprom) (rxPdo : Bool) (mapoffset : Int) (walk : DumpWalk) :
    DumpWalk :=
  let entries := (eeprom.siigetbyte (walk.a + 2)).toUInt16
  let syncM := (eeprom.siigetbyte (walk.a + 3)).toUInt16
  let objName := eeprom.siigetbyte (walk.a + 5)
  let opened := walk.header eeprom
  if syncM < ecMaxSM then
    opened.active eeprom rxPdo mapoffset (name eeprom objName) entries syncM
  else { opened with c := opened.c + 4 * entries + 1, a := opened.a + 8 * entries }

/-- The limit on the number of PDOs in the buffer. -/
def DumpWalk.limited (walk : DumpWalk) : DumpWalk :=
  if walk.pdo.nPDO ≥ ecMaxEepDo - 1 then { walk with c := walk.pdo.length } else walk

def DumpWalk.turn (eeprom : Eeprom) (rxPdo : Bool) (mapoffset : Int) (walk : DumpWalk) :
    DumpWalk :=
  (walk.onePdo eeprom rxPdo mapoffset).limited

def DumpWalk.again (walk : DumpWalk) : Bool := walk.c < walk.pdo.length

/-- The call; `memory` is what `eepPDO` holds before. -/
def siSiiPdo (eeprom : Eeprom) (memory : EepromPdo) (t : UInt8) (mapoffset bitoffset : Int) :
    Option DumpWalk :=
  let startpos := eeprom.pdoSection t
  if startpos > 0 then
    doWhile (DumpWalk.turn eeprom (direction t ≠ 0) mapoffset) DumpWalk.again ecMaxEepDo.toNat
      { a := startpos + 2, c := 1, pdo := memory.opened eeprom startpos, bitoffset,
        totalsize := 0, printed := [], headers := [] }
  else
    some
      { a := startpos, c := ecMaxSM, pdo := memory.cleared startpos, bitoffset, totalsize := 0,
        printed := [], headers := [] }

/-! ## `ecx_siiPDO` -/

def ConfigWalk.entry (eeprom : Eeprom) (walk : ConfigWalk) : ConfigWalk :=
  let number := walk.pdo.nPDO
  { walk with
    a := walk.a + 5 + 1 + 2
    c := walk.c + 4
    pdo := { walk.pdo with
      bitSize := assign walk.pdo.bitSize number
        (walk.pdo.bitSize number + (eeprom.siigetbyte (walk.a + 5)).toUInt16) } }

def ConfigWalk.header (eeprom : Eeprom) (walk : ConfigWalk) : ConfigWalk :=
  let number := walk.pdo.nPDO + 1
  { walk with
    a := walk.a + 4 + 4
    c := walk.c + 1 + 2
    pdo := { walk.pdo with
      nPDO := number
      index := assign walk.pdo.index number (eeprom.word walk.a)
      bitSize := assign walk.pdo.bitSize number 0
      syncM := assign walk.pdo.syncM number (eeprom.siigetbyte (walk.a + 3)).toUInt16 } }

def ConfigWalk.active (eeprom : Eeprom) (entries syncM : UInt16) (walk : ConfigWalk) :
    ConfigWalk :=
  let read := (ConfigWalk.entry eeprom)^[entries.toNat] walk
  { read with
    c := read.c + 1
    pdo := { read.pdo with
      smBitSize := assign read.pdo.smBitSize syncM
        (read.pdo.smBitSize syncM + read.pdo.bitSize read.pdo.nPDO) }
    size := read.size + read.pdo.bitSize read.pdo.nPDO }

def ConfigWalk.onePdo (eeprom : Eeprom) (walk : ConfigWalk) : ConfigWalk :=
  let entries := (eeprom.siigetbyte (walk.a + 2)).toUInt16
  let syncM := (eeprom.siigetbyte (walk.a + 3)).toUInt16
  let opened := walk.header eeprom
  if syncM < ecMaxSM then opened.active eeprom entries syncM
  else { opened with c := opened.c + 4 * entries + 1, a := opened.a + 8 * entries }

def ConfigWalk.limited (walk : ConfigWalk) : ConfigWalk :=
  if walk.pdo.nPDO ≥ ecMaxEepDo - 1 then { walk with c := walk.pdo.length } else walk

def ConfigWalk.turn (eeprom : Eeprom) (walk : ConfigWalk) : ConfigWalk :=
  (walk.onePdo eeprom).limited

def ConfigWalk.again (walk : ConfigWalk) : Bool := walk.c < walk.pdo.length

def ecxSiiPdo (eeprom : Eeprom) (memory : EepromPdo) (t : UInt8) : Option ConfigWalk :=
  let startpos := eeprom.pdoSection t
  if startpos > 0 then
    doWhile (ConfigWalk.turn eeprom) ConfigWalk.again ecMaxEepDo.toNat
      { a := startpos + 2, c := 1, pdo := memory.opened eeprom startpos, size := 0 }
  else some { a := startpos, c := ecMaxSM, pdo := memory.cleared startpos, size := 0 }

end WebserverEthercat.Sii

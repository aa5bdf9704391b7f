import Mathlib.Data.UInt
import WebserverEthercat.Lib.Reads

/-!
# The SII functions

The functions of `ethercatmain.c` that read a slave's EEPROM, as programs that
ask `ecx_siigetbyte` for the slave's bytes.
-/

set_option autoImplicit false

namespace WebserverEthercat.Eeprom

open Reads

/-- What reads the EEPROM of a slave, and may not end. -/
abbrev SiiRead := OptionT (Program UInt16 UInt8)

def siiByte (a : UInt16) : SiiRead UInt8 := OptionT.lift (Program.get a)

/-- `w = ecx_siigetbyte(context, slave, a++);`
`w += (ecx_siigetbyte(context, slave, a++) << 8);` -/
def siiWord (a : UInt16) : SiiRead UInt16 := do
  let low ← siiByte a
  let high ← siiByte (a + 1)
  return low.toUInt16 + (high.toUInt16 <<< 8)

def ecMaxName : Nat := 40

def ectSiiString : UInt16 := 10
def ectSiiGeneral : UInt16 := 30
def ectSiiFmmu : UInt16 := 40
def ectSiiSm : UInt16 := 41

/-! ## `ecx_siifind` -/

/-- `a += p << 1`, behind the two reads of the length -/
def behind (a length : UInt16) : UInt16 := a + 2 + (length <<< (1 : UInt16))

/-- `while ((p != cat) && (p != 0xffff))`, for at most `turns` turns. -/
def traverse (cat : UInt16) : Nat → UInt16 → UInt16 → SiiRead UInt16
  | 0, _, _ => OptionT.fail
  | turns + 1, a, p =>
    if p ≠ cat ∧ p ≠ 0xffff then do
      let length ← siiWord a
      let next := behind a length
      let category ← siiWord next
      traverse cat turns (next + 2) category
    else pure (if p = cat then a else 0)

/-- `ECT_SII_START << 1` -/
def siiStart : UInt16 := 0x80

/-- `ecx_siifind`: the address of the section's length. -/
def siifind (turns : Nat) (cat : UInt16) : SiiRead UInt16 := do
  let category ← siiWord siiStart
  traverse cat turns (siiStart + 2) category

/-! ## `ecx_siistring` -/

def siiBytes : Nat → UInt16 → SiiRead (List UInt8)
  | 0, _ => pure []
  | count + 1, a => do
    let byte ← siiByte a
    let rest ← siiBytes count (a + 1)
    return byte :: rest

/-- `for (i = 1; i <= Sn; i++)`: the last one of the strings is copied, up to `EC_MAXNAME`
characters. -/
def lastString : Nat → UInt16 → SiiRead (List UInt8)
  | 0, _ => pure []
  | 1, ba => do
    let l ← siiByte ba
    siiBytes (min l.toNat ecMaxName) (ba + 1)
  | strings + 2, ba => do
    let l ← siiByte ba
    lastString (strings + 1) (ba + 1 + l.toUInt16)

/-- `ecx_siistring`: what is put at `str`, which is nothing without a string section. -/
def siistring (turns : Nat) (sn : UInt16) : SiiRead (List UInt8) := do
  let a ← siifind turns ectSiiString
  if a > 0 then do
    let n ← siiByte (a + 2)
    if sn ≤ n.toUInt16 then do
      let chars ← lastString sn.toNat (a + 3)
      return chars ++ [0]
    else return [0]
  else return []

/-! ## `ecx_siiFMMU` -/

structure EepromFmmu where
  startpos : UInt16
  nFMMU : UInt8
  fmmu0 : UInt8
  fmmu1 : UInt8
  fmmu2 : UInt8
  fmmu3 : UInt8
deriving DecidableEq, Repr

def siiFmmu (turns : Nat) : SiiRead EepromFmmu := do
  let startpos ← siifind turns ectSiiFmmu
  if startpos > 0 then do
    let length ← siiWord startpos
    -- `nFMMU` is a byte
    let nFMMU := length.toUInt8 * 2
    let fmmu0 ← siiByte (startpos + 2)
    let fmmu1 ← siiByte (startpos + 3)
    if nFMMU > 2 then do
      let fmmu2 ← siiByte (startpos + 4)
      let fmmu3 ← siiByte (startpos + 5)
      return { startpos, nFMMU, fmmu0, fmmu1, fmmu2, fmmu3 }
    else return { startpos, nFMMU, fmmu0, fmmu1, fmmu2 := 0, fmmu3 := 0 }
  else return ⟨startpos, 0, 0, 0, 0, 0⟩

/-! ## `ecx_siiSM` and `ecx_siiSMnext` -/

structure SiiSm where
  phStart : UInt16
  plength : UInt16
  creg : UInt8
  sreg : UInt8
  activate : UInt8
  pdiCtrl : UInt8
deriving DecidableEq, Repr

/-- `ec_eepromSMt` -/
structure EepromSm where
  startpos : UInt16
  nSM : UInt8
  sm : SiiSm
deriving DecidableEq, Repr

def readSm (a : UInt16) : SiiRead SiiSm := do
  let phStart ← siiWord a
  let plength ← siiWord (a + 2)
  let creg ← siiByte (a + 4)
  let sreg ← siiByte (a + 5)
  let activate ← siiByte (a + 6)
  let pdiCtrl ← siiByte (a + 7)
  return { phStart, plength, creg, sreg, activate, pdiCtrl }

def siiSm (turns : Nat) (before : EepromSm) : SiiRead EepromSm := do
  let startpos ← siifind turns ectSiiSm
  if startpos > 0 then do
    let w ← siiWord startpos
    let sm ← readSm (startpos + 2)
    return { startpos, nSM := (w / 4).toUInt8, sm }
  else return { before with startpos, nSM := 0 }

/-- `none` stands for the result 0. -/
def siiSmNext (before : EepromSm) (n : UInt16) : SiiRead (Option EepromSm) :=
  if n < before.nSM.toUInt16 then do
    let sm ← readSm (before.startpos + 2 + n * 8)
    return some { before with sm }
  else return none

end WebserverEthercat.Eeprom

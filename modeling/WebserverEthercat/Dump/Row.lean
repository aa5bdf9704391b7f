import WebserverEthercat.Lib.Printf

/-!
# The rows of a PDO mapping

A row stands for one entry of a PDO: `[byte.bit]` in the IOmap, the object and
its length.  The entry has a type and a name when the object dictionary (or the
SII) describes it.
-/

set_option autoImplicit false

namespace WebserverEthercat

open CString

/-- The CoE data types are their codes in `ec_datatype`. -/
def dtype2string (dtype bitlen : UInt16) : List UInt8 :=
  match dtype.toNat with
  | 0x0001 => ascii "BOOLEAN"
  | 0x0002 => ascii "INTEGER8"
  | 0x0003 => ascii "INTEGER16"
  | 0x0004 => ascii "INTEGER32"
  | 0x0010 => ascii "INTEGER24"
  | 0x0015 => ascii "INTEGER64"
  | 0x0005 => ascii "UNSIGNED8"
  | 0x0006 => ascii "UNSIGNED16"
  | 0x0007 => ascii "UNSIGNED32"
  | 0x0016 => ascii "UNSIGNED24"
  | 0x001B => ascii "UNSIGNED64"
  | 0x0008 => ascii "REAL32"
  | 0x0011 => ascii "REAL64"
  | 0x0030 => ascii "BIT1"
  | 0x0031 => ascii "BIT2"
  | 0x0032 => ascii "BIT3"
  | 0x0033 => ascii "BIT4"
  | 0x0034 => ascii "BIT5"
  | 0x0035 => ascii "BIT6"
  | 0x0036 => ascii "BIT7"
  | 0x0037 => ascii "BIT8"
  | 0x0009 => ascii "VISIBLE_STR(" ++ decimal bitlen.toNat ++ ascii ")"
  | 0x000A => ascii "OCTET_STR(" ++ decimal bitlen.toNat ++ ascii ")"
  | code => ascii "dt:0x" ++ upperHex 4 code ++ ascii " (" ++ decimal bitlen.toNat ++ ascii ")"

structure Description where
  dtype : UInt16
  name : List UInt8
deriving DecidableEq, Repr

structure PdoRow where
  absOffset : Int
  absBit : Int
  objIdx : UInt16
  objSubidx : UInt8
  bitlen : UInt8
  /-- the type and the name, when they are printed -/
  description : Option Description
deriving DecidableEq, Repr

namespace PdoRow

/-- `%X` of an `int` prints it as `unsigned int`. -/
def unsignedInt (value : Int) : Nat := (value % 2 ^ 32).toNat

def address (row : PdoRow) : List UInt8 :=
  ascii "[0x" ++ upperHex 4 (unsignedInt row.absOffset) ++ ascii "." ++ decimal row.absBit ++
    ascii "]"

def indexSub (row : PdoRow) : List UInt8 :=
  ascii "0x" ++ upperHex 4 row.objIdx.toNat ++ ascii ":0x" ++ upperHex 2 row.objSubidx.toNat

def bitLength (row : PdoRow) : List UInt8 := ascii "0x" ++ upperHex 2 row.bitlen.toNat

/-- `  [0x%4.4X.%1d] 0x%4.4X:0x%2.2X 0x%2.2X`, then ` %-12s %s\n` or only the line's end -/
def text (row : PdoRow) : List UInt8 :=
  ascii "  " ++ row.address ++ ascii " " ++ row.indexSub ++ ascii " " ++ row.bitLength ++
    (match row.description with
    | some description =>
        ascii " " ++ leftJustified 12 (dtype2string description.dtype row.bitlen.toUInt16) ++
          ascii " " ++ description.name
    | none => []) ++ ascii "\n"

end PdoRow

end WebserverEthercat

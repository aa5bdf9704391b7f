import WebserverEthercat.Dump.ErrorList
import WebserverEthercat.Dump.Sdo

/-!
# The dump of the object dictionary

`si_sdo` lists the objects of a slave and their entries, and reads the value of
each readable entry.  Whether a read succeeded is not seen from its result but
from `EcatError`, and the error that is printed is the oldest one of the list.

An error carries the read that pushed it, as its slave, index, subindex and time
do in the master.
-/

set_option autoImplicit false

namespace WebserverEthercat

open CString

def otypeVar : UInt8 := 0x07
def otypeArray : UInt8 := 0x08
def otypeRecord : UInt8 := 0x09

/-- The call of the master that an error comes from, by object and subindex. -/
inductive Reader where
  | odList
  | odDescription (i : Nat)
  | objectEntries (i : Nat)
  | highest (i : Nat)
  | entry (i j : Nat)
deriving DecidableEq, Repr

structure Raised (Error : Type) where
  reader : Reader
  error : Error
deriving DecidableEq, Repr

structure Failure (Error Value : Type) where
  /-- what the variable of the caller holds afterwards -/
  left : Value
  raised : Option Error

/-- One `ec_SDOread`: the value of the entry, and how the read fails if it does. -/
structure SdoRead (Error Value : Type) where
  value : Value
  failure : Option (Failure Error Value)

namespace SdoRead

variable {Error Value : Type}

def target (read : SdoRead Error Value) : Value :=
  match read.failure with
  | none => read.value
  | some failure => failure.left

def raised (read : SdoRead Error Value) : Option Error := read.failure.bind (·.raised)

end SdoRead

/-- `usdo` and `l` after a read. -/
structure Usdo where
  usdo : List UInt8
  l : Nat
deriving DecidableEq, Repr

structure ObjectEntry where
  dataType : UInt16
  bitLength : UInt16
  objAccess : UInt16
  name : List UInt8
deriving DecidableEq, Repr

/-- An object with its entries, and what the reads about it do. -/
structure DictObject (Error : Type) where
  index : UInt16
  objectCode : UInt8
  maxSub : UInt8
  name : List UInt8
  entries : Nat → ObjectEntry
  descriptionErrors : List Error
  entryErrors : List Error
  highestRead : SdoRead Error UInt8
  entryRead : Nat → SdoRead Error Usdo

/-- `%f` of a `float` and of a `double`. -/
structure FloatTexts where
  single : Nat → List UInt8
  double : Nat → List UInt8

/-! ## Texts -/

def otype2string (otype : UInt8) : List UInt8 :=
  if otype = otypeVar then ascii "VAR"
  else if otype = otypeArray then ascii "ARRAY"
  else if otype = otypeRecord then ascii "RECORD"
  else ascii "ot:0x" ++ upperHex 4 otype.toNat

def access2string (access : UInt16) : List UInt8 :=
  let flag (mask : UInt16) (letter : String) :=
    if access &&& mask ≠ 0 then ascii letter else ascii "_"
  flag 0x01 "R" ++ flag 0x08 "W" ++ flag 0x02 "R" ++ flag 0x10 "W" ++ flag 0x04 "R" ++ flag 0x20 "W"

/-- The first `size` bytes of `usdo` as an unsigned integer. -/
def Usdo.unsigned (value : Usdo) (size : Nat) : Nat := littleEndian (value.usdo.take size)

def Usdo.signed (value : Usdo) (size : Nat) : Int :=
  let magnitude := value.unsigned size
  if magnitude < 2 ^ (8 * size - 1) then magnitude else (magnitude : Int) - 2 ^ (8 * size)

/-- `0x%N.Nx %d`; an integer shorter than `int` is printed by `%x` as an `int`. -/
def signedText (size : Nat) (value : Usdo) : List UInt8 :=
  let bits := if size = 8 then 64 else 32
  ascii "0x" ++ lowerHex (2 * size) (value.signed size % 2 ^ bits).toNat ++ ascii " " ++
    decimal (value.signed size)

/-- `0x%N.Nx %u` -/
def unsignedText (size : Nat) (value : Usdo) : List UInt8 :=
  ascii "0x" ++ lowerHex (2 * size) (value.unsigned size) ++ ascii " " ++
    decimal (value.unsigned size)

/-- `0x%2.2x ` of an element of `usdo`: a plain `char` is signed, and promoted to `int`. -/
def octetText (byte : UInt8) : List UInt8 :=
  ascii "0x" ++ lowerHex 2 (byte.toInt8.toInt % 2 ^ 32).toNat ++ ascii " "

/-- The `switch` of `SDO2string`. -/
def valueText (floats : FloatTexts) (dtype : UInt16) (value : Usdo) : List UInt8 :=
  match dtype.toNat with
  | 0x0001 => if value.unsigned 1 ≠ 0 then ascii "TRUE" else ascii "FALSE"
  | 0x0002 => signedText 1 value
  | 0x0003 => signedText 2 value
  | 0x0004 | 0x0010 => signedText 4 value
  | 0x0015 => signedText 8 value
  | 0x0005 => unsignedText 1 value
  | 0x0006 => unsignedText 2 value
  | 0x0007 | 0x0016 => unsignedText 4 value
  | 0x001B => unsignedText 8 value
  | 0x0008 => floats.single (value.unsigned 4)
  | 0x0011 => floats.double (value.unsigned 8)
  | 0x0030 | 0x0031 | 0x0032 | 0x0033 | 0x0034 | 0x0035 | 0x0036 | 0x0037 =>
      ascii "0x" ++ lowerHex 1 (value.unsigned 1)
  | 0x0009 => value.usdo.takeWhile (· ≠ 0)
  | 0x000A => (value.usdo.take value.l).flatMap octetText
  | _ => ascii "Unknown type"

/-! ## The walk -/

/-- What `SDO2string` returns; no error stands for the empty text of an empty list. -/
inductive SdoText (Error : Type) where
  | value (text : List UInt8)
  | error (popped : Option (Raised Error))
deriving DecidableEq, Repr

inductive SdoLine (Error : Type) where
  | found (entries : Nat)
  | odError (popped : Option (Raised Error))
  | object (index : UInt16) (name : List UInt8) (objectCode maxSub : UInt8)
  | oeError (popped : Option (Raised Error))
  | entry (i j : Nat) (entry : ObjectEntry) (text : Option (SdoText Error))
  | listError (popped : Option (Raised Error))
deriving DecidableEq, Repr

structure SdoWalk (Error : Type) where
  printed : List (SdoLine Error)
  errors : ErrorList (Raised Error)

variable {Error : Type}

/-- `ec_SDOread`; the work counter that it returns is not used. -/
def ErrorList.ecSdoRead {Value : Type} (reader : Reader) (read : SdoRead Error Value)
    (errors : ErrorList (Raised Error)) : ErrorList (Raised Error) :=
  errors.pusherrors (read.raised.toList.map (Raised.mk reader))

def sdo2string (floats : FloatTexts) (reader : Reader) (read : SdoRead Error Usdo)
    (dtype : UInt16) (errors : ErrorList (Raised Error)) :
    SdoText Error × ErrorList (Raised Error) :=
  let errors := errors.ecSdoRead reader read
  if errors.ecatError then (.error errors.elist2string.1, errors.elist2string.2)
  else (.value (valueText floats dtype read.target), errors)

namespace SdoWalk

def print (walk : SdoWalk Error) (line : SdoLine Error) : SdoWalk Error :=
  { walk with printed := walk.printed ++ [line] }

/-- A call of the master that pushes errors. -/
def pusherrors (reader : Reader) (raised : List Error) (walk : SdoWalk Error) : SdoWalk Error :=
  { walk with errors := walk.errors.pusherrors (raised.map (Raised.mk reader)) }

/-- `printf(.., ec_elist2string())` -/
def printError (line : Option (Raised Error) → SdoLine Error) (walk : SdoWalk Error) :
    SdoWalk Error :=
  let popped := walk.errors.elist2string
  { printed := walk.printed ++ [line popped.1], errors := popped.2 }

/-- `while (EcatError) printf(.., ec_elist2string());` -/
def printErrors (line : Option (Raised Error) → SdoLine Error) (walk : SdoWalk Error) :
    Option (SdoWalk Error) :=
  Loops.whileDo (printError line) (·.errors.ecatError) (ecMaxElist + 1) walk

def siEntry (floats : FloatTexts) (object : DictObject Error) (i : Nat) (walk : SdoWalk Error)
    (j : Nat) : SdoWalk Error :=
  let entry := object.entries j
  if entry.dataType > 0 ∧ entry.bitLength > 0 then
    if entry.objAccess &&& 0x0007 ≠ 0 then
      let text := sdo2string floats (.entry i j) (object.entryRead j) entry.dataType walk.errors
      { printed := walk.printed ++ [.entry i j entry (some text.1)], errors := text.2 }
    else walk.print (.entry i j entry none)
  else walk

/-- `max_sub` and the loop over the subindexes. -/
def siEntries (floats : FloatTexts) (object : DictObject Error) (i : Nat)
    (walk : SdoWalk Error) : SdoWalk Error :=
  if object.objectCode ≠ otypeVar then
    let read := walk.errors.ecSdoRead (.highest i) object.highestRead
    (List.range (object.highestRead.target.toNat + 1)).foldl (siEntry floats object i)
      { walk with errors := read }
  else (List.range (object.maxSub.toNat + 1)).foldl (siEntry floats object i) walk

def siObject (floats : FloatTexts) (i : Nat) (object : DictObject Error) (walk : SdoWalk Error) :
    Option (SdoWalk Error) := do
  let walk ← (walk.pusherrors (.odDescription i) object.descriptionErrors).printErrors .odError
  let walk := walk.print (.object object.index object.name object.objectCode object.maxSub)
  let walk ← (walk.pusherrors (.objectEntries i) object.entryErrors).printErrors .oeError
  some (siEntries floats object i walk)

def siObjects (floats : FloatTexts) :
    Nat → List (DictObject Error) → SdoWalk Error → Option (SdoWalk Error)
  | _, [], walk => some walk
  | i, object :: objects, walk => do
      let walk ← siObject floats i object walk
      siObjects floats (i + 1) objects walk

end SdoWalk

/-- The answer to `ec_readODlist` and what the reads about its objects do. -/
structure ObjectDictionary (Error : Type) where
  listErrors : List Error
  objects : Option (List (DictObject Error))

def siSdo (floats : FloatTexts) (dictionary : ObjectDictionary Error)
    (errors : ErrorList (Raised Error)) : Option (SdoWalk Error) :=
  let walk := SdoWalk.pusherrors .odList dictionary.listErrors ⟨[], errors⟩
  match dictionary.objects with
  | some objects => SdoWalk.siObjects floats 0 objects (walk.print (.found objects.length))
  | none => walk.printErrors .listError

end WebserverEthercat

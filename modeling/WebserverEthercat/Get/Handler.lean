import WebserverEthercat.Form.OutputsPointer
import WebserverEthercat.Get.PolledValue
import WebserverEthercat.Pdo.EachLine
import WebserverEthercat.Post.Body

/-!
# The answer to a request

`handle_get_request` and the three ways of `answer_to_connection`.  `none` is
an access outside a block or through a null pointer.  The bytes of a file that
is sent whole are not followed: what counts is which response is queued.
-/

set_option autoImplicit false

namespace WebserverEthercat.Get

open CString Form Post

/-- What the calls on an opened file give. -/
structure FileAnswers where
  /-- -1 when it fails -/
  ftell : Int64
  mallocOk : Bool
deriving DecidableEq, Repr

/-- What the file, allocation and library calls of one access-handler call give, and what it
finds in memory. -/
structure Environment where
  fopen : Option FileAnswers
  newObjectOk : Bool
  /-- `pdo.txt`, if the branch of `/pdo.json` opens it -/
  pdoTxt : Option (List UInt8)
  /-- what the conversion of an unfit `float` gives -/
  unspecified : Int
  toJsonStringOk : Bool
  strdupOk : Bool
  festoMotorInputsPtr : Option FestoMotorInputs
  festoMotorOutputsPtr : Option FestoMotorOutputs
  /-- the memory behind the block `post_data` -/
  behind : Block
  post : Answers
deriving DecidableEq, Repr

/-- The keys that `get_pdo_input_value_festo_motor` compares with. -/
def inputKeys : List (List UInt8) :=
  [ascii "0x6041:0x00", ascii "0x6061:0x00", ascii "0x6064:0x00", ascii "0x606C:0x00",
    ascii "0x6077:0x00"]

/-- `value` of a row.  The pointer is used for the five keys only. -/
def Environment.inputValue (environment : Environment) (indexSub : List UInt8) : Option Int :=
  if inputKeys.contains indexSub then
    environment.festoMotorInputsPtr.map fun inputs =>
      polledValue environment.unspecified inputs indexSub
  else some 0

variable {Connection : Type}

/-- All calls succeed, the pointers are assigned and a terminator happens to lie behind the body. -/
def Environment.allOk : Environment :=
  ⟨some ⟨0, true⟩, true, none, 0, true, true, some .zero, some .zero, [some 0], .allOk⟩

end WebserverEthercat.Get

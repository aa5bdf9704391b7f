import WebserverEthercat.Pdo.EachLine
import WebserverEthercat.Pdo.InputSection

/-!
# The inputs of the server and of the page

The heading of SM3 inputs starts both readers.  The server goes on to the end of
the file, the page into the header of the next slave.  They agree when every line
that one of them takes has a line of the same object that the other takes; with
plain names that is when the heading comes in the last mapping alone.
-/

set_option autoImplicit false

namespace WebserverEthercat

open CString Form WebText

def CoeRun.inputRows {Error : Type} (run : CoeRun Error) : List PdoRow :=
  (run.map.dropWhile (· ≠ inputsHeading)).filterMap fun
    | .row row => some row
    | _ => none

/-! ## The mapping of one slave -/

namespace CoeRun

variable {Error : Type} {texts : MasterTexts Error} {run : CoeRun Error}

end CoeRun

namespace SameInputs

variable {Error : Type} {texts : MasterTexts Error} {json : JsonC}
  {inputValue : List UInt8 → Int}

end SameInputs

end WebserverEthercat

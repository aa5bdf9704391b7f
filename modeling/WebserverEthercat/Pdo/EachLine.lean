import WebserverEthercat.Pdo.Json
import WebserverEthercat.Pdo.Page

/-!
# The readers line by line

What the server makes of a piece of `pdo.txt` is decided by the piece and by
whether the heading of SM3 came before.  What the page makes of a line is
decided by the line and by the last heading before it.  This holds for any
text, whatever stands in the names.
-/

set_option autoImplicit false

namespace WebserverEthercat

open CString WebText

/-! ## The server -/

/-- The piece sets `process_lines`. -/
def opensRows (piece : List UInt8) : Bool :=
  match trimmedLine (terminated piece) with
  | some trimmed => decide (inputsMarker <:+: trimmed)
  | none => false

/-- What the server makes of a piece while `process_lines` is set. -/
def pieceRead (piece : List UInt8) : RowRead :=
  match trimmedLine (terminated piece) with
  | some trimmed => if inputsMarker <:+: trimmed then .skipped else rowRead trimmed
  | none => .overflow

def behindHeading (pieces : List (List UInt8)) : List (List UInt8) :=
  (pieces.dropWhile fun piece => !opensRows piece).tail

/-- The row is behind the first heading of SM3. -/
def ServerSees (pdoTxt : List UInt8) (indexSub : List UInt8) : Prop :=
  ∃ piece ∈ behindHeading (fgetsAll 256 pdoTxt), pieceRead piece = .row indexSub

/-- The piece does not leave an array, and its input can be read. -/
def Readable (inputValue : List UInt8 → Option Int) (piece : List UInt8) : Prop :=
  pieceRead piece ≠ .overflow ∧
    ∀ indexSub, pieceRead piece = .row indexSub → (inputValue indexSub).isSome = true

namespace PdoReader

variable {json : JsonC} (inputValue : List UInt8 → Option Int)

end PdoReader

/-- What the page makes of a line in a section. -/
inductive PageRead where
  | ignored
  | outputs
  | inputs
  /-- more than four words -/
  | row (indexSub : List Nat)
deriving DecidableEq, Repr

def pageRead (text : List Nat) : PageRead :=
  if words text = [] ∨ characters "addr b" <:+: text ∨ characters "index: sub bitl" <:+: text then
    .ignored
  else if characters "SM2 outputs" <:+: text then .outputs
  else if characters "SM3 inputs" <:+: text then .inputs
  else
    match words text with
    | _ :: indexSub :: _ :: _ :: _ :: _ => .row indexSub
    | _ => .ignored

/-- The lines whose last heading is that of SM3 inputs. -/
def inputSection : Bool → List (List Nat) → List (List Nat)
  | _, [] => []
  | inside, text :: rest =>
      match pageRead text with
      | .outputs => inputSection false rest
      | .inputs => inputSection true rest
      | _ => (if inside then [text] else []) ++ inputSection inside rest

/-- The line is in an input section. -/
def PageSees (pdoTxt : List UInt8) (indexSub : List Nat) : Prop :=
  ∃ text ∈ inputSection false (lines (responseText pdoTxt)), pageRead text = .row indexSub

namespace PdoForms

end PdoForms

end WebserverEthercat

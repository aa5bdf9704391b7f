import WebserverEthercat.Festo
import WebserverEthercat.Soem

/-!
# The process image and its exchange

The output and input records of slave 1 lie in `IOmap`.  With LRW
`ec_send_processdata` puts a copy of them into a frame, the slaves echo the
output part, and `ec_receive_processdata` copies the whole returned segment
back.  Without a frame sent since the last receive, and for a frame that does
not come back, it returns `EC_NOFRAME` and copies nothing.
-/

set_option autoImplicit false

namespace WebserverEthercat

/-- What the network does with a frame in flight. -/
inductive FrameReturn where
  | lost
  | returned (wkc : Nat) (inputs : FestoMotorInputs)
deriving DecidableEq, Repr

structure ProcessImage where
  outputs : FestoMotorOutputs
  inputs : FestoMotorInputs
  frame : Option FestoMotorOutputs
deriving DecidableEq, Repr

namespace ProcessImage

def zero : ProcessImage := ⟨.zero, .zero, none⟩

def ecSendProcessdata (image : ProcessImage) : ProcessImage :=
  { image with frame := some image.outputs }

def ecReceiveProcessdata (image : ProcessImage) (answer : FrameReturn) :
    Int × ProcessImage :=
  match image.frame, answer with
  | none, _ => (ecNoframe, image)
  | some _, .lost => (ecNoframe, { image with frame := none })
  | some sent, .returned wkc inputs => (wkc, ⟨sent, inputs, none⟩)

/-- One send directly followed by the receive of its frame. -/
def exchange (image : ProcessImage) (answer : FrameReturn) : Int × ProcessImage :=
  image.ecSendProcessdata.ecReceiveProcessdata answer

def write (image : ProcessImage) (field : OutputField) (value : Int) : ProcessImage :=
  { image with outputs := image.outputs.store field value }

@[simp] theorem load_write_same (image : ProcessImage) (field : OutputField) (value : Int) :
    (image.write field value).outputs.load field = field.converted value :=
  FestoMotorOutputs.load_store_same image.outputs field value

@[simp] theorem load_write_other (image : ProcessImage) (field other : OutputField)
    (value : Int) (different : other ≠ field) :
    (image.write field value).outputs.load other = image.outputs.load other :=
  FestoMotorOutputs.load_store_other image.outputs field other value different

@[simp] theorem receive_without_frame (image : ProcessImage) (answer : FrameReturn)
    (idle : image.frame = none) :
    image.ecReceiveProcessdata answer = (ecNoframe, image) := by
  simp [ecReceiveProcessdata, idle]

theorem exchange_lost (image : ProcessImage) :
    image.exchange .lost = (ecNoframe, { image with frame := none }) := rfl

theorem exchange_returned (image : ProcessImage) (wkc : Nat) (inputs : FestoMotorInputs) :
    image.exchange (.returned wkc inputs) = ((wkc : Int), ⟨image.outputs, inputs, none⟩) := rfl

/-- The echo leaves the outputs as they were sent. -/
@[simp] theorem exchange_outputs (image : ProcessImage) (answer : FrameReturn) :
    (image.exchange answer).2.outputs = image.outputs := by
  cases answer <;> rfl

@[simp] theorem exchange_frame (image : ProcessImage) (answer : FrameReturn) :
    (image.exchange answer).2.frame = none := by
  cases answer <;> rfl

/-- A work counter that is not negative shows that the frame came back, and
the inputs are the ones it brought. -/
theorem exchange_of_nonneg (image : ProcessImage) (answer : FrameReturn)
    (counted : 0 ≤ (image.exchange answer).1) :
    ∃ wkc inputs, answer = .returned wkc inputs ∧
      (image.exchange answer).1 = wkc ∧ (image.exchange answer).2.inputs = inputs := by
  cases answer with
  | lost => exact absurd counted (by simp [exchange_lost, ecNoframe])
  | returned wkc inputs => exact ⟨wkc, inputs, rfl, rfl, rfl⟩

end ProcessImage

/-! ## Single actions on the image -/

/-- What the cyclic thread does to the image, one action at a time. -/
inductive LoopAction where
  | send
  | receive (answer : FrameReturn)
  | write (field : OutputField) (value : Int)
deriving DecidableEq, Repr

namespace ProcessImage

def perform (image : ProcessImage) : LoopAction → ProcessImage
  | .send => image.ecSendProcessdata
  | .receive answer => (image.ecReceiveProcessdata answer).2
  | .write field value => image.write field value

def performAll (image : ProcessImage) (actions : List LoopAction) : ProcessImage :=
  actions.foldl perform image

theorem performAll_append (image : ProcessImage) (first second : List LoopAction) :
    image.performAll (first ++ second) = (image.performAll first).performAll second := by
  simp [performAll]

def writeAll (image : ProcessImage) (writes : List (OutputField × Int)) : ProcessImage :=
  writes.foldl (fun current assignment => current.write assignment.1 assignment.2) image

@[simp] theorem writeAll_nil (image : ProcessImage) : image.writeAll [] = image := rfl

@[simp] theorem writeAll_cons (image : ProcessImage) (assignment : OutputField × Int)
    (rest : List (OutputField × Int)) :
    image.writeAll (assignment :: rest) =
      (image.write assignment.1 assignment.2).writeAll rest := rfl

theorem performAll_writes (image : ProcessImage) (writes : List (OutputField × Int)) :
    image.performAll (writes.map fun assignment => .write assignment.1 assignment.2) =
      image.writeAll writes := by
  simp [performAll, writeAll, List.foldl_map, perform]

theorem writeAll_frame (writes : List (OutputField × Int)) :
    ∀ image : ProcessImage, (image.writeAll writes).frame = image.frame := by
  induction writes with
  | nil => intro image; rfl
  | cons assignment rest ih =>
      intro image
      exact ih (image.write assignment.1 assignment.2)

end ProcessImage

end WebserverEthercat

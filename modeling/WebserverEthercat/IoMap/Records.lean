import WebserverEthercat.Get.PolledValue
import WebserverEthercat.IoMap.Frames
import WebserverEthercat.Loop.Cycle

/-!
# The records in the IOmap

The cyclic loop reads and writes the records of the drive, and the master
exchanges bytes.  A run of the loop on the bytes of the IOmap shows the same
records as the run on `ProcessImage`.
-/

set_option autoImplicit false

namespace WebserverEthercat.IoMap

open EventMachine Pieces

/-! ## Records and bytes -/

def littleEndianBytes : Nat → Nat → List UInt8
  | 0, _ => []
  | width + 1, value => UInt8.ofNat value :: littleEndianBytes width (value / 256)

theorem length_littleEndianBytes (width : Nat) :
    ∀ value, (littleEndianBytes width value).length = width := by
  induction width with
  | zero => exact fun _ => rfl
  | succ width ih => exact fun value => congrArg Nat.succ (ih (value / 256))

theorem littleEndian_bytes (width : Nat) :
    ∀ value, littleEndian (littleEndianBytes width value) = value % 256 ^ width := by
  induction width with
  | zero =>
      intro value
      rw [Nat.pow_zero, Nat.mod_one]
      rfl
  | succ width ih =>
      intro value
      have byte : (UInt8.ofNat value).toNat = value % 256 := UInt8.toNat_ofNat'
      rw [littleEndianBytes, littleEndian, ih, byte, Nat.pow_succ, Nat.mul_comm (256 ^ width),
        Nat.mod_mul]

/-- The first byte of a field of `festo_motor_outputs`, and its bytes. -/
def outputPlace : OutputField → Nat × Nat
  | .controlWord => (0, 2)
  | .modesOfOperation => (2, 1)
  | .targetPosition => (3, 4)
  | .profileVelocity => (7, 4)
  | .targetVelocity => (11, 4)
  | .targetTorque => (15, 2)
  | .velocityOffset => (17, 4)
  | .torqueOffset => (21, 2)

def outputNumber (iomap : List UInt8) (field : OutputField) : Nat :=
  littleEndian (slice iomap (outputPlace field).1 (outputPlace field).2)

/-- The packed record that `ec_slave[1].outputs` points to. -/
def outputsAt (iomap : List UInt8) : FestoMotorOutputs where
  controlWord := UInt16.ofNat (outputNumber iomap .controlWord)
  modesOfOperation := (UInt8.ofNat (outputNumber iomap .modesOfOperation)).toInt8
  targetPosition := (UInt32.ofNat (outputNumber iomap .targetPosition)).toInt32
  profileVelocity := UInt32.ofNat (outputNumber iomap .profileVelocity)
  targetVelocity := (UInt32.ofNat (outputNumber iomap .targetVelocity)).toInt32
  targetTorque := (UInt16.ofNat (outputNumber iomap .targetTorque)).toInt16
  velocityOffset := (UInt32.ofNat (outputNumber iomap .velocityOffset)).toInt32
  torqueOffset := (UInt16.ofNat (outputNumber iomap .torqueOffset)).toInt16

/-- The packed record that `ec_slave[1].inputs` points to. -/
def inputsAt (iomap : List UInt8) : FestoMotorInputs :=
  .overlay (Vector.ofFn fun position : Fin 13 => iomap.getD (23 + position) 0)

/-- The assignment of an `int` to a field. -/
def storeOutput (iomap : List UInt8) (field : OutputField) (value : Int) : List UInt8 :=
  put iomap (outputPlace field).1
    (littleEndianBytes (outputPlace field).2 (value % 256 ^ (outputPlace field).2).toNat)

theorem outputPlace_inside (field : OutputField) :
    (outputPlace field).1 + (outputPlace field).2 ≤ 23 := by
  cases field <;> decide

theorem outputPlace_disjoint {field other : OutputField} (different : other ≠ field) :
    (outputPlace other).1 + (outputPlace other).2 ≤ (outputPlace field).1 ∨
      (outputPlace field).1 + (outputPlace field).2 ≤ (outputPlace other).1 := by
  cases field <;> cases other <;> first | exact absurd rfl different | decide

theorem outputNumber_store_same {iomap : List UInt8} {field : OutputField} {value : Int}
    (enough : 23 ≤ iomap.length) :
    outputNumber (storeOutput iomap field value) field =
      (value % 256 ^ (outputPlace field).2).toNat := by
  have inside := outputPlace_inside field
  have bytes := @slice_put_same _ iomap (littleEndianBytes (outputPlace field).2
    (value % 256 ^ (outputPlace field).2).toNat) (outputPlace field).1 (by omega)
  rw [length_littleEndianBytes] at bytes
  rw [outputNumber, storeOutput, bytes, littleEndian_bytes]
  have positive : (0 : Int) < 256 ^ (outputPlace field).2 := by positivity
  have bound := Int.emod_lt_of_pos value positive
  have nonneg := Int.emod_nonneg value (Int.ne_of_gt positive)
  apply Nat.mod_eq_of_lt
  have cast : ((256 ^ (outputPlace field).2 : Nat) : Int) = 256 ^ (outputPlace field).2 := by
    push_cast
    rfl
  omega

theorem outputNumber_store_other {iomap : List UInt8} {field other : OutputField} {value : Int}
    (enough : 23 ≤ iomap.length) (different : other ≠ field) :
    outputNumber (storeOutput iomap field value) other = outputNumber iomap other := by
  have inside := outputPlace_inside field
  rw [outputNumber, storeOutput, slice_put_other, ← outputNumber]
  · rw [length_littleEndianBytes]
    omega
  · rw [length_littleEndianBytes]
    exact outputPlace_disjoint different

theorem ofNat_emod (width : Nat) (value : Int) :
    BitVec.ofNat width (value % (2 ^ width : Nat)).toNat = BitVec.ofInt width value := by
  apply BitVec.eq_of_toNat_eq
  rw [BitVec.toNat_ofNat, BitVec.toNat_ofInt]
  have positive : (0 : Int) < (2 ^ width : Nat) := by positivity
  have bound := Int.emod_lt_of_pos value positive
  have nonneg := Int.emod_nonneg value (Int.ne_of_gt positive)
  exact Nat.mod_eq_of_lt (by omega)

theorem outputsAt_store {iomap : List UInt8} (enough : 23 ≤ iomap.length) (field : OutputField)
    (value : Int) :
    outputsAt (storeOutput iomap field value) = (outputsAt iomap).store field value := by
  have same := @outputNumber_store_same iomap field value enough
  have others := fun other (different : other ≠ field) =>
    @outputNumber_store_other iomap field other value enough different
  cases field
  all_goals
    simp only [outputsAt, FestoMotorOutputs.store, same, others, ne_eq, reduceCtorEq,
      not_false_eq_true]
    congr 1
  case modesOfOperation.e_modesOfOperation => exact Int8.toBitVec_inj.mp (ofNat_emod 8 value)
  case targetTorque.e_targetTorque => exact Int16.toBitVec_inj.mp (ofNat_emod 16 value)
  case torqueOffset.e_torqueOffset => exact Int16.toBitVec_inj.mp (ofNat_emod 16 value)
  all_goals exact Int32.toBitVec_inj.mp (ofNat_emod 32 value)

/-! ## The loop on bytes -/

/-- What becomes of a frame: it is lost, or the drive puts its inputs into it. -/
inductive DriveReturn where
  | lost
  | returned (wkc : Nat) (inputs : InputImage)
deriving DecidableEq

/-- The drive leaves the bytes of its outputs as they came. -/
def DriveReturn.answer (driveReturn : DriveReturn) (frame : Frame) : Answer :=
  match driveReturn with
  | .lost => .lost
  | .returned wkc inputs => .returned (frame.data.take 23 ++ inputs.toList) wkc 0

def DriveReturn.records : DriveReturn → FrameReturn
  | .lost => .lost
  | .returned wkc inputs => .returned wkc (.overlay inputs)

/-- The drive is the only slave, with 23 bytes of outputs and 13 bytes of inputs. -/
def driveGroup (memory : Nat → Nat) : Group :=
  ecxMainConfigMapGroup [⟨0, 184, 104, false⟩] 0 false 0 0 memory

/-- The IOmap, and the frames on the stack. -/
structure ByteImage where
  iomap : List UInt8
  pushed : List Frame

namespace ByteImage

def send (group : Group) (hasdc : Bool) (image : ByteImage) : ByteImage :=
  { image with pushed := image.pushed ++ (ecxMainSendProcessdata group hasdc image.iomap).2 }

def receive (image : ByteImage) (driveReturn : DriveReturn) : Int × ByteImage :=
  let received := ecxReceiveProcessdataGroup image.iomap image.pushed
    (image.pushed.map driveReturn.answer)
  (received.1, ⟨received.2.iomap, []⟩)

def exchange (group : Group) (hasdc : Bool) (image : ByteImage) (driveReturn : DriveReturn) :
    Int × ByteImage :=
  (image.send group hasdc).receive driveReturn

def write (image : ByteImage) (field : OutputField) (value : Int) : ByteImage :=
  { image with iomap := storeOutput image.iomap field value }

def writeAll (image : ByteImage) (writes : List (OutputField × Int)) : ByteImage :=
  writes.foldl (fun current assignment => current.write assignment.1 assignment.2) image

def records (image : ByteImage) : ProcessImage where
  outputs := outputsAt image.iomap
  inputs := inputsAt image.iomap
  frame := image.pushed.head?.map fun frame => outputsAt frame.data

end ByteImage

/-- `LoopEvent` with the bytes that the drive answers. -/
inductive ByteEvent where
  | start (driveReturn : DriveReturn)
  | waitOp (driveReturn : DriveReturn) (state : UInt16)
  | enter (now : UInt64)
  | cycle (driveReturn : DriveReturn)
  | recover (driveReturn : DriveReturn) (states : List UInt16)
  | body (now again : UInt64)

def ByteEvent.records : ByteEvent → LoopEvent
  | .start driveReturn => .start driveReturn.records
  | .waitOp driveReturn state => .waitOp driveReturn.records state
  | .enter now => .enter now
  | .cycle driveReturn => .cycle driveReturn.records
  | .recover driveReturn states => .recover driveReturn.records states
  | .body now again => .body now again

/-- The loop's variables, whose process data are in `image`. -/
structure ByteLoop where
  /-- its own `image` is not used -/
  loop : LoopState
  image : ByteImage

namespace ByteLoop

variable (group : Group) (hasdc : Bool)

def startUp (state : ByteLoop) (driveReturn : DriveReturn) : ByteLoop where
  loop :=
    { state.loop with
      pc := .waitOp
      inOP := false
      expectedWKC := state.loop.groupWKC
      chk := 40 }
  image := (state.image.exchange group hasdc driveReturn).2

def waitOperational (state : ByteLoop) (driveReturn : DriveReturn) (slaveState : UInt16) :
    ByteLoop where
  loop :=
    { state.loop with
      chk := state.loop.chk - 1
      pc := if state.loop.chk ≠ 0 ∧ slaveState ≠ ecStateOperational then .waitOp
        else if slaveState ≠ ecStateOperational then .givenUp
        else .enter }
  image := (state.image.exchange group hasdc driveReturn).2

def cycleHead (state : ByteLoop) (driveReturn : DriveReturn) : ByteLoop :=
  let counter := state.loop.ethercatLoopCounter + 1
  let received :=
    if LoopState.sendsAt counter then state.image.exchange group hasdc driveReturn
    else state.image.receive driveReturn
  { loop :=
      { state.loop with
        ethercatLoopCounter := counter
        wkc := received.1
        pc := if received.1 < state.loop.expectedWKC then .recover else .body }
    image := received.2 }

def recoverRound (state : ByteLoop) (driveReturn : DriveReturn) : ByteLoop :=
  let received := state.image.exchange group hasdc driveReturn
  { loop :=
      { state.loop with
        wkc := received.1
        expectedWKC := state.loop.groupWKC
        pc := if received.1 < state.loop.groupWKC then .recover else .body }
    image := received.2 }

def cycleBody (state : ByteLoop) (now again : UInt64) : ByteLoop :=
  if state.loop.stopsAt now then
    { state with loop := { state.loop with pc := .closed, timeLimitReached := true } }
  else
    let result := evaluateSwitch state.loop.step state.loop.loopCounter
      (inputsAt state.image.iomap) (timeLimitPassed state.loop.startTimeMs again)
    { loop :=
        { state.loop with
          pc := .head
          step := result.step
          loopCounter := result.loopCounter
          timeLimitReached := result.timeLimitReached }
      image := state.image.writeAll result.writes }

def next (state : ByteLoop) (event : ByteEvent) : Option ByteLoop :=
  match state.loop.pc, event with
  | .start, .start driveReturn => some (state.startUp group hasdc driveReturn)
  | .waitOp, .waitOp driveReturn slaveState =>
      some (state.waitOperational group hasdc driveReturn slaveState)
  | .enter, .enter now => some { state with loop := state.loop.enterCyclic now }
  | .head, .cycle driveReturn => some (state.cycleHead group hasdc driveReturn)
  | .recover, .recover driveReturn _ => some (state.recoverRound group hasdc driveReturn)
  | .body, .body now again => some (state.cycleBody now again)
  | _, _ => none

def records (state : ByteLoop) : LoopState := { state.loop with image := state.image.records }

end ByteLoop

def sends (counter : Nat) : LoopEvent → Bool
  | .start _ | .waitOp _ _ | .recover _ _ => true
  | .cycle _ => LoopState.sendsAt (counter + 1)
  | .enter _ | .body _ _ => false

def ByteLoop.frames (group : Group) (hasdc : Bool) (state : ByteLoop) (event : ByteEvent) :
    List Frame :=
  if sends state.loop.ethercatLoopCounter event.records then
    (ecxMainSendProcessdata group hasdc state.image.iomap).2
  else []

def sentRecords (state : LoopState) (event : LoopEvent) : List FestoMotorOutputs :=
  if sends state.ethercatLoopCounter event then [state.image.outputs] else []

/-! ## One event -/

theorem send_drive (memory : Nat → Nat) (hasdc : Bool) (iomap : List UInt8) :
    ecxMainSendProcessdata (driveGroup memory) hasdc iomap =
      (true, [⟨.lrw, 0, slice iomap 0 36, 0, hasdc⟩]) := rfl

theorem outputsAt_congr {iomap other : List UInt8}
    (same : ∀ position < 23, other[position]? = iomap[position]?) :
    outputsAt other = outputsAt iomap := by
  have numbers : ∀ field, outputNumber other field = outputNumber iomap field := by
    intro field
    have inside := outputPlace_inside field
    rw [outputNumber, outputNumber]
    congr 1
    apply List.ext_getElem?
    intro offset
    rw [slice, slice, List.getElem?_take, List.getElem?_take]
    split
    · rw [List.getElem?_drop, List.getElem?_drop, same _ (by omega)]
    · rfl
  simp only [outputsAt, numbers]

theorem inputsAt_congr {iomap other : List UInt8}
    (same : ∀ position, 23 ≤ position → other[position]? = iomap[position]?) :
    inputsAt other = inputsAt iomap := by
  rw [inputsAt, inputsAt]
  congr 2
  funext position
  rw [List.getD_eq_getElem?_getD, List.getD_eq_getElem?_getD, same _ (Nat.le_add_right _ _)]

/-- Nothing is in flight between the events. -/
structure ByteImage.Idle (image : ByteImage) : Prop where
  enough : 36 ≤ image.iomap.length
  pushed : image.pushed = []

theorem outputsAt_sent {iomap : List UInt8} : outputsAt (slice iomap 0 36) = outputsAt iomap := by
  apply outputsAt_congr
  intro position output
  rw [slice, List.drop_zero, List.getElem?_take_of_lt (by omega)]

theorem records_returned {iomap : List UInt8} (enough : 36 ≤ iomap.length)
    (inputs : InputImage) :
    ByteImage.records ⟨put iomap 0 ((slice iomap 0 36).take 23 ++ inputs.toList), []⟩ =
      ⟨outputsAt iomap, .overlay inputs, none⟩ := by
  have echoed : (slice iomap 0 36).take 23 = iomap.take 23 := by
    rw [slice, List.drop_zero, List.take_take]
    rfl
  have front : (iomap.take 23).length = 23 := by
    rw [List.length_take, Nat.min_eq_left (by omega)]
  rw [ByteImage.records, echoed, inputsAt]
  congr 1
  · apply outputsAt_congr
    intro position output
    rw [put, List.take_zero, List.nil_append, List.append_assoc,
      List.getElem?_append_left (by omega), List.getElem?_take_of_lt output]
  · congr 1
    ext position inside
    rw [Vector.getElem_ofFn, put, List.take_zero, List.nil_append, List.append_assoc,
      List.getD_eq_getElem?_getD, List.getElem?_append_right (by dsimp only; omega), front]
    dsimp only
    rw [Nat.add_sub_cancel_left, List.getElem?_append_left (by simp; omega)]
    simp [inside]

namespace ByteImage

variable {image : ByteImage}

theorem Idle.records_eq (idle : image.Idle) :
    image.records = ⟨outputsAt image.iomap, inputsAt image.iomap, none⟩ := by
  rw [records, idle.pushed]
  rfl

theorem Idle.receive (idle : image.Idle) (driveReturn : DriveReturn) :
    image.receive driveReturn = (ecNoframe, image) := by
  obtain ⟨iomap, pushed⟩ := image
  obtain rfl : pushed = [] := idle.pushed
  rfl

theorem exchange_lost (memory : Nat → Nat) (hasdc : Bool) (iomap : List UInt8) :
    ByteImage.exchange (driveGroup memory) hasdc ⟨iomap, []⟩ .lost =
      (ecNoframe, ⟨iomap, []⟩) := by
  simp [ByteImage.exchange, send, ByteImage.receive, send_drive, ecxReceiveProcessdataGroup,
    DriveReturn.answer, Received.frame, ecNoframe, ecMaxBuf]

theorem exchange_returned (memory : Nat → Nat) (hasdc : Bool) (iomap : List UInt8) (wkc : Nat)
    (inputs : InputImage) :
    ByteImage.exchange (driveGroup memory) hasdc ⟨iomap, []⟩ (.returned wkc inputs) =
      ((wkc : Int), ⟨put iomap 0 ((slice iomap 0 36).take 23 ++ inputs.toList), []⟩) := by
  cases hasdc <;>
    simp [ByteImage.exchange, send, ByteImage.receive, send_drive, ecxReceiveProcessdataGroup,
      DriveReturn.answer, Received.frame, Command.counted, Command.stored, ecMaxBuf]

theorem Idle.exchange (idle : image.Idle) (memory : Nat → Nat) (hasdc : Bool)
    (driveReturn : DriveReturn) :
    let exchanged := image.exchange (driveGroup memory) hasdc driveReturn
    exchanged.1 = (image.records.exchange driveReturn.records).1 ∧
      exchanged.2.records = (image.records.exchange driveReturn.records).2 ∧
      exchanged.2.Idle := by
  obtain ⟨enough, nothing⟩ := idle
  obtain ⟨iomap, pushed⟩ := image
  obtain rfl : pushed = [] := nothing
  cases driveReturn with
  | lost =>
      rw [exchange_lost]
      exact ⟨rfl, rfl, enough, rfl⟩
  | returned wkc inputs =>
      rw [exchange_returned]
      dsimp only at enough ⊢
      have length : ((slice iomap 0 36).take 23 ++ inputs.toList).length = 36 := by
        rw [List.length_append, List.length_take, length_slice enough, Vector.length_toList]
        rfl
      have bound : 0 + ((slice iomap 0 36).take 23 ++ inputs.toList).length ≤ iomap.length := by
        omega
      rw [records_returned enough inputs]
      exact ⟨rfl, rfl, Nat.le_trans enough (Nat.le_of_eq (length_put bound).symm), rfl⟩

theorem Idle.write (idle : image.Idle) (field : OutputField) (value : Int) :
    (image.write field value).records = image.records.write field value ∧
      (image.write field value).Idle := by
  have enough := idle.enough
  have place := outputPlace_inside field
  have bytes := length_littleEndianBytes (outputPlace field).2
    (value % 256 ^ (outputPlace field).2).toNat
  have inputs : inputsAt (storeOutput image.iomap field value) = inputsAt image.iomap := by
    apply inputsAt_congr
    intro position input
    rw [storeOutput]
    exact getElem?_put_other (by omega) (by omega)
  refine ⟨?_, ?_, idle.pushed⟩
  · rw [records, records, ProcessImage.write, ByteImage.write, outputsAt_store (by omega), inputs]
  · exact Nat.le_trans enough (Nat.le_of_eq (length_put (by omega)).symm)

theorem Idle.writeAll (writes : List (OutputField × Int)) :
    ∀ {image : ByteImage}, image.Idle →
      (image.writeAll writes).records = image.records.writeAll writes ∧
        (image.writeAll writes).Idle := by
  induction writes with
  | nil => exact fun idle => ⟨rfl, idle⟩
  | cons assignment rest ih =>
      intro image idle
      obtain ⟨same, still⟩ := idle.write assignment.1 assignment.2
      obtain ⟨later, last⟩ := ih still
      rw [same] at later
      exact ⟨later, last⟩

end ByteImage

/-- What an event leaves: the records of the loop on records, and nothing in flight. -/
def Matches (after : Option ByteLoop) (expected : Option LoopState) : Prop :=
  after.map ByteLoop.records = expected ∧ ∀ state ∈ after, state.image.Idle

theorem cycleHead_matches (memory : Nat → Nat) (hasdc : Bool) {state : ByteLoop}
    (idle : state.image.Idle) (driveReturn : DriveReturn) :
    Matches (some (state.cycleHead (driveGroup memory) hasdc driveReturn))
      (some (state.records.cycleHead driveReturn.records)) := by
  obtain ⟨count, same, still⟩ := idle.exchange memory hasdc driveReturn
  by_cases sent : LoopState.sendsAt (state.loop.ethercatLoopCounter + 1) = true
  · refine ⟨congrArg some ?_, ?_⟩
    · simp only [ByteLoop.records, ByteLoop.cycleHead, LoopState.cycleHead, sent, if_true, count,
        same]
    · intro after here
      cases here
      simpa only [ByteLoop.cycleHead, sent, if_true] using still
  · have none : state.image.records.ecReceiveProcessdata driveReturn.records =
        (ecNoframe, state.image.records) :=
      ProcessImage.receive_without_frame _ _ (by rw [idle.records_eq])
    refine ⟨congrArg some ?_, ?_⟩
    · simp only [ByteLoop.records, ByteLoop.cycleHead, LoopState.cycleHead, sent, if_false,
        idle.receive, none, Bool.false_eq_true]
    · intro after here
      cases here
      simpa only [ByteLoop.cycleHead, sent, if_false, idle.receive, Bool.false_eq_true] using idle

theorem cycleBody_matches {state : ByteLoop} (idle : state.image.Idle) (now again : UInt64) :
    Matches (some (state.cycleBody now again)) (some (state.records.cycleBody now again)) := by
  have stops : state.records.stopsAt now = state.loop.stopsAt now := rfl
  by_cases ends : state.loop.stopsAt now = true
  · refine ⟨congrArg some ?_, ?_⟩
    · simp only [ByteLoop.cycleBody, LoopState.cycleBody, stops, ends, if_true]
      rfl
    · intro after here
      cases here
      simpa only [ByteLoop.cycleBody, ends, if_true] using idle
  · obtain ⟨same, still⟩ := ByteImage.Idle.writeAll (evaluateSwitch state.loop.step
      state.loop.loopCounter (inputsAt state.image.iomap)
      (timeLimitPassed state.loop.startTimeMs again)).writes idle
    refine ⟨congrArg some ?_, ?_⟩
    · rw [ByteLoop.cycleBody, if_neg ends, LoopState.cycleBody, stops, if_neg ends]
      simp only [ByteLoop.records, same]
      rfl
    · intro after here
      cases here
      simpa only [ByteLoop.cycleBody, ends, if_false, Bool.false_eq_true] using still

theorem next_matches (memory : Nat → Nat) (hasdc : Bool) {state : ByteLoop}
    (idle : state.image.Idle) (event : ByteEvent) :
    Matches (state.next (driveGroup memory) hasdc event) (state.records.next event.records) := by
  have pcIs : state.records.pc = state.loop.pc := rfl
  have nothing : Matches none none := ⟨rfl, by simp⟩
  have exchanged := idle.exchange memory hasdc
  cases event with
  | start driveReturn =>
      obtain ⟨-, same, still⟩ := exchanged driveReturn
      cases pc : state.loop.pc <;>
        simp only [ByteLoop.next, LoopState.next, ByteEvent.records, pcIs, pc, nothing]
      refine ⟨congrArg some ?_, ?_⟩
      · simp only [ByteLoop.records, ByteLoop.startUp, LoopState.startUp, same]
        rfl
      · intro after here
        cases here
        exact still
  | waitOp driveReturn slaveState =>
      obtain ⟨-, same, still⟩ := exchanged driveReturn
      cases pc : state.loop.pc <;>
        simp only [ByteLoop.next, LoopState.next, ByteEvent.records, pcIs, pc, nothing]
      refine ⟨congrArg some ?_, ?_⟩
      · simp only [ByteLoop.records, ByteLoop.waitOperational, LoopState.waitOperational, same]
        rfl
      · intro after here
        cases here
        exact still
  | enter now =>
      cases pc : state.loop.pc <;>
        simp only [ByteLoop.next, LoopState.next, ByteEvent.records, pcIs, pc, nothing]
      refine ⟨rfl, ?_⟩
      intro after here
      cases here
      exact idle
  | cycle driveReturn =>
      cases pc : state.loop.pc <;>
        simp only [ByteLoop.next, LoopState.next, ByteEvent.records, pcIs, pc, nothing]
      exact cycleHead_matches memory hasdc idle driveReturn
  | recover driveReturn states =>
      obtain ⟨count, same, still⟩ := exchanged driveReturn
      cases pc : state.loop.pc <;>
        simp only [ByteLoop.next, LoopState.next, ByteEvent.records, pcIs, pc, nothing]
      refine ⟨congrArg some ?_, ?_⟩
      · simp only [ByteLoop.records, ByteLoop.recoverRound, LoopState.recoverRound, same, count]
        rfl
      · intro after here
        cases here
        exact still
  | body now again =>
      cases pc : state.loop.pc <;>
        simp only [ByteLoop.next, LoopState.next, ByteEvent.records, pcIs, pc, nothing]
      exact cycleBody_matches idle now again

theorem frames_match (memory : Nat → Nat) (hasdc : Bool) (state : ByteLoop) (event : ByteEvent) :
    (state.frames (driveGroup memory) hasdc event).map (fun frame => outputsAt frame.data) =
      sentRecords state.records event.records := by
  have counter : state.records.ethercatLoopCounter = state.loop.ethercatLoopCounter := rfl
  rw [ByteLoop.frames, sentRecords, counter, send_drive]
  split
  · rw [List.map_singleton, outputsAt_sent]
    rfl
  · rfl

/-! ## Runs -/

/-- Every run of the loop on the bytes of the IOmap, whatever becomes of the frames, shows the run
on the records: what the program stores lies in the frames that the drive gets, and what the drive
puts there is what the program reads. -/
theorem records_refined (memory : Nat → Nat) (hasdc : Bool) (events : List ByteEvent) :
    ∀ start : ByteLoop, 36 ≤ start.image.iomap.length → start.image.pushed = [] →
      (run (ByteLoop.next (driveGroup memory) hasdc) events start).map ByteLoop.records =
        run LoopState.next (events.map ByteEvent.records) start.records ∧
      (record (ByteLoop.next (driveGroup memory) hasdc)
          (ByteLoop.frames (driveGroup memory) hasdc) events start).map
          (fun frame => outputsAt frame.data) =
        record LoopState.next sentRecords (events.map ByteEvent.records) start.records := by
  induction events with
  | nil => exact fun _ _ _ => ⟨rfl, rfl⟩
  | cons event events ih =>
      intro start enough nothing
      obtain ⟨same, idle⟩ := next_matches memory hasdc ⟨enough, nothing⟩ event
      have sent := frames_match memory hasdc start event
      rw [List.map_cons, run_cons, run_cons, record, record, List.map_append, sent, ← same]
      cases step : start.next (driveGroup memory) hasdc event with
      | none => exact ⟨rfl, rfl⟩
      | some after =>
          have still := idle after step
          obtain ⟨later, laterSent⟩ := ih after still.enough still.pushed
          exact ⟨later, congrArg (_ ++ ·) laterSent⟩

/-- The first control word is stored and sent in turn 10, and the drive sees it. -/
theorem records_refined_controlWord :
    let start : ByteLoop :=
      ⟨{ LoopState.initial .zero 1 1 with pc := .body, ethercatLoopCounter := 9, expectedWKC := 3 },
        ⟨List.replicate 36 0, []⟩⟩
    let events : List ByteEvent := [.body 0 0, .cycle (.returned 3 (Vector.replicate 13 1))]
    let frames := record (ByteLoop.next (driveGroup fun _ => 0) true)
      (ByteLoop.frames (driveGroup fun _ => 0) true) events start
    frames.map (fun frame => outputsAt frame.data) =
        [{ FestoMotorOutputs.zero with controlWord := 6 }] ∧
      (run (ByteLoop.next (driveGroup fun _ => 0) true) events start).map ByteLoop.records =
        run LoopState.next (events.map ByteEvent.records) start.records :=
  ⟨rfl, (records_refined (fun _ => 0) true _ _ (by simp) rfl).1⟩

end WebserverEthercat.IoMap

import WebserverEthercat.IoMap.Frames

/-!
# A network that answers

Every slave of the group takes part in each frame that reaches its data: it
takes its outputs, puts in its inputs, and counts up the work counter.
-/

set_option autoImplicit false

namespace WebserverEthercat.IoMap

open Pieces

/-- A frame for these addresses reaches the data of the slave. -/
def Mapped.touches (area : Mapped) (frame : Nat × Nat) : Bool :=
  area.start.logAddr < frame.1 + frame.2 ∧ frame.1 < area.start.logAddr + area.bytes

def touching (areas : List Mapped) (frame : Nat × Nat) : Nat :=
  areas.countP fun area => area.touches frame

/-- With LRW a slave that reads and writes counts 1 and 2. -/
def Group.workCounter (group : Group) (command : Command) (frame : Nat × Nat) : Nat :=
  match command with
  | .lrd => touching group.inputs frame
  | .lwr => touching group.outputs frame
  | .lrw => touching group.inputs frame + 2 * touching group.outputs frame

/-- Behind the outputs the frame brings the inputs. -/
def Group.answerData (group : Group) (inputs : Nat → UInt8) (frame : Frame) : List UInt8 :=
  frame.data.mapIdx fun offset byte =>
    if group.logstartaddr + group.obytes ≤ frame.logAdr + offset then
      inputs (frame.logAdr + offset)
    else byte

def Group.answer (group : Group) (inputs : Nat → UInt8) (dcTime : Int) (frame : Frame) : Answer :=
  .returned (group.answerData inputs frame)
    (group.workCounter frame.command (frame.logAdr, frame.data.length)) dcTime

/-- The byte that the frame writes at a logical address. -/
def Frame.delivers (frame : Frame) (address : Nat) : Option UInt8 :=
  if frame.command ≠ .lrd ∧ frame.logAdr ≤ address then frame.data[address - frame.logAdr]?
  else none

/-! ## The work counters -/

/-- The addresses and lengths of consecutive frames. -/
def placed : List Nat → Nat → List (Nat × Nat)
  | [], _ => []
  | length :: lengths, logAdr => (logAdr, length) :: placed lengths (logAdr + length)

/-- What the IOmap holds at a position after the exchange. -/
def Group.exchanged (group : Group) (inputs : Nat → UInt8) (iomap : List UInt8) (position : Nat) :
    UInt8 :=
  if group.obytes ≤ position then inputs (group.logstartaddr + position)
  else iomap.getD position 0

/-- A whole image: the outputs, the inputs of the slaves, and what stands behind them. -/
def Group.image (group : Group) (inputs : Nat → UInt8) (iomap : List UInt8) : List UInt8 :=
  iomap.take group.obytes ++ (((List.range' group.obytes group.ibytes).map
    fun position => inputs (group.logstartaddr + position)) ++
      iomap.drop (group.obytes + group.ibytes))

/-- The frames that read, with LRD and LWR. -/
def Group.reads (group : Group) (hasdc : Bool) (iomap : List UInt8) : List Frame :=
  if group.ibytes ≠ 0 then
    framesOf .lrd iomap (sentLengths group.inputSegments) (group.logstartaddr + group.obytes)
      group.obytes hasdc
  else []

/-- The frames that write; the first one has the clock if none reads. -/
def Group.writes (group : Group) (first : Bool) (iomap : List UInt8) : List Frame :=
  if group.obytes ≠ 0 then
    framesOf .lwr iomap (sentLengths group.outputSegments) group.logstartaddr 0 first
  else []

end WebserverEthercat.IoMap

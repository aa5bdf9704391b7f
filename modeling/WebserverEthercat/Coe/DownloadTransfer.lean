import WebserverEthercat.Coe.SdoWrite
import WebserverEthercat.Coe.Losses
import WebserverEthercat.Coe.UploadTransfer

/-!
# Downloads

`ecx_SDOwrite` over a link with losses stores what it was given, or nothing.
-/

set_option autoImplicit false

namespace WebserverEthercat.Coe

open Reads

/-! ## Requests -/

/-- What is stored where, and what the slave holds before. -/
structure Job where
  objects : Objects
  index : UInt16
  subIndex : UInt8
  content : List UInt8

def Job.stored (job : Job) : Objects := put job.objects job.index job.subIndex job.content

section Segments

variable {slave : Slave} {job : Job} {sent piece behind : List UInt8} {state : slave.State}
  {toggle : UInt8} {final : Bool} {request : Frame}

/-- The slave has got what was sent, or less. -/
structure Halfway (job : Job) (sent : List UInt8) (slave : Slave) (state : slave.State) : Prop where
  objects : slave.objects state = job.objects
  transfer : slave.transfer state = .idle ∨ ∃ got expected, Toggle expected ∧
    (got = sent ∨ got.length < sent.length) ∧
      slave.transfer state = .download job.index job.subIndex job.content.length got expected

theorem Halfway.lost (halfway : Halfway job sent slave state) (nonempty : 0 < piece.length) :
    Halfway job (sent ++ piece) slave state := by
  refine ⟨halfway.objects, halfway.transfer.imp_right ?_⟩
  rintro ⟨got, expected, bit, part, transfer⟩
  refine ⟨got, expected, bit, .inr ?_, transfer⟩
  rw [List.length_append]
  rcases part with rfl | fewer <;> omega

theorem Aborts.segmentError {frame : Frame} (aborts : Aborts frame) :
    segmentError frame = some (unexpected frame) := by
  rw [Coe.segmentError, aborts.not_isSdoRes]
  rfl

theorem AcknowledgesSegment.segmentError {frame : Frame}
    (acknowledges : AcknowledgesSegment frame) : segmentError frame = none := by
  rw [Coe.segmentError, if_pos ⟨acknowledges.isSdoRes, acknowledges.specifier⟩]

section Collecting

variable {got : List UInt8}

end Collecting

end Segments

/-! ## The loop -/

section Writes

variable {slave : Slave} {fates : Nat → Fate} {job : Job} {inStep : Prop} {time : Nat}
  {state : slave.State}

end Writes

section AfterSegment

variable {args : SdoArgs} {toggle mbxCnt : UInt8} {rest data : List UInt8} {answer : Option Frame}

variable {slave : Slave} {fates : Nat → Fate} {job : Job} {inStep : Prop} {sent : List UInt8}
  {time : Nat} {next : slave.State}

end AfterSegment

theorem Acknowledges.acknowledges {args : SdoArgs} {frame : Frame} {subIndex : UInt8}
    (answered : Acknowledges frame args.index subIndex) : acknowledges args subIndex frame = true := by
  simp [Coe.acknowledges, answered.isSdoRes, answered.toIndex, answered.toSubIndex]

/-- What is stored for the data of a write; a command without any announces four bytes. -/
def announcedData (data : List UInt8) : List UInt8 := if data = [] then [0, 0, 0, 0] else data

section Calls

variable {slave : Slave} {job : Job} {state : slave.State} {args : SdoArgs}

end Calls

end WebserverEthercat.Coe

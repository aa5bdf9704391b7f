import WebserverEthercat.Coe.Exchange

/-!
# Slaves

What is on the other side, as far as the transfer protocol goes: objects are
answered at once or in segments, the requests for which have to toggle; what is
written is collected until the announced size is there, and stored then.
-/

set_option autoImplicit false

namespace WebserverEthercat.Coe

def Toggle (toggle : UInt8) : Prop := toggle = 0 ∨ toggle = 0x10

theorem Toggle.next {toggle : UInt8} (bit : Toggle toggle) : Toggle (toggle ^^^ 0x10) := by
  rcases bit with rfl | rfl
  · exact .inr rfl
  · exact .inl rfl

/-! ## Requests -/

/-- An SDO request that is as long as its header says. -/
structure Request (frame : Frame) : Prop where
  mbxtype : frame.mbxtype &&& 0x0f = ectMbxtCoe
  service : frame.canOpen >>> 12 = ectCoesSdoReq
  complete : 6 + frame.length.toNat ≤ List.length frame

structure Asks (frame : Frame) (index : UInt16) (subIndex : UInt8) : Prop where
  request : Request frame
  command : frame.command = ectSdoUpReq
  toIndex : frame.index = index
  toSubIndex : frame.subIndex = subIndex

structure AsksSegment (frame : Frame) (toggle : UInt8) : Prop where
  request : Request frame
  bit : Toggle toggle
  command : frame.command = ectSdoSegUpReq + toggle

/-- An object of some size is to be written, and this comes first. -/
structure Starts (frame : Frame) (index : UInt16) (subIndex : UInt8) (size : Nat)
    (first : List UInt8) (short : Bool) : Prop where
  request : Request frame
  specifier : frame.command &&& 0xe0 = 0x20
  single : ¬ frame.command &&& 0x10 > 0
  toIndex : frame.index = index
  toSubIndex : frame.subIndex = subIndex
  expedited : decide (frame.command &&& 0x02 > 0) = short
  announced : (if short then 4 - ((frame.command >>> 2) &&& 0x03).toNat
    else frame.ldata0.toNat) = size
  carried : (if short then frame.bytes 12 size
    else frame.bytes 16 (frame.length - 10).toNat) = first

/-- The next segment of what is to be written, which is the last one if `final`. -/
structure Delivers (frame : Frame) (toggle : UInt8) (piece : List UInt8) (final : Bool) :
    Prop where
  request : Request frame
  specifier : frame.command &&& 0xe0 = 0
  bit : Toggle toggle
  toggle : frame.command &&& 0x10 = toggle
  last : decide (frame.command &&& 0x01 > 0) = final
  count : (if final ∧ frame.length = 0x0a then 7 - ((frame.command &&& 0x0e) >>> 1).toNat
    else (frame.length - 3).toNat) = piece.length
  bytes : frame.bytes 9 piece.length = piece

/-! ## Answers -/

/-- An abort, which is sent as a request. -/
structure Aborts (frame : Frame) : Prop where
  service : frame.canOpen >>> 12 = ectCoesSdoReq
  command : frame.command = ectSdoAbort

/-- All of an object at once. -/
structure Expedites (frame : Frame) (index : UInt16) (content : List UInt8) : Prop where
  isSdoRes : isSdoRes frame = true
  toIndex : frame.index = index
  expedited : frame.command &&& 0x02 > 0
  size : 4 - ((frame.command >>> 2) &&& 0x03).toNat = content.length
  bytes : frame.bytes 12 content.length = content

/-- The size of an object, and its first bytes. -/
structure Opens (frame : Frame) (index : UInt16) (first : List UInt8) (size : Nat) : Prop where
  isSdoRes : isSdoRes frame = true
  toIndex : frame.index = index
  normal : ¬ frame.command &&& 0x02 > 0
  announced : frame.ldata0.toNat = size
  small : size < 2 ^ 31
  length : frame.length.toNat = 10 + first.length
  bytes : frame.bytes 16 first.length = first
  fits : 16 + first.length ≤ ecMaxMbx

/-- The bytes behind, the last ones or not. -/
structure Carries (frame : Frame) (piece : List UInt8) (final : Bool) : Prop where
  isSdoRes : isSdoRes frame = true
  specifier : frame.command &&& 0xe0 = 0
  last : frame.command &&& 0x01 > 0 ↔ final = true
  size : if final ∧ frame.length = 0x0a then
      ((frame.command &&& 0x0e) >>> 1).toNat + piece.length = 7
    else frame.length.toNat = 3 + piece.length
  bytes : frame.bytes 9 piece.length = piece
  fits : 9 + piece.length ≤ ecMaxMbx

structure Acknowledges (frame : Frame) (index : UInt16) (subIndex : UInt8) : Prop where
  isSdoRes : isSdoRes frame = true
  toIndex : frame.index = index
  toSubIndex : frame.subIndex = subIndex

structure AcknowledgesSegment (frame : Frame) : Prop where
  isSdoRes : isSdoRes frame = true
  specifier : frame.command &&& 0xe0 = 0x20

/-! ## The slave -/

abbrev Objects := UInt16 → UInt8 → Option (List UInt8)

def put (objects : Objects) (index : UInt16) (subIndex : UInt8) (content : List UInt8) : Objects :=
  fun otherIndex otherSub =>
    if otherIndex = index ∧ otherSub = subIndex then some content else objects otherIndex otherSub

/-- How an object is cut; what comes first may be empty. -/
structure Cut where
  first : List UInt8
  rest : List (List UInt8)
  nonempty : ∀ piece ∈ rest, piece ≠ []

namespace Cut

def pieces (cut : Cut) : List (List UInt8) := cut.first :: cut.rest

def content (cut : Cut) : List UInt8 := cut.pieces.flatten

end Cut

inductive Transfer where
  | idle
  | upload (rest : List (List UInt8)) (toggle : UInt8)
  | download (index : UInt16) (subIndex : UInt8) (size : Nat) (got : List UInt8) (toggle : UInt8)

/-- A slave; nothing is said of what else is in its state. -/
structure Slave where
  State : Type
  answer : State → Frame → Frame × State
  objects : State → Objects
  transfer : State → Transfer
  /-- how it cuts an object when it is asked for it -/
  cut : State → UInt16 → UInt8 → Cut
  /-- an object may be written, in this size -/
  takes : UInt16 → UInt8 → Nat → Bool

namespace Slave

variable (slave : Slave)

/-- The request is answered with an abort, and no transfer goes on. -/
structure Refuses (state : slave.State) (request : Frame) : Prop where
  aborts : Aborts (slave.answer state request).1
  objects : slave.objects (slave.answer state request).2 = slave.objects state
  transfer : slave.transfer (slave.answer state request).2 = .idle

/-- The request is answered, and another transfer state reached, without a change of any object. -/
structure Continues (state : slave.State) (request : Frame) (transfer : Transfer) : Prop where
  objects : slave.objects (slave.answer state request).2 = slave.objects state
  transfer : slave.transfer (slave.answer state request).2 = transfer

/-- The slave keeps to the protocol.  What it answers to other requests is left open. -/
structure Follows : Prop where
  absent : ∀ state request index subIndex, Asks request index subIndex →
    slave.objects state index subIndex = none → slave.Refuses state request
  held : ∀ state request index subIndex content, Asks request index subIndex →
    slave.objects state index subIndex = some content →
    (slave.cut state index subIndex).content = content ∧
      slave.objects (slave.answer state request).2 = slave.objects state ∧
      (Expedites (slave.answer state request).1 index content ∨
        (Opens (slave.answer state request).1 index (slave.cut state index subIndex).first
            content.length ∧
          slave.transfer (slave.answer state request).2 =
            .upload (slave.cut state index subIndex).rest 0))
  segment : ∀ state request piece rest toggle, AsksSegment request toggle →
    slave.transfer state = .upload (piece :: rest) toggle →
    Carries (slave.answer state request).1 piece rest.isEmpty ∧
      slave.Continues state request
        (if rest.isEmpty then .idle else .upload rest (toggle ^^^ 0x10))
  otherSegment : ∀ state request toggle, AsksSegment request toggle →
    (∀ piece rest, slave.transfer state ≠ .upload (piece :: rest) toggle) →
    slave.Refuses state request
  untaken : ∀ state request index subIndex size first short,
    Starts request index subIndex size first short → slave.takes index subIndex size = false →
    slave.Refuses state request
  taken : ∀ state request index subIndex first short,
    Starts request index subIndex first.length first short →
    slave.takes index subIndex first.length = true →
    Acknowledges (slave.answer state request).1 index subIndex ∧
      slave.objects (slave.answer state request).2 =
        put (slave.objects state) index subIndex first
  begun : ∀ state request index subIndex size first,
    Starts request index subIndex size first false → first.length < size →
    slave.takes index subIndex size = true →
    Acknowledges (slave.answer state request).1 index subIndex ∧
      slave.Continues state request (.download index subIndex size first 0)
  completed : ∀ state request index subIndex got piece toggle,
    Delivers request toggle piece true →
    slave.transfer state = .download index subIndex (got ++ piece).length got toggle →
    AcknowledgesSegment (slave.answer state request).1 ∧
      slave.objects (slave.answer state request).2 =
        put (slave.objects state) index subIndex (got ++ piece)
  collected : ∀ state request index subIndex size got piece toggle,
    Delivers request toggle piece false →
    slave.transfer state = .download index subIndex size got toggle →
    (got ++ piece).length < size →
    AcknowledgesSegment (slave.answer state request).1 ∧
      slave.Continues state request
        (.download index subIndex size (got ++ piece) (toggle ^^^ 0x10))
  incomplete : ∀ state request index subIndex size got piece toggle,
    Delivers request toggle piece true →
    slave.transfer state = .download index subIndex size got toggle →
    (got ++ piece).length < size → slave.Refuses state request
  otherDownload : ∀ state request piece toggle final, Delivers request toggle piece final →
    (∀ index subIndex size got, slave.transfer state ≠ .download index subIndex size got toggle) →
    slave.Refuses state request

/-- Every request is answered. -/
def serve (state : slave.State) (request : Frame) : Option (Option Frame × slave.State) :=
  let answered := slave.answer state request
  some (some answered.1, answered.2)

end Slave

theorem Aborts.not_isSdoRes {frame : Frame} (aborts : Aborts frame) : isSdoRes frame = false := by
  simp [isSdoRes, aborts.service, ectCoesSdoReq, ectCoesSdoRes]

end WebserverEthercat.Coe

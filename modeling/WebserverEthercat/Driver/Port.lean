import Mathlib.Logic.Function.Basic

/-!
# The port

The driver keeps a transmit and a receive buffer for each of 16 indexes.  What
comes in is filed by the index that stands in it, whoever reads it from the
socket.
-/

set_option autoImplicit false

namespace WebserverEthercat.Driver

def ecMaxBuf : Nat := 16

abbrev Index := Fin ecMaxBuf

def zeroIndex : Index := ⟨0, by decide⟩

/-- `idx++`, and 0 behind the last buffer. -/
def following (idx : Index) : Index :=
  if inside : idx.val + 1 < ecMaxBuf then ⟨idx.val + 1, inside⟩ else zeroIndex

/-- `ec_bufstate` -/
inductive BufState where
  | empty
  | alloc
  | tx
  | rcvd
  | complete
deriving DecidableEq, Repr

/-- A frame that is read from the socket; `ethercat` says that it is one. -/
structure Frame (Data : Type) where
  ethercat : Bool
  index : Nat
  data : Data

/-- `ecx_portt` without redundancy. -/
structure Port (Data : Type) where
  txbuf : Index → Data
  rxbuf : Index → Data
  rxbufstat : Index → BufState
  lastidx : Index

/-- What `ecx_inframe` returns; the working counter stands in the frame. -/
inductive Inframe (Data : Type) where
  | noFrame
  | otherFrame
  | frame (data : Data)

namespace Port

variable {Data : Type}

/-- `while ((port->rxbufstat[idx] != EC_BUF_EMPTY) && (cnt < EC_MAXBUF))` -/
def search (port : Port Data) : Nat → Index → Index
  | 0, idx => idx
  | left + 1, idx => if port.rxbufstat idx = .empty then idx else port.search left (following idx)

def setbufstat (port : Port Data) (idx : Index) (bufstat : BufState) : Port Data :=
  { port with rxbufstat := Function.update port.rxbufstat idx bufstat }

/-- The index that `ecx_getindex` returns. -/
def newIndex (port : Port Data) : Index := port.search ecMaxBuf (following port.lastidx)

def getindex (port : Port Data) : Port Data :=
  { port.setbufstat port.newIndex .alloc with lastidx := port.newIndex }

/-- `ecx_setupdatagram` and `ecx_adddatagram` write the frame that is sent. -/
def setup (port : Port Data) (idx : Index) (data : Data) : Port Data :=
  { port with txbuf := Function.update port.txbuf idx data }

/-- A frame is put into its buffer. -/
def file (port : Port Data) (idx : Index) (data : Data) (bufstat : BufState) : Port Data :=
  { port.setbufstat idx bufstat with rxbuf := Function.update port.rxbuf idx data }

/-- `ecx_inframe`; `received` is what `recv` gives, if it is called. -/
def inframe (port : Port Data) (idx : Index) (received : Option (Frame Data)) :
    Inframe Data × Port Data :=
  if port.rxbufstat idx = .rcvd then (.frame (port.rxbuf idx), port.setbufstat idx .complete)
  else
    match received with
    | none => (.noFrame, port)
    | some frame =>
      if frame.ethercat then
        if frame.index = idx then (.frame frame.data, port.file idx frame.data .complete)
        else if inside : frame.index < ecMaxBuf then
          if port.rxbufstat ⟨frame.index, inside⟩ = .tx then
            (.otherFrame, port.file ⟨frame.index, inside⟩ frame.data .rcvd)
          else (.otherFrame, port)
        else (.otherFrame, port)
      else (.otherFrame, port)

end Port

/-! ## Callers and the network -/

/-- The port and the frames that are on their way back. -/
structure Link (Data : Type) where
  port : Port Data
  wire : List (Frame Data)

/-- A caller has no index, has been given one, or has filled its buffer with a frame. -/
inductive Holding (Data : Type) where
  | nothing
  | given (idx : Index)
  | filled (idx : Index) (data : Data)

def Holding.index {Data : Type} : Holding Data → Option Index
  | .nothing => none
  | .given idx => some idx
  | .filled idx _ => some idx

structure System (Caller Data : Type) extends Link Data where
  holding : Caller → Holding Data

/-- What the callers do, and what becomes of the frames.  A caller that has filled its buffer
sends it, looks for the answer, and sends again, as often as it likes and whether `send` has
failed or not. -/
inductive Event (Caller Data Choice : Type) where
  | getindex (caller : Caller)
  | setup (caller : Caller) (data : Data)
  /-- `ecx_outframe` up to the call of `send`. -/
  | outframe (caller : Caller)
  /-- The slaves answer as they choose, or the frame is lost. -/
  | sent (caller : Caller) (answered : Option Choice)
  | sendFailed (caller : Caller)
  /-- `recv` takes one of the frames, or none. -/
  | inframe (caller : Caller) (taken : Option Nat)
  /-- `ecx_setbufstat(port, idx, EC_BUF_EMPTY)` -/
  | release (caller : Caller)
  | lose (position : Nat)
  /-- Something else that is not EtherCAT. -/
  | foreign (index : Nat) (data : Data)

section Steps

variable {Caller Data Choice : Type} [DecidableEq Caller] (answer : Data → Choice → Data)

/-- `recv`, which is not called when the frame is already there. -/
def recv (link : Link Data) (idx : Index) (taken : Option Nat) :
    Option (Option (Frame Data) × List (Frame Data)) :=
  match taken with
  | none => some (none, link.wire)
  | some position =>
      if link.port.rxbufstat idx = .rcvd then none
      else link.wire[position]?.map fun frame => (some frame, link.wire.eraseIdx position)

def System.setbufstat (system : System Caller Data) (idx : Index) (bufstat : BufState) :
    System Caller Data :=
  { system with port := system.port.setbufstat idx bufstat }

def System.hold (system : System Caller Data) (caller : Caller) (held : Holding Data) :
    System Caller Data :=
  { system with holding := Function.update system.holding caller held }

def next (system : System Caller Data) :
    Event Caller Data Choice → Option (System Caller Data)
  | .getindex caller =>
      match system.holding caller with
      | .nothing => some (System.hold { system with port := system.port.getindex } caller
          (.given system.port.newIndex))
      | _ => none
  | .setup caller data =>
      match system.holding caller with
      | .given idx => some (System.hold { system with port := system.port.setup idx data } caller
          (.filled idx data))
      | _ => none
  | .outframe caller =>
      match system.holding caller with
      | .filled idx _ => some (system.setbufstat idx .tx)
      | _ => none
  | .sent caller answered =>
      match system.holding caller with
      | .filled idx _ =>
          let back := answered.map fun choice =>
            { ethercat := true, index := idx, data := answer (system.port.txbuf idx) choice }
          some { system with wire := system.wire ++ back.toList }
      | _ => none
  | .sendFailed caller =>
      match system.holding caller with
      | .filled idx _ => some (system.setbufstat idx .empty)
      | _ => none
  | .inframe caller taken =>
      match system.holding caller with
      | .filled idx _ => (recv system.toLink idx taken).map fun received =>
          { system with port := (system.port.inframe idx received.1).2, wire := received.2 }
      | _ => none
  | .release caller =>
      match system.holding caller with
      | .filled idx _ => some ((system.setbufstat idx .empty).hold caller .nothing)
      | _ => none
  | .lose position => some { system with wire := system.wire.eraseIdx position }
  | .foreign index data =>
      some { system with wire := system.wire ++ [{ ethercat := false, index, data }] }

end Steps

end WebserverEthercat.Driver

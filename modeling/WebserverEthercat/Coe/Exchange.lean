import WebserverEthercat.Coe.Frames
import WebserverEthercat.Lib.Reads

/-!
# Exchanges of mailboxes

The calls are programs that exchange mailboxes: a request is sent, and the answer
is the frame that `ecx_mbxreceive` returns, or none when sending or receiving
has failed.
-/

set_option autoImplicit false

namespace WebserverEthercat.Coe

open Reads

/-- What exchanges mailboxes with a slave, and may not end. -/
abbrev Exchange := OptionT (Program Frame (Option Frame))

inductive SdoError where
  /-- `ecx_SDOerror` -/
  | abort (code : UInt32)
  /-- `ecx_packeterror` -/
  | packet (code : UInt16)
deriving DecidableEq, Repr

inductive Outcome (Result : Type) where
  | returned (result : Result)
  /-- a `memcpy` beyond the mailbox or the buffer -/
  | overrun
deriving DecidableEq, Repr

def isSdoRes (frame : Frame) : Bool :=
  frame.mbxtype &&& 0x0f = ectMbxtCoe ∧ frame.canOpen >>> 12 = ectCoesSdoRes

def unexpected (frame : Frame) : SdoError :=
  if frame.command = ectSdoAbort then .abort frame.ldata0 else .packet 1

/-- The arguments of a call; `size` is `*psize` at first, `mbxL` and `mbxRl` are the slave's
`mbx_l` and `mbx_rl`. -/
structure SdoArgs where
  index : UInt16
  subindex : UInt8
  ca : Bool
  size : Nat
  mbxL : UInt16
  mbxRl : UInt16

/-- `if (CA && (subindex > 1)) subindex = 1;` -/
def SdoArgs.sub (args : SdoArgs) : UInt8 :=
  if args.ca ∧ args.subindex > 1 then 1 else args.subindex

/-- `(mbxl > 0) && (mbxl <= EC_MAXMBX)` -/
def usable (mbxl : UInt16) : Bool := 0 < mbxl ∧ mbxl.toNat ≤ ecMaxMbx

/-- `ecx_mbxsend`, which writes `mbx_l` bytes, and `ecx_mbxreceive` -/
def exchange (args : SdoArgs) (request : Frame) : Exchange (Option Frame) :=
  if usable args.mbxL then
    if usable args.mbxRl then OptionT.lift (Program.get (request.take args.mbxL.toNat))
    else do
      let _ ← OptionT.lift (Program.get (request.take args.mbxL.toNat))
      pure none
  else pure none

/-- Mailboxes that can be used, where the header, the command and `ldata[0]` fit in. -/
structure SdoArgs.Mailbox (args : SdoArgs) : Prop where
  header : 16 ≤ args.mbxL.toNat
  fits : args.mbxL.toNat ≤ ecMaxMbx
  read : usable args.mbxRl = true

theorem SdoArgs.Mailbox.exchange {args : SdoArgs} (mailbox : args.Mailbox) {request : Frame}
    (fits : List.length request ≤ args.mbxL.toNat) :
    exchange args request = OptionT.lift (Program.get request) := by
  have header := mailbox.header
  have positive : 0 < args.mbxL := by
    rw [UInt16.lt_iff_toNat_lt]
    exact Nat.lt_of_lt_of_le (by decide) header
  have sent : usable args.mbxL = true := decide_eq_true ⟨positive, mailbox.fits⟩
  rw [Coe.exchange, if_pos sent, if_pos mailbox.read, List.take_of_length_le fits]

end WebserverEthercat.Coe

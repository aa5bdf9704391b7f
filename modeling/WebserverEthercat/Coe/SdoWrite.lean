import WebserverEthercat.Coe.Exchange

/-!
# `ecx_SDOwrite`
-/

set_option autoImplicit false

namespace WebserverEthercat.Coe

open Reads

structure WriteResult where
  /-- `wkc > 0` -/
  wkc : Bool
  mbxCnt : UInt8
  error : Option SdoError
deriving DecidableEq, Repr

def written (wkc : Bool) (mbxCnt : UInt8) : Outcome WriteResult :=
  .returned { wkc, mbxCnt, error := none }

def refused (mbxCnt : UInt8) (error : SdoError) : Outcome WriteResult :=
  .returned { wkc := false, mbxCnt, error := some error }

/-- `memcpy` into the mailbox, which keeps what stands behind. -/
def overwrite (data rest : List UInt8) : List UInt8 := data ++ rest.drop data.length

/-- A response with the request's index and subindex. -/
def acknowledges (args : SdoArgs) (subIndex : UInt8) (frame : Frame) : Bool :=
  isSdoRes frame ∧ frame.index = args.index ∧ frame.subIndex = subIndex

def writeExpedited (args : SdoArgs) (data : List UInt8) (mbxCnt : UInt8) :
    Exchange (Outcome WriteResult) := do
  let mbxCnt := nextMbxCnt mbxCnt
  let answer ← exchange args (sdoFrame 0x0a mbxCnt ectCoesSdoReq
    (ectSdoDownExp ||| ((UInt8.ofNat (4 - data.length) <<< 2) &&& 0x0c))
    (sdoData args.index args.subindex (overwrite data [0, 0, 0, 0])))
  match answer with
  | none => pure (written false mbxCnt)
  | some frame =>
    if acknowledges args args.subindex frame then pure (written true mbxCnt)
    else pure (refused mbxCnt (unexpected frame))

/-- `maxdata` at first, which is not negative here -/
def SdoArgs.maxdata (args : SdoArgs) : Nat := args.mbxL.toNat - 0x10

/-- The length and the command of a segment. -/
def segmentHeader (size : Nat) (notLast : Bool) : UInt16 × UInt8 :=
  if ¬ notLast ∧ size < 7 then (0x0a, UInt8.ofNat (0x01 + (7 - size) * 2))
  else (UInt16.ofNat (size + 3), if notLast then 0x00 else 0x01)

/-- `rest` is what the mailbox holds behind the command. -/
def segmentRequest (toggle mbxCnt : UInt8) (rest piece : List UInt8) (notLast : Bool) : Frame :=
  let header := segmentHeader piece.length notLast
  sdoFrame header.1 mbxCnt ectCoesSdoReq (header.2 + toggle) (overwrite piece rest)

/-- What is wrong with the answer to a segment. -/
def segmentError (frame : Frame) : Option SdoError :=
  if isSdoRes frame ∧ frame.command &&& 0xe0 = 0x20 then none else some (unexpected frame)

/-- `while (NotLast)` -/
def writeSegments (args : SdoArgs) (toggle mbxCnt : UInt8) (rest data : List UInt8) :
    Exchange (Outcome WriteResult) := do
  let maxdata := args.maxdata + 7
  let piece := data.take maxdata
  let mbxCnt := nextMbxCnt mbxCnt
  let answer ← exchange args
    (segmentRequest toggle mbxCnt rest piece (decide (maxdata < data.length)))
  match answer.bind segmentError with
  | some error => pure (refused mbxCnt error)
  | none =>
    if args.maxdata + 7 < data.length then
      writeSegments args (toggle ^^^ 0x10) mbxCnt (overwrite piece rest)
        (data.drop (args.maxdata + 7))
    else pure (written answer.isSome mbxCnt)
termination_by data.length

def writeNormal (args : SdoArgs) (data : List UInt8) (mbxCnt : UInt8) :
    Exchange (Outcome WriteResult) := do
  let piece := data.take args.maxdata
  -- a negative size is a huge `size_t`
  if args.mbxL < 0x10 ∨ 16 + piece.length > ecMaxMbx + 1 then pure .overrun
  else do
    let mbxCnt := nextMbxCnt mbxCnt
    let rest := sdoData args.index args.sub (dwordBytes (UInt32.ofNat data.length) ++ piece)
    let answer ← exchange args (sdoFrame (UInt16.ofNat (0x0a + piece.length)) mbxCnt
      ectCoesSdoReq (if args.ca then ectSdoDownInitCa else ectSdoDownInit) rest)
    match answer with
    | none => pure (written false mbxCnt)
    | some frame =>
      if acknowledges args args.sub frame then
        if args.maxdata < data.length then
          writeSegments args 0 mbxCnt rest (data.drop args.maxdata)
        else pure (written true mbxCnt)
      else pure (refused mbxCnt (unexpected frame))

/-- `data` are the `psize` bytes at `p`. -/
def sdoWrite (args : SdoArgs) (data : List UInt8) (mbxCnt : UInt8) :
    Exchange (Outcome WriteResult) :=
  if data.length ≤ 4 ∧ ¬ args.ca then writeExpedited args data mbxCnt
  else writeNormal args data mbxCnt

end WebserverEthercat.Coe

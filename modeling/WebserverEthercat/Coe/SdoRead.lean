import WebserverEthercat.Coe.Exchange

/-!
# `ecx_SDOread`
-/

set_option autoImplicit false

namespace WebserverEthercat.Coe

open Reads
open Sii (wordBytes)

structure SdoResult where
  /-- `wkc > 0` -/
  wkc : Bool
  psize : Int
  /-- what was put at `p` -/
  p : List UInt8
  mbxCnt : UInt8
  error : Option SdoError
deriving DecidableEq, Repr

def done (psize : Int) (p : List UInt8) (mbxCnt : UInt8) : Outcome SdoResult :=
  .returned { wkc := true, psize, p, mbxCnt, error := none }

def failed (psize : Int) (p : List UInt8) (mbxCnt : UInt8) (error : Option SdoError) :
    Outcome SdoResult :=
  .returned { wkc := false, psize, p, mbxCnt, error }

/-- `memcpy(hp, ...)` into a buffer of `size` bytes, behind what was put there. -/
def append (size : Nat) (p : List UInt8) (data : Option (List UInt8))
    (next : List UInt8 → Exchange (Outcome SdoResult)) : Exchange (Outcome SdoResult) :=
  match data with
  | none => pure .overrun
  | some bytes => if p.length + bytes.length ≤ size then next (p ++ bytes) else pure .overrun

/-- The locals of the segmented transfer. -/
structure Upload where
  p : List UInt8
  psize : Int
  toggle : UInt8
  mbxCnt : UInt8

/-- `Framedatasize` of a segment. -/
def segmentSize (frame : Frame) : UInt16 :=
  let framedatasize := frame.length - 3
  if frame.command &&& 0x01 > 0 ∧ framedatasize = 7 then
    framedatasize - ((frame.command &&& 0x0e) >>> 1).toUInt16
  else framedatasize

/-- `while (NotLast)`, for at most `turns` turns. -/
def readSegments (args : SdoArgs) : Nat → Upload → Exchange (Outcome SdoResult)
  | 0, _ => OptionT.fail
  | turns + 1, upload => do
    let mbxCnt := nextMbxCnt upload.mbxCnt
    let answer ← exchange args (sdoFrame 0x0a mbxCnt ectCoesSdoReq
      (ectSdoSegUpReq + upload.toggle) (sdoData args.index args.sub [0, 0, 0, 0]))
    let toggle := upload.toggle ^^^ 0x10
    match answer with
    | none => readSegments args turns { upload with toggle, mbxCnt }
    | some frame =>
      if isSdoRes frame ∧ frame.command &&& 0xe0 = 0 then
        let psize := upload.psize + (segmentSize frame).toNat
        append args.size upload.p (frame.copy 9 (segmentSize frame).toNat) fun p =>
          if frame.command &&& 0x01 > 0 then pure (done psize p mbxCnt)
          else readSegments args turns { p, psize, toggle, mbxCnt }
      else pure (failed upload.psize upload.p mbxCnt (some (unexpected frame)))

/-- `SDOlen = etohl(aSDOp->ldata[0])`, an `int32` -/
def sdoLen (frame : Frame) : Int := frame.ldata0.toInt32.toInt

/-- A response that is not expedited. -/
def readNormal (args : SdoArgs) (turns : Nat) (mbxCnt : UInt8) (frame : Frame) :
    Exchange (Outcome SdoResult) :=
  let framedatasize := frame.length - 10
  if sdoLen frame ≤ args.size then
    if (framedatasize.toNat : Int) < sdoLen frame then
      append args.size [] (frame.copy 16 framedatasize.toNat) fun p =>
        readSegments args turns { p, psize := framedatasize.toNat, toggle := 0, mbxCnt }
    -- a negative length is a huge `size_t`
    else if sdoLen frame < 0 then pure .overrun
    else append args.size [] (frame.copy 16 (sdoLen frame).toNat) fun p =>
      pure (done (sdoLen frame) p mbxCnt)
  else pure (failed args.size [] mbxCnt (some (.packet 3)))

/-- `bytesize` of an expedited response. -/
def expeditedSize (frame : Frame) : Nat := 4 - ((frame.command >>> 2) &&& 0x03).toNat

def readExpedited (args : SdoArgs) (mbxCnt : UInt8) (frame : Frame) :
    Exchange (Outcome SdoResult) :=
  if expeditedSize frame ≤ args.size then
    append args.size [] (frame.copy 12 (expeditedSize frame)) fun p =>
      pure (done (expeditedSize frame) p mbxCnt)
  else pure (failed args.size [] mbxCnt (some (.packet 3)))

def sdoRead (turns : Nat) (args : SdoArgs) (mbxCnt : UInt8) : Exchange (Outcome SdoResult) := do
  let mbxCnt := nextMbxCnt mbxCnt
  let answer ← exchange args (sdoFrame 0x0a mbxCnt ectCoesSdoReq
    (if args.ca then ectSdoUpReqCa else ectSdoUpReq) (sdoData args.index args.sub [0, 0, 0, 0]))
  match answer with
  | none => pure (failed args.size [] mbxCnt none)
  | some frame =>
    if isSdoRes frame ∧ frame.index = args.index then
      if frame.command &&& 0x02 > 0 then readExpedited args mbxCnt frame
      else readNormal args turns mbxCnt frame
    else pure (failed args.size [] mbxCnt (some (unexpected frame)))

end WebserverEthercat.Coe

import WebserverEthercat.Coe.SdoRead
import WebserverEthercat.Coe.Slave

/-!
# Uploads

`ecx_SDOread` gets what the slave holds, however the slave cuts it.
-/

set_option autoImplicit false

namespace WebserverEthercat.Coe

open Reads

/-! ## Requests -/

theorem Carries.segmentSize {frame : Frame} {piece : List UInt8} {last : Bool}
    (carries : Carries frame piece last) : (segmentSize frame).toNat = piece.length := by
  have size := carries.size
  have three : (3 : UInt16).toNat = 3 := rfl
  have unusedIs : (((frame.command &&& 0x0e) >>> 1).toUInt16).toNat =
      ((frame.command &&& 0x0e) >>> 1).toNat := UInt8.toNat_toUInt16 _
  rw [Coe.segmentSize]
  by_cases seven : last = true ∧ frame.length = 0x0a
  · obtain ⟨isLast, length⟩ := seven
    have value : frame.length - 3 = 7 := by rw [length]; decide
    rw [if_pos ⟨isLast, length⟩] at size
    rw [if_pos ⟨carries.last.mpr isLast, value⟩, value, UInt16.toNat_sub_of_le, unusedIs]
    · show 7 - _ = _
      omega
    · rw [UInt16.le_iff_toNat_le, unusedIs]
      show _ ≤ 7
      omega
  · rw [if_neg seven] at size
    have plain : (frame.length - 3).toNat = piece.length := by
      rw [UInt16.toNat_sub_of_le, size, three]
      · omega
      · rw [UInt16.le_iff_toNat_le, size, three]
        omega
    rw [if_neg]
    · exact plain
    · rintro ⟨bit, value⟩
      refine seven ⟨carries.last.mp bit, ?_⟩
      rw [← UInt16.toNat_inj, size, ← plain, value]
      rfl

theorem Carries.copy {frame : Frame} {piece : List UInt8} {last : Bool}
    (carries : Carries frame piece last) : frame.copy 9 piece.length = some piece := by
  rw [Frame.copy, if_pos (Nat.le_succ_of_le carries.fits), carries.bytes]

/-- What the loop does with the answer to a request. -/
def afterRead (args : SdoArgs) (turns : Nat) (upload : Upload) (answer : Option Frame) :
    Exchange (Outcome SdoResult) :=
  let mbxCnt := nextMbxCnt upload.mbxCnt
  let toggle := upload.toggle ^^^ 0x10
  match answer with
  | none => readSegments args turns { upload with toggle, mbxCnt }
  | some frame =>
    if isSdoRes frame ∧ frame.command &&& 0xe0 = 0 then
      let psize := upload.psize + (segmentSize frame).toNat
      append args.size upload.p (frame.copy 9 (segmentSize frame).toNat) fun p =>
        if frame.command &&& 0x01 > 0 then pure (done psize p mbxCnt)
        else readSegments args turns { p, psize, toggle, mbxCnt }
    else pure (failed upload.psize upload.p mbxCnt (some (unexpected frame)))

theorem readSegments_eq (args : SdoArgs) (turns : Nat) (upload : Upload) :
    readSegments args (turns + 1) upload =
      exchange args (sdoFrame 0x0a (nextMbxCnt upload.mbxCnt) ectCoesSdoReq
        (ectSdoSegUpReq + upload.toggle) (sdoData args.index args.sub [0, 0, 0, 0])) >>=
        afterRead args turns upload := rfl

end WebserverEthercat.Coe

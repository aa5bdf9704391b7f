import WebserverEthercat.Coe.Accesses
import WebserverEthercat.Coe.Losses

/-!
# Uploads with losses

`ecx_SDOread` does not look at the toggle bit of an answer and does not compare
what it got with the announced length: a lost answer leaves a hole.
-/

set_option autoImplicit false

namespace WebserverEthercat.Coe

open Reads

section Uploads

variable {slave : Slave} {fates : Nat → Fate} {objects : Objects} {pieces : List (List UInt8)}
  {psize : Int} {p : List UInt8} {Good : SdoResult → Prop} {time : Nat}
  {state : slave.State} {args : SdoArgs}

/-! ## Segments -/

/-- If the program ends, nothing has changed, and if it says that it has succeeded, the result is
a good one. -/
def Gets (slave : Slave) (fates : Nat → Fate) (objects : Objects) (Good : SdoResult → Prop)
    (program : Exchange (Outcome SdoResult)) (time : Nat) (state : slave.State) : Prop :=
  ∀ outcome after,
    program.run.serve (slave.lossy fates) (time, state) = some (some outcome, after) →
    slave.objects after.2 = objects ∧ ∃ result, outcome = .returned result ∧
      (result.wkc = true → Good result)

/-- What was read behind `p` are some of the pieces, in their order. -/
def SomeOf (pieces : List (List UInt8)) (psize : Int) (p : List UInt8) (result : SdoResult) :
    Prop :=
  ∃ got : List (List UInt8), got.Sublist pieces ∧ result.p = p ++ got.flatten ∧
    result.psize = psize + got.flatten.length

theorem Gets.mono {Better : SdoResult → Prop} {program : Exchange (Outcome SdoResult)}
    (gets : Gets slave fates objects Better program time state)
    (better : ∀ result, Better result → Good result) :
    Gets slave fates objects Good program time state := by
  intro outcome after ran
  obtain ⟨kept, result, returned, success⟩ := gets outcome after ran
  exact ⟨kept, result, returned, fun wkc => better result (success wkc)⟩

theorem SomeOf.skip {result : SdoResult} (read : SomeOf pieces psize p result)
    (piece : List UInt8) : SomeOf (piece :: pieces) psize p result := by
  obtain ⟨got, part, rest⟩ := read
  exact ⟨got, part.cons piece, rest⟩

theorem SomeOf.take {result : SdoResult} {piece : List UInt8}
    (read : SomeOf pieces (psize + piece.length) (p ++ piece) result) :
    SomeOf (piece :: pieces) psize p result := by
  obtain ⟨got, part, isRead, isSize⟩ := read
  refine ⟨piece :: got, part.cons_cons piece, ?_, ?_⟩
  · rw [isRead, List.flatten_cons, List.append_assoc]
  · rw [isSize, List.flatten_cons, List.length_append]
    push_cast
    omega

end Uploads

def identityTarget : Target where
  args := { index := 0x1018, subindex := 1, ca := false, size := 8, mbxL := 128, mbxRl := 128 }
  single := rfl
  mailbox := ⟨by decide, by decide, by decide⟩

/-- What `ecx_SDOread` takes as the first part of an object that is longer. -/
structure Segmented (args : SdoArgs) (frame : Frame) : Prop where
  isSdoRes : isSdoRes frame = true
  toIndex : frame.index = args.index
  normal : ¬ frame.command &&& 0x02 > 0
  fits : sdoLen frame ≤ args.size
  more : ((frame.length - 10).toNat : Int) < sdoLen frame
  inside : 16 + (frame.length - 10).toNat ≤ ecMaxMbx + 1

section Silence

variable {State : Type} {server : State → Frame → Option (Option Frame × State)}

/-- From these states on no answer comes. -/
def Silent (server : State → Frame → Option (Option Frame × State)) (Quiet : State → Prop) : Prop :=
  ∀ state request, Quiet state → ∃ next, server state request = some (none, next) ∧ Quiet next

theorem readSegments_silent {Quiet : State → Prop} (silent : Silent server Quiet) {args : SdoArgs}
    (send : usable args.mbxL = true) (receive : usable args.mbxRl = true) (turns : Nat) :
    ∀ (upload : Upload) (state : State), Quiet state →
      ∃ after, (readSegments args turns upload).run.serve server state = some (none, after) := by
  induction turns with
  | zero => exact fun upload state _ => ⟨state, rfl⟩
  | succ turns ih =>
      intro upload state quiet
      obtain ⟨next, answered, still⟩ := silent state _ quiet
      obtain ⟨after, ran⟩ := ih { upload with
        toggle := upload.toggle ^^^ 0x10, mbxCnt := nextMbxCnt upload.mbxCnt } next still
      refine ⟨after, ?_⟩
      rw [readSegments_eq, exchange, if_pos send, if_pos receive, serve_get_bind, answered]
      exact ran

/-- When a slave falls silent behind a first part, `while (NotLast)` goes on and on, in however many
turns. -/
theorem read_hangs {Quiet : State → Prop} (silent : Silent server Quiet) {args : SdoArgs}
    (send : usable args.mbxL = true) (receive : usable args.mbxRl = true) (mbxCnt : UInt8)
    {state next : State} {frame : Frame}
    (answered : server state ((sdoFrame 0x0a (nextMbxCnt mbxCnt) ectCoesSdoReq
      (if args.ca then ectSdoUpReqCa else ectSdoUpReq)
      (sdoData args.index args.sub [0, 0, 0, 0])).take args.mbxL.toNat) = some (some frame, next))
    (segmented : Segmented args frame) (quiet : Quiet next) (turns : Nat) :
    ∃ after, (sdoRead turns args mbxCnt).run.serve server state = some (none, after) := by
  have fits := segmented.fits
  have more := segmented.more
  have copied : frame.copy 16 (frame.length - 10).toNat =
      some (frame.bytes 16 (frame.length - 10).toNat) := if_pos segmented.inside
  have size : (frame.bytes 16 (frame.length - 10).toNat).length = (frame.length - 10).toNat := by
    simp [Frame.bytes]
  have room : ([] : List UInt8).length + (frame.bytes 16 (frame.length - 10).toNat).length ≤
      args.size := by
    rw [size, List.length_nil]
    omega
  obtain ⟨after, ran⟩ := readSegments_silent silent send receive turns
    { p := frame.bytes 16 (frame.length - 10).toNat, psize := (frame.length - 10).toNat,
      toggle := 0, mbxCnt := nextMbxCnt mbxCnt } next quiet
  refine ⟨after, ?_⟩
  simp only [sdoRead, exchange, send, receive, if_true]
  rw [serve_get_bind, answered, Option.bind_some]
  dsimp only
  rw [if_pos (And.intro segmented.isSdoRes segmented.toIndex), if_neg segmented.normal, readNormal,
    if_pos fits, if_pos more, copied, append, if_pos room]
  exact ran

end Silence

theorem read_hangs_secondPiece :
    let server : Server := ⟨fun _ _ => false, false⟩
    let state : ServerState := ⟨fun _ _ => some ⟨[1, 2, 3], by decide⟩, .idle⟩
    let fates : Nat → Fate := fun time => if time = 0 then .delivered else .requestLost
    ∃ after, (sdoRead 1000 identityTarget.args 0).run.serve (server.slave.lossy fates) (0, state) =
      some (none, after) := by
  intro server state fates
  have silent : Silent (server.slave.lossy fates) fun state => state.1 ≠ 0 := by
    intro state request later
    refine ⟨(state.1 + 1, state.2), ?_, Nat.succ_ne_zero _⟩
    simp [Slave.lossy, fates, later]
  refine read_hangs silent (by decide) (by decide) 0 rfl ⟨by decide, by decide, by decide,
    by decide, by decide, by decide⟩ (Nat.succ_ne_zero 0) 1000

end WebserverEthercat.Coe

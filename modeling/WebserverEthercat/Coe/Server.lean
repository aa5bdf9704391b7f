import WebserverEthercat.Coe.UploadTransfer

/-!
# A server

A slave that keeps to the protocol: some objects may be written, small ones are
answered at once if it likes, and the others byte by byte.
-/

set_option autoImplicit false

namespace WebserverEthercat.Coe

/-- What a server goes by. -/
structure Server where
  /-- the objects that may be written -/
  known : UInt16 → UInt8 → Bool
  /-- content of up to four bytes is put into the response's length field -/
  expedites : Bool

/-- What fits in an object. -/
abbrev Content := { bytes : List UInt8 // bytes.length < 2 ^ 31 }

inductive ServerTransfer where
  | idle
  | reading (rest : List UInt8) (toggle : UInt8)
  | writing (index : UInt16) (subIndex : UInt8) (size : Fin (2 ^ 31)) (got : List UInt8)
      (toggle : UInt8)

structure ServerState where
  contents : UInt16 → UInt8 → Option Content
  transfer : ServerTransfer

def single (bytes : List UInt8) : List (List UInt8) := bytes.map fun byte => [byte]

theorem flatten_single (bytes : List UInt8) : (single bytes).flatten = bytes := by
  induction bytes with
  | nil => rfl
  | cons byte bytes ih =>
      rw [single, List.map_cons, List.flatten_cons, ← single, ih, List.singleton_append]

/-- Nothing, and then every byte for itself. -/
def bytewise (content : List UInt8) : Cut where
  first := []
  rest := single content
  nonempty piece member := by
    obtain ⟨byte, -, rfl⟩ := List.mem_map.mp member
    exact List.cons_ne_nil byte []

theorem content_bytewise (content : List UInt8) : (bytewise content).content = content := by
  rw [Cut.content, Cut.pieces, List.flatten_cons]
  exact flatten_single content

/-! ## Responses -/

def response (length : UInt16) (command : UInt8) (rest : List UInt8) : Frame :=
  sdoFrame length 0 ectCoesSdoRes command rest

def abort (index : UInt16) (subIndex : UInt8) (code : UInt32) : Frame :=
  sdoFrame 0x0a 0 ectCoesSdoReq ectSdoAbort (sdoData index subIndex (dwordBytes code))

def zeros (count : Nat) : List UInt8 := List.replicate count 0

/-- A segment of fewer than seven bytes is filled up, and says so. -/
def segment (toggle : UInt8) (piece : List UInt8) (last : Bool) : Frame :=
  if last ∧ piece.length < 7 then
    response 0x0a (toggle + UInt8.ofNat (1 + 2 * (7 - piece.length)))
      (piece ++ zeros (7 - piece.length))
  else response (UInt16.ofNat (piece.length + 3)) (toggle + if last then 1 else 0) piece

namespace Server

variable (server : Server)

def put (state : ServerState) (index : UInt16) (subIndex : UInt8) (content : Content) :
    ServerState where
  contents otherIndex otherSub :=
    if otherIndex = index ∧ otherSub = subIndex then some content
    else state.contents otherIndex otherSub
  transfer := .idle

def objects (state : ServerState) : Objects :=
  fun index subIndex => (state.contents index subIndex).map Subtype.val

def cut (state : ServerState) (index : UInt16) (subIndex : UInt8) : Cut :=
  bytewise ((objects state index subIndex).getD [])

def takes (index : UInt16) (subIndex : UInt8) (size : Nat) : Bool :=
  server.known index subIndex ∧ size < 2 ^ 31

def idle (state : ServerState) : ServerState := { state with transfer := .idle }

def refuse (state : ServerState) (request : Frame) (code : UInt32) : Frame × ServerState :=
  (abort request.index request.subIndex code, idle state)

def startUpload (state : ServerState) (request : Frame) : Frame × ServerState :=
  match objects state request.index request.subIndex with
  | none => refuse state request 0x06020000
  | some content =>
      if server.expedites ∧ 0 < content.length ∧ content.length ≤ 4 then
        (response 0x0a (UInt8.ofNat (0x43 + 4 * (4 - content.length)))
          (sdoData request.index request.subIndex (content ++ zeros (4 - content.length))),
          idle state)
      else
        (response 0x0a 0x41
          (sdoData request.index request.subIndex (dwordBytes (UInt32.ofNat content.length))),
          { state with transfer := .reading content 0 })

def nextUpload (state : ServerState) (request : Frame) (toggle : UInt8) :
    List UInt8 → Frame × ServerState
  | [] => refuse state request 0x05030000
  | byte :: rest =>
      (segment toggle [byte] rest.isEmpty,
        { state with
          transfer := if rest.isEmpty then .idle else .reading rest (toggle ^^^ 0x10) })

/-- An object that is whole is stored. -/
def collect (state : ServerState) (request : Frame) (index : UInt16) (subIndex : UInt8)
    (size : Fin (2 ^ 31)) (got : List UInt8) (toggle : UInt8) (last : Bool)
    (acknowledgement : Frame) : Frame × ServerState :=
  if whole : got.length = size then
    (acknowledgement, put state index subIndex ⟨got, whole ▸ size.isLt⟩)
  else if last then refuse state request 0x06070010
  else (acknowledgement, { state with transfer := .writing index subIndex size got toggle })

def announced (request : Frame) : Nat :=
  if request.command &&& 0x02 > 0 then 4 - ((request.command >>> 2) &&& 0x03).toNat
  else request.ldata0.toNat

def startDownload (state : ServerState) (request : Frame) : Frame × ServerState :=
  if may : server.known request.index request.subIndex ∧ announced request < 2 ^ 31 then
    collect state request request.index request.subIndex ⟨announced request, may.2⟩
      (if request.command &&& 0x02 > 0 then request.bytes 12 (announced request)
        else request.bytes 16 (request.length - 10).toNat) 0
      (request.command &&& 0x02 > 0)
      (response 0x0a 0x60 (sdoData request.index request.subIndex [0, 0, 0, 0]))
  else refuse state request 0x06020000

def nextDownload (state : ServerState) (request : Frame) (index : UInt16) (subIndex : UInt8)
    (size : Fin (2 ^ 31)) (got : List UInt8) (toggle : UInt8) : Frame × ServerState :=
  let last : Bool := request.command &&& 0x01 > 0
  let count :=
    if last ∧ request.length = 0x0a then 7 - ((request.command &&& 0x0e) >>> 1).toNat
    else (request.length - 3).toNat
  collect state request index subIndex size (got ++ request.bytes 9 count) (toggle ^^^ 0x10) last
    (response 0x0a (0x20 + toggle) (zeros 7))

/-- The command specifier says what is asked for; a segment has to have the expected toggle bit. -/
def answer (state : ServerState) (request : Frame) : Frame × ServerState :=
  if request.command &&& 0xe0 = 0x40 then server.startUpload state request
  else if request.command &&& 0xe0 = 0x20 then server.startDownload state request
  else
    match state.transfer with
    | .reading rest toggle =>
        if request.command &&& 0xe0 = 0x60 ∧ request.command &&& 0x10 = toggle then
          nextUpload state request toggle rest
        else refuse state request 0x05030000
    | .writing index subIndex size got toggle =>
        if request.command &&& 0xe0 = 0 ∧ request.command &&& 0x10 = toggle then
          nextDownload state request index subIndex size got toggle
        else refuse state request 0x05030000
    | .idle => refuse state request 0x05030000

def transfer (state : ServerState) : Transfer :=
  match state.transfer with
  | .idle => .idle
  | .reading rest toggle => .upload (single rest) toggle
  | .writing index subIndex size got toggle => .download index subIndex size got toggle

def slave : Slave where
  State := ServerState
  answer := server.answer
  objects := objects
  transfer := transfer
  cut := cut
  takes := server.takes

end Server

/-! ## The server's answers -/

theorem isSdoRes_response (length : UInt16) (command : UInt8) (rest : List UInt8) :
    isSdoRes (response length command rest) = true := by
  simp only [isSdoRes, response, sdoFrame_mbxtype, sdoFrame_canOpen]
  decide

theorem refuses_of_answer {server : Server} {state : ServerState} {request : Frame}
    (code : UInt32) (answered : server.answer state request = Server.refuse state request code) :
    server.slave.Refuses state request := by
  refine ⟨?_, ?_, ?_⟩
  · show Aborts (server.answer state request).1
    rw [answered]
    refine ⟨?_, rfl⟩
    rw [Server.refuse, abort, sdoFrame_canOpen]
    decide
  · show Server.objects (server.answer state request).2 = Server.objects state
    rw [answered]
    rfl
  · show Server.transfer (server.answer state request).2 = .idle
    rw [answered]
    rfl

theorem short_command {toggle : UInt8} (bit : Toggle toggle) {missing : Nat} (few : missing < 8) :
    (toggle + UInt8.ofNat (1 + 2 * missing)) &&& 0xe0 = 0 ∧
      (toggle + UInt8.ofNat (1 + 2 * missing)) &&& 0x01 > 0 ∧
      (((toggle + UInt8.ofNat (1 + 2 * missing)) &&& 0x0e) >>> 1).toNat = missing := by
  have both : ∀ other ∈ [(0 : UInt8), 0x10], ∀ missing ∈ List.range 8,
      (other + UInt8.ofNat (1 + 2 * missing)) &&& 0xe0 = 0 ∧
        (other + UInt8.ofNat (1 + 2 * missing)) &&& 0x01 > 0 ∧
        (((other + UInt8.ofNat (1 + 2 * missing)) &&& 0x0e) >>> 1).toNat = missing := by
    decide +kernel
  refine both toggle ?_ missing (List.mem_range.mpr few)
  rcases bit with rfl | rfl <;> decide

theorem long_command {toggle : UInt8} (bit : Toggle toggle) (last : Bool) :
    (toggle + if last then 1 else 0) &&& 0xe0 = 0 ∧
      ((toggle + if last then 1 else 0) &&& 0x01 > 0 ↔ last = true) ∧
      (((toggle + if last then 1 else 0) &&& 0x0e) >>> 1).toNat = 0 := by
  rcases bit with rfl | rfl <;> cases last <;> decide

theorem segment_carries {toggle : UInt8} (bit : Toggle toggle) {piece : List UInt8}
    (fits : 9 + piece.length ≤ ecMaxMbx) (last : Bool) :
    Carries (segment toggle piece last) piece last := by
  have limit : ecMaxMbx = 1486 := rfl
  rw [segment]
  by_cases short : last = true ∧ piece.length < 7
  · obtain ⟨rfl, few⟩ := short
    obtain ⟨specifier, lastBit, unused⟩ :=
      short_command bit (by omega : 7 - piece.length < 8)
    rw [if_pos ⟨rfl, few⟩]
    refine ⟨isSdoRes_response _ _ _, specifier, ⟨fun _ => rfl, fun _ => lastBit⟩, ?_, ?_, fits⟩
    · rw [response, sdoFrame_length, sdoFrame_command, if_pos ⟨rfl, rfl⟩, unused]
      omega
    · rw [response, bytes_segment _ _ _ _ _ (by simp), List.take_left]
  · obtain ⟨specifier, lastBit, unused⟩ := long_command bit last
    have size : (UInt16.ofNat (piece.length + 3)).toNat = piece.length + 3 := by
      rw [UInt16.toNat_ofNat']
      omega
    rw [if_neg short]
    refine ⟨isSdoRes_response _ _ _, specifier, lastBit, ?_, ?_, fits⟩
    · rw [response, sdoFrame_length, sdoFrame_command, unused]
      split
      · rename_i seven
        have value := congrArg UInt16.toNat seven.2
        rw [size] at value
        have ten : (0x0a : UInt16).toNat = 10 := rfl
        omega
      · rw [size, Nat.add_comm]
    · rw [response, bytes_segment _ _ _ _ _ (Nat.le_refl _), List.take_length]

theorem expedited_command {length : Nat} (positive : 0 < length) (few : length ≤ 4) :
    UInt8.ofNat (0x43 + 4 * (4 - length)) &&& 0x02 > 0 ∧
      4 - ((UInt8.ofNat (0x43 + 4 * (4 - length)) >>> 2) &&& 0x03).toNat = length := by
  have each : ∀ length ∈ List.range' 1 4, UInt8.ofNat (0x43 + 4 * (4 - length)) &&& 0x02 > 0 ∧
      4 - ((UInt8.ofNat (0x43 + 4 * (4 - length)) >>> 2) &&& 0x03).toNat = length := by
    decide
  exact each length (List.mem_range'_1.mpr ⟨positive, by omega⟩)

theorem short_acknowledgement {toggle : UInt8} (bit : Toggle toggle) :
    AcknowledgesSegment (response 0x0a (0x20 + toggle) (zeros 7)) := by
  refine ⟨isSdoRes_response _ _ _, ?_⟩
  rcases bit with rfl | rfl <;> rw [response, sdoFrame_command] <;> decide

namespace Server

variable (server : Server)

theorem answer_asks {state : ServerState} {request : Frame} {index : UInt16} {subIndex : UInt8}
    (asks : Asks request index subIndex) :
    server.answer state request = server.startUpload state request := by
  have specifier : ectSdoUpReq &&& 0xe0 = 0x40 := by decide
  rw [answer, asks.command, specifier, if_pos rfl]

theorem answer_asksSegment {state : ServerState} {request : Frame} {toggle : UInt8}
    (asks : AsksSegment request toggle) :
    server.answer state request =
      match state.transfer with
      | .reading rest expected =>
          if toggle = expected then nextUpload state request expected rest
          else refuse state request 0x05030000
      | _ => refuse state request 0x05030000 := by
  have specifier : (ectSdoSegUpReq + toggle) &&& 0xe0 = 0x60 ∧
      (ectSdoSegUpReq + toggle) &&& 0x10 = toggle := by
    rcases asks.bit with rfl | rfl <;> decide
  rw [answer, asks.command, specifier.1, specifier.2, if_neg (by decide), if_neg (by decide)]
  cases state.transfer with
  | idle => rfl
  | reading rest expected =>
      dsimp only
      by_cases same : toggle = expected
      · rw [if_pos ⟨rfl, same⟩, if_pos same]
      · rw [if_neg (fun both => same both.2), if_neg same]
  | writing index subIndex size got expected => exact if_neg fun both => nomatch both.1

theorem answer_starts {state : ServerState} {request : Frame} {index : UInt16} {subIndex : UInt8}
    {size : Nat} {first : List UInt8} {short : Bool}
    (starts : Starts request index subIndex size first short) :
    server.answer state request =
      if may : server.known index subIndex ∧ size < 2 ^ 31 then
        collect state request index subIndex ⟨size, may.2⟩ first 0 short
          (response 0x0a 0x60 (sdoData index subIndex [0, 0, 0, 0]))
      else refuse state request 0x06020000 := by
  obtain ⟨-, specifier, -, rfl, rfl, rfl, rfl, rfl⟩ := starts
  rw [answer, specifier, if_neg (by decide), if_pos rfl, startDownload]
  simp only [announced, decide_eq_true_eq]
  rfl

theorem answer_delivers {state : ServerState} {request : Frame} {toggle : UInt8}
    {piece : List UInt8} {final : Bool} (delivers : Delivers request toggle piece final) :
    server.answer state request =
      match state.transfer with
      | .writing index subIndex size got expected =>
          if toggle = expected then
            collect state request index subIndex size (got ++ piece) (expected ^^^ 0x10) final
              (response 0x0a (0x20 + expected) (zeros 7))
          else refuse state request 0x05030000
      | _ => refuse state request 0x05030000 := by
  rw [answer, delivers.specifier, if_neg (by decide), if_neg (by decide)]
  cases state.transfer with
  | idle => rfl
  | reading rest expected => exact if_neg fun both => nomatch both.1
  | writing index subIndex size got expected =>
      dsimp only
      rw [delivers.toggle]
      by_cases same : toggle = expected
      · rw [if_pos ⟨rfl, same⟩, if_pos same, nextDownload, delivers.last, delivers.count,
          delivers.bytes]
      · rw [if_neg (fun both => same both.2), if_neg same]

theorem refuses_asksSegment {state : ServerState} {request : Frame} {toggle : UInt8}
    (asks : AsksSegment request toggle)
    (other : ∀ piece rest, transfer state ≠ .upload (piece :: rest) toggle) :
    server.slave.Refuses state request := by
  refine refuses_of_answer 0x05030000 ?_
  rw [server.answer_asksSegment asks]
  cases reading : state.transfer with
  | idle => rfl
  | writing index subIndex size got expected => rfl
  | reading rest expected =>
      dsimp only
      by_cases same : toggle = expected
      · rw [if_pos same]
        cases rest with
        | nil => rfl
        | cons byte rest =>
            refine absurd ?_ (other [byte] (single rest))
            rw [transfer, reading, same]
            rfl
      · rw [if_neg same]

theorem continues_segment {state : ServerState} {request : Frame} {piece : List UInt8}
    {rest : List (List UInt8)} {toggle : UInt8} (asks : AsksSegment request toggle)
    (uploads : transfer state = .upload (piece :: rest) toggle) :
    Carries (server.answer state request).1 piece rest.isEmpty ∧
      server.slave.Continues state request
        (if rest.isEmpty then .idle else .upload rest (toggle ^^^ 0x10)) := by
  have answered := @server.answer_asksSegment state request toggle asks
  rw [transfer] at uploads
  cases reading : state.transfer with
  | idle => simp [reading] at uploads
  | writing index subIndex size got expected => simp [reading] at uploads
  | reading bytes expected =>
      rw [reading] at uploads answered
      cases bytes with
      | nil => cases uploads
      | cons byte bytes =>
          cases uploads
          dsimp only at answered
          rw [if_pos rfl, nextUpload] at answered
          have same : (bytes.map fun byte => [byte]).isEmpty = bytes.isEmpty := by simp
          refine ⟨?_, ?_, ?_⟩
          · rw [answered, same]
            exact segment_carries asks.bit (by simp [ecMaxMbx]) _
          · show objects (server.answer state request).2 = objects state
            rw [answered]
            rfl
          · show transfer (server.answer state request).2 = _
            rw [answered, same]
            cases bytes <;> rfl

theorem answer_held {state : ServerState} {request : Frame} {index : UInt16} {subIndex : UInt8}
    {content : List UInt8} (asks : Asks request index subIndex)
    (held : objects state index subIndex = some content) :
    (cut state index subIndex).content = content ∧
      objects (server.answer state request).2 = objects state ∧
      (Expedites (server.answer state request).1 index content ∨
        (Opens (server.answer state request).1 index (cut state index subIndex).first
            content.length ∧
          transfer (server.answer state request).2 =
            .upload (cut state index subIndex).rest 0)) := by
  have whole : cut state index subIndex = bytewise content := by rw [cut, held]; rfl
  have small : content.length < 2 ^ 31 := by
    obtain ⟨kept, -, rfl⟩ := Option.map_eq_some_iff.mp held
    exact kept.property
  rw [whole, server.answer_asks asks, startUpload, asks.toIndex, asks.toSubIndex, held]
  refine ⟨content_bytewise content, ?_⟩
  dsimp only
  by_cases expedited : server.expedites ∧ 0 < content.length ∧ content.length ≤ 4
  · rw [if_pos expedited]
    obtain ⟨bit, size⟩ := expedited_command expedited.2.1 expedited.2.2
    have data := bytes_data 0x0a 0 ectCoesSdoRes (UInt8.ofNat (0x43 + 4 * (4 - content.length)))
      index subIndex (content ++ zeros (4 - content.length)) 0 content.length (by simp)
    rw [List.drop_zero, List.take_left] at data
    exact ⟨rfl, .inl ⟨isSdoRes_response _ _ _, sdoFrame_index _ _ _ _ _ _ _, bit, size, data⟩⟩
  · rw [if_neg expedited]
    refine ⟨rfl, .inr ⟨⟨isSdoRes_response _ _ _, sdoFrame_index _ _ _ _ _ _ _,
      by rw [response, sdoFrame_command]; decide, ?_, small, ?_, rfl, ?_⟩, rfl⟩⟩
    · have value := sdoFrame_ldata0 0x0a 0 ectCoesSdoRes 0x41 index subIndex
        (UInt32.ofNat content.length) []
      rw [List.append_nil] at value
      rw [response, value, UInt32.toNat_ofNat']
      omega
    · rw [response, sdoFrame_length]
      rfl
    · show 16 + 0 ≤ ecMaxMbx
      decide

section Laws

variable {state : ServerState} {request : Frame} {index : UInt16} {subIndex toggle : UInt8}
  {size : Nat} {first got piece : List UInt8}

theorem refuses_absent (asks : Asks request index subIndex)
    (absent : objects state index subIndex = none) : server.slave.Refuses state request := by
  refine refuses_of_answer 0x06020000 ?_
  rw [server.answer_asks asks, startUpload, asks.toIndex, asks.toSubIndex, absent]

theorem refuses_untaken {short : Bool} (starts : Starts request index subIndex size first short)
    (untaken : server.takes index subIndex size = false) :
    server.slave.Refuses state request := by
  refine refuses_of_answer 0x06020000 ?_
  rw [server.answer_starts starts]
  exact dif_neg (of_decide_eq_false untaken)

theorem objects_put (state : ServerState) (index : UInt16) (subIndex : UInt8) (content : Content) :
    objects (put state index subIndex content) =
      Coe.put (objects state) index subIndex content.val := by
  funext otherIndex otherSub
  by_cases here : otherIndex = index ∧ otherSub = subIndex
  · simp [objects, put, Coe.put, here]
  · simp [objects, put, Coe.put, here]

theorem collect_whole {size : Fin (2 ^ 31)} (whole : got.length = size) (last : Bool)
    (acknowledgement : Frame) :
    (collect state request index subIndex size got toggle last acknowledgement).1 =
        acknowledgement ∧
      objects (collect state request index subIndex size got toggle last acknowledgement).2 =
        Coe.put (objects state) index subIndex got := by
  rw [collect, dif_pos whole]
  exact ⟨rfl, objects_put state index subIndex _⟩

theorem collect_part {size : Fin (2 ^ 31)} (part : got.length < size) (acknowledgement : Frame) :
    collect state request index subIndex size got toggle false acknowledgement =
      (acknowledgement, { state with transfer := .writing index subIndex size got toggle }) := by
  rw [collect, dif_neg (Nat.ne_of_lt part), if_neg (by decide)]

theorem collect_short {size : Fin (2 ^ 31)} (short : got.length < size) (acknowledgement : Frame) :
    collect state request index subIndex size got toggle true acknowledgement =
      refuse state request 0x06070010 := by
  rw [collect, dif_neg (Nat.ne_of_lt short), if_pos rfl]

theorem acknowledgement_acknowledges (index : UInt16) (subIndex : UInt8) :
    Acknowledges (response 0x0a 0x60 (sdoData index subIndex [0, 0, 0, 0])) index subIndex :=
  ⟨isSdoRes_response _ _ _, sdoFrame_index _ _ _ _ _ _ _, rfl⟩

theorem stores_taken {short : Bool}
    (starts : Starts request index subIndex first.length first short)
    (taken : server.takes index subIndex first.length = true) :
    Acknowledges (server.answer state request).1 index subIndex ∧
      objects (server.answer state request).2 = Coe.put (objects state) index subIndex first := by
  rw [server.answer_starts starts, dif_pos (of_decide_eq_true taken)]
  obtain ⟨answered, stored⟩ := @collect_whole state request index subIndex 0 first
    ⟨first.length, (of_decide_eq_true taken).2⟩ rfl short
    (response 0x0a 0x60 (sdoData index subIndex [0, 0, 0, 0]))
  rw [answered]
  exact ⟨acknowledgement_acknowledges index subIndex, stored⟩

theorem continues_begun (starts : Starts request index subIndex size first false)
    (fewer : first.length < size) (taken : server.takes index subIndex size = true) :
    Acknowledges (server.answer state request).1 index subIndex ∧
      server.slave.Continues state request (.download index subIndex size first 0) := by
  have answered := @server.answer_starts state request index subIndex size first false starts
  rw [dif_pos (of_decide_eq_true taken), collect_part fewer] at answered
  refine ⟨?_, ?_, ?_⟩
  · rw [answered]
    exact acknowledgement_acknowledges index subIndex
  · show objects (server.answer state request).2 = objects state
    rw [answered]
    rfl
  · show transfer (server.answer state request).2 = _
    rw [answered]
    rfl

theorem writing_of_transfer
    (waits : transfer state = .download index subIndex size got toggle) :
    ∃ small : size < 2 ^ 31, state.transfer = .writing index subIndex ⟨size, small⟩ got toggle := by
  rw [transfer] at waits
  cases held : state.transfer with
  | idle => simp [held] at waits
  | reading rest expected => simp [held] at waits
  | writing heldIndex heldSub heldSize heldGot expected =>
      rw [held] at waits
      cases waits
      exact ⟨heldSize.isLt, rfl⟩

theorem answer_segment {final : Bool} (delivers : Delivers request toggle piece final)
    (waits : transfer state = .download index subIndex size got toggle) :
    ∃ small : size < 2 ^ 31, server.answer state request =
      collect state request index subIndex ⟨size, small⟩ (got ++ piece) (toggle ^^^ 0x10) final
        (response 0x0a (0x20 + toggle) (zeros 7)) := by
  obtain ⟨small, held⟩ := writing_of_transfer waits
  refine ⟨small, ?_⟩
  rw [server.answer_delivers delivers, held]
  exact if_pos rfl

theorem stores_completed (delivers : Delivers request toggle piece true)
    (waits : transfer state = .download index subIndex (got ++ piece).length got toggle) :
    AcknowledgesSegment (server.answer state request).1 ∧
      objects (server.answer state request).2 =
        Coe.put (objects state) index subIndex (got ++ piece) := by
  obtain ⟨small, answered⟩ := server.answer_segment delivers waits
  obtain ⟨acknowledged, stored⟩ := @collect_whole state request index subIndex (toggle ^^^ 0x10)
    (got ++ piece) ⟨(got ++ piece).length, small⟩ rfl true
    (response 0x0a (0x20 + toggle) (zeros 7))
  rw [answered, acknowledged]
  exact ⟨short_acknowledgement delivers.bit, stored⟩

theorem continues_collected (delivers : Delivers request toggle piece false)
    (waits : transfer state = .download index subIndex size got toggle)
    (fewer : (got ++ piece).length < size) :
    AcknowledgesSegment (server.answer state request).1 ∧
      server.slave.Continues state request
        (.download index subIndex size (got ++ piece) (toggle ^^^ 0x10)) := by
  obtain ⟨small, answered⟩ := server.answer_segment delivers waits
  rw [collect_part fewer] at answered
  refine ⟨?_, ?_, ?_⟩
  · rw [answered]
    exact short_acknowledgement delivers.bit
  · show objects (server.answer state request).2 = objects state
    rw [answered]
    rfl
  · show transfer (server.answer state request).2 = _
    rw [answered]
    rfl

theorem refuses_incomplete (delivers : Delivers request toggle piece true)
    (waits : transfer state = .download index subIndex size got toggle)
    (fewer : (got ++ piece).length < size) : server.slave.Refuses state request := by
  obtain ⟨small, answered⟩ := server.answer_segment delivers waits
  rw [collect_short fewer] at answered
  exact refuses_of_answer 0x06070010 answered

theorem refuses_otherDownload {final : Bool} (delivers : Delivers request toggle piece final)
    (other : ∀ index subIndex size got,
      transfer state ≠ .download index subIndex size got toggle) :
    server.slave.Refuses state request := by
  refine refuses_of_answer 0x05030000 ?_
  rw [server.answer_delivers delivers]
  cases held : state.transfer with
  | idle => rfl
  | reading rest expected => rfl
  | writing index subIndex size got expected =>
      dsimp only
      refine if_neg fun same => other index subIndex size got ?_
      rw [transfer, held, same]

end Laws

theorem follows : server.slave.Follows where
  absent _ _ _ _ := server.refuses_absent
  held _ _ _ _ _ := server.answer_held
  segment _ _ _ _ _ := server.continues_segment
  otherSegment _ _ _ := server.refuses_asksSegment
  untaken _ _ _ _ _ _ _ := server.refuses_untaken
  taken _ _ _ _ _ _ := server.stores_taken
  begun _ _ _ _ _ _ := server.continues_begun
  completed _ _ _ _ _ _ _ := server.stores_completed
  collected _ _ _ _ _ _ _ _ := server.continues_collected
  incomplete _ _ _ _ _ _ _ _ := server.refuses_incomplete
  otherDownload _ _ _ _ _ := server.refuses_otherDownload

end Server

end WebserverEthercat.Coe

import WebserverEthercat.IoMap.Segments
import WebserverEthercat.Soem

/-!
# The frames of the process data

`ecx_main_send_processdata` sends each segment in a frame of its own, and
pushes for each frame where its data belong; `ecx_receive_processdata_group`
copies what comes back.
-/

set_option autoImplicit false

namespace WebserverEthercat.IoMap

open Pieces

inductive Command where
  | lrd
  | lwr
  | lrw
deriving DecidableEq, Repr

/-- A frame, and what is pushed for it. -/
structure Frame where
  command : Command
  logAdr : Nat
  data : List UInt8
  /-- the place of the data in the IOmap -/
  position : Nat
  /-- the system time is read in a second datagram, so `DCO` is not 0 -/
  dc : Bool
deriving DecidableEq, Repr

/-- `txbuflength`: the Ethernet and EtherCAT headers, the data, the work counter, and the second
datagram. -/
def Frame.length (frame : Frame) : Nat :=
  14 + 12 + frame.data.length + 2 + if frame.dc then 10 + 8 + 2 else 0

/-- `EC_MAXBUF` -/
def ecMaxBuf : Nat := 16

/-- `ecx_writedatagramdata`: a datagram that only reads carries zeros. -/
def datagramData (command : Command) (iomap : List UInt8) (position length : Nat) : List UInt8 :=
  if command = .lrd then List.replicate length 0 else slice iomap position length

/-- The loop over the segments; `behind` are left in the table behind the current one. -/
def segmentLoop (command : Command) (sublength : Nat → Int → Nat) (iomap : List UInt8) :
    Nat → Nat → Int → Nat → Nat → Bool → List Frame
  | 0, currentsegment, length, logAdr, data, first =>
      [⟨command, logAdr, datagramData command iomap data (sublength currentsegment length), data,
        first⟩]
  | behind + 1, currentsegment, length, logAdr, data, first =>
      let size := sublength currentsegment length
      ⟨command, logAdr, datagramData command iomap data size, data, first⟩ ::
        if length - size ≠ 0 then
          segmentLoop command sublength iomap behind (currentsegment + 1) (length - size)
            (logAdr + size) (data + size) false
        else []

namespace Group

/-- A length in the table as an `uint16`. -/
def lrwLength (group : Group) (currentsegment : Nat) (_length : Int) : Nat :=
  group.ioSegment currentsegment % 2 ^ 16

/-- The first segment may begin with outputs. -/
def lrdLength (group : Group) (currentsegment : Nat) (_length : Int) : Nat :=
  if currentsegment = group.isegment then
    (((group.ioSegment currentsegment : Int) - group.ioffset) % 2 ^ 16).toNat
  else group.ioSegment currentsegment % 2 ^ 16

/-- The last segment may go on with inputs. -/
def lwrLength (group : Group) (currentsegment : Nat) (length : Int) : Nat :=
  let sublength : Nat := group.ioSegment currentsegment % 2 ^ 16
  if length - sublength < 0 then (length % 2 ^ 16).toNat else sublength

end Group

/-- `ecx_main_send_processdata` without overlapping; it returns whether there is something to
send.  The frames are pushed as they are sent. -/
def ecxMainSendProcessdata (group : Group) (hasdc : Bool) (iomap : List UInt8) :
    Bool × List Frame :=
  if group.obytes + group.ibytes = 0 then (false, [])
  else if group.blockLRW ≠ 0 then
    let reads :=
      if group.ibytes ≠ 0 then
        segmentLoop .lrd group.lrdLength iomap (group.nsegments - (group.isegment + 1))
          group.isegment group.ibytes (group.logstartaddr + group.obytes) group.obytes hasdc
      else []
    let writes :=
      if group.obytes ≠ 0 then
        segmentLoop .lwr group.lwrLength iomap (group.nsegments - 1) 0 group.obytes
          group.logstartaddr 0 (hasdc && group.ibytes = 0)
      else []
    (true, reads ++ writes)
  else
    (true, segmentLoop .lrw group.lrwLength iomap (group.nsegments - 1) 0
      ((group.obytes + group.ibytes : Nat) : Int) group.logstartaddr 0 hasdc)

/-- What `ecx_waitinframe` makes of a frame: the data and the work counter of the first datagram,
and the system time. -/
inductive Answer where
  | lost
  | returned (data : List UInt8) (wkc : Nat) (dcTime : Int)
deriving DecidableEq, Repr

structure Received where
  iomap : List UInt8
  wkc : Int
  /-- what is written to `DCtime` -/
  dcTime : Option Int
  validWkc : Bool
deriving DecidableEq, Repr

/-- Outputs count 2 times, as with LRW. -/
def Command.counted : Command → Nat → Int
  | .lwr, wkc => 2 * wkc
  | .lrd, wkc | .lrw, wkc => wkc

def Command.stored (command : Command) (iomap : List UInt8) (position : Nat)
    (data : List UInt8) : List UInt8 :=
  if command = .lwr then iomap else put iomap position data

def Received.frame (received : Received) : Frame × Answer → Received
  | (_, .lost) => received
  | (frame, .returned data wkc dcTime) =>
      { iomap := frame.command.stored received.iomap frame.position data
        wkc := if frame.dc then frame.command.counted wkc
          else received.wkc + frame.command.counted wkc
        dcTime := if frame.dc then some dcTime else received.dcTime
        validWkc := true }

/-- `ecx_receive_processdata_group`; the stack holds the first `EC_MAXBUF` frames. -/
def ecxReceiveProcessdataGroup (iomap : List UInt8) (pushed : List Frame)
    (answers : List Answer) : Int × Received :=
  let received := ((pushed.take ecMaxBuf).zip answers).foldl Received.frame ⟨iomap, 0, none, false⟩
  (if received.validWkc then received.wkc else ecNoframe, received)

/-! ## The frames of a list of lengths -/

def framesOf (command : Command) (iomap : List UInt8) :
    List Nat → Nat → Nat → Bool → List Frame
  | [], _, _, _ => []
  | length :: lengths, logAdr, position, first =>
      ⟨command, logAdr, datagramData command iomap position length, position, first⟩ ::
        framesOf command iomap lengths (logAdr + length) (position + length) false

/-- The lengths up to the one with which everything is sent. -/
def sentLengths : List Nat → List Nat
  | [] => []
  | length :: lengths => length :: if lengths.sum = 0 then [] else sentLengths lengths

/-- The loop takes these lengths from the table. -/
def Yields (sublength : Nat → Int → Nat) : Nat → List Nat → Prop
  | _, [] => True
  | currentsegment, length :: lengths =>
      sublength currentsegment ((length :: lengths).sum : Nat) = length ∧
        Yields sublength (currentsegment + 1) lengths

/-- The table may go on behind the lengths: with the last one everything is sent. -/
theorem segmentLoop_eq {command : Command} {sublength : Nat → Int → Nat} {iomap : List UInt8}
    {lengths : List Nat} :
    ∀ {behind currentsegment logAdr data : Nat} {first : Bool} (length : Nat),
      lengths.length ≤ behind → Yields sublength currentsegment (length :: lengths) →
      segmentLoop command sublength iomap behind currentsegment
          ((length :: lengths).sum : Nat) logAdr data first =
        framesOf command iomap (sentLengths (length :: lengths)) logAdr data first := by
  induction lengths with
  | nil =>
      intro behind currentsegment logAdr data first length _ yields
      have rest : (([length].sum : Nat) : Int) - length = 0 := by simp
      cases behind with
      | zero =>
          rw [segmentLoop, yields.1, sentLengths]
          rfl
      | succ behind =>
          rw [segmentLoop, yields.1, rest, if_neg (not_not_intro rfl), sentLengths]
          rfl
  | cons next lengths ih =>
      intro behind currentsegment logAdr data first length enough yields
      have rest : ((length :: next :: lengths).sum : Nat) - (length : Int) =
          ((next :: lengths).sum : Nat) := by
        rw [List.sum_cons]
        omega
      cases behind with
      | zero => exact absurd enough (Nat.not_succ_le_zero _)
      | succ behind =>
          rw [segmentLoop, yields.1, sentLengths, framesOf, rest]
          by_cases none : (next :: lengths).sum = 0
          · rw [if_pos none, if_neg (by rw [none]; simp)]
            rfl
          · rw [if_neg none, if_pos (by omega), ih next (Nat.le_of_succ_le_succ enough) yields.2]

theorem sum_sentLengths (lengths : List Nat) : (sentLengths lengths).sum = lengths.sum := by
  induction lengths with
  | nil => rfl
  | cons length lengths ih =>
      rw [sentLengths, List.sum_cons, List.sum_cons]
      split
      case isTrue none => rw [none, List.sum_nil]
      case isFalse more => rw [ih]

theorem length_sentLengths_le (lengths : List Nat) :
    (sentLengths lengths).length ≤ lengths.length := by
  induction lengths with
  | nil => exact Nat.le_refl 0
  | cons length lengths ih =>
      rw [sentLengths, List.length_cons, List.length_cons]
      split
      · exact Nat.succ_le_succ (Nat.zero_le _)
      · exact Nat.succ_le_succ ih

theorem yields_of_getElem {sublength : Nat → Int → Nat} {lengths : List Nat} :
    ∀ {currentsegment : Nat},
      (∀ position length, lengths[position]? = some length →
        sublength (currentsegment + position) ((lengths.drop position).sum : Nat) = length) →
      Yields sublength currentsegment lengths := by
  induction lengths with
  | nil => exact fun _ => trivial
  | cons length lengths ih =>
      intro currentsegment table
      refine ⟨table 0 length rfl, ih ?_⟩
      intro position other here
      have found := table (position + 1) other here
      rwa [← Nat.add_assoc, Nat.add_right_comm, List.drop_succ_cons] at found

namespace Group.Tiled

variable {group : Group}

theorem length_segments (group : Group) : group.segments.length = group.nsegments := by
  rw [Group.segments, List.length_map, List.length_range]

theorem segments_getElem? {position : Nat} (inside : position < group.nsegments) :
    group.segments[position]? = some (group.ioSegment position) := by
  rw [Group.segments, List.getElem?_map, List.getElem?_range inside, Option.map_some]

theorem ioSegment_eq {position length : Nat} (here : group.segments[position]? = some length) :
    group.ioSegment position = length := by
  have inside := (List.getElem?_eq_some_iff.mp here).1
  rw [length_segments] at inside
  rw [segments_getElem? inside] at here
  exact Option.some.inj here

theorem small (tiled : group.Tiled) {position length : Nat}
    (here : group.segments[position]? = some length) :
    group.ioSegment position % 2 ^ 16 = length := by
  have bound := tiled.bounded length (List.mem_of_getElem? here)
  have limit : segmentLimit = 1466 := rfl
  rw [ioSegment_eq here, Nat.mod_eq_of_lt (by omega)]

theorem lrw_yields (tiled : group.Tiled) : Yields group.lrwLength 0 group.segments := by
  apply yields_of_getElem
  intro position length here
  rw [Nat.zero_add]
  exact tiled.small here

/-- With LRW each segment is a frame, until everything is sent. -/
theorem send_lrw (tiled : group.Tiled) (hasdc : Bool) (iomap : List UInt8)
    (unblocked : group.blockLRW = 0) (some : group.obytes + group.ibytes ≠ 0) :
    ecxMainSendProcessdata group hasdc iomap =
      (true, framesOf .lrw iomap (sentLengths group.segments) group.logstartaddr 0 hasdc) := by
  have inside := tiled.isegment
  have sum := tiled.sum_segments
  have yields := tiled.lrw_yields
  have count := length_segments group
  rw [ecxMainSendProcessdata, if_neg some, if_neg (not_not_intro unblocked)]
  cases segments : group.segments with
  | nil =>
      rw [segments, List.length_nil] at count
      omega
  | cons length lengths =>
      rw [segments] at yields sum count
      rw [List.length_cons] at count
      rw [← sum, segmentLoop_eq length (by omega) yields]

end Group.Tiled

/-! ## What comes back -/

def Answer.data : Answer → Option (List UInt8)
  | .lost => none
  | .returned data _ _ => some data

def Answer.arrived : Answer → Bool
  | .lost => false
  | .returned .. => true

/-- What the frame adds to the work counter. -/
def Answer.counted (command : Command) : Answer → Int
  | .lost => 0
  | .returned _ wkc _ => command.counted wkc

/-- The frames of one command: their data are put back piece by piece, and their work counters
are added; the first frame may bring the system time, when nothing is counted yet. -/
theorem receive_frames (command : Command) (sent : List UInt8) {lengths : List Nat} :
    ∀ {logAdr position : Nat} {first : Bool} {answers : List Answer} (received : Received),
      answers.length = lengths.length → (first = true → received.wkc = 0) →
      let after := ((framesOf command sent lengths logAdr position first).zip answers).foldl
        Received.frame received
      after.iomap = (if command = .lwr then received.iomap
        else putAll received.iomap position (lengths.zip (answers.map Answer.data))) ∧
      after.wkc = received.wkc + (answers.map (Answer.counted command)).sum ∧
      after.validWkc = (received.validWkc || answers.any Answer.arrived) := by
  induction lengths with
  | nil =>
      intro logAdr position first answers received same _
      rw [List.eq_nil_of_length_eq_zero same]
      simp [framesOf, putAll]
  | cons length lengths ih =>
      intro logAdr position first answers received same begun
      cases answers with
      | nil => cases same
      | cons answer answers =>
          have rest : answers.length = lengths.length := Nat.succ.inj same
          rw [framesOf, List.zip_cons_cons, List.foldl_cons]
          cases answer with
          | lost =>
              obtain ⟨image, wkc, valid⟩ := @ih (logAdr + length) (position + length) false answers
                received rest nofun
              refine ⟨image.trans ?_, wkc.trans ?_, valid⟩
              · simp [putAll, Answer.data]
              · simp [Answer.counted]
          | returned data wkc dcTime =>
              obtain ⟨image, sum, valid⟩ := @ih (logAdr + length) (position + length) false answers
                (received.frame (⟨command, logAdr, datagramData command sent position length,
                  position, first⟩, .returned data wkc dcTime)) rest nofun
              refine ⟨image.trans ?_, sum.trans ?_, valid.trans ?_⟩
              · simp only [Received.frame, Command.stored, putAll, Answer.data, List.map_cons,
                  List.zip_cons_cons, Option.elim_some]
                split <;> rfl
              · simp only [Received.frame, Answer.counted, List.map_cons, List.sum_cons]
                split
                case isTrue dc =>
                  rw [begun dc]
                  omega
                case isFalse none => omega
              · simp [Received.frame, Answer.arrived]

/-! ## An exchange -/

theorem length_framesOf (command : Command) (iomap : List UInt8) (lengths : List Nat) :
    ∀ (logAdr position : Nat) (first : Bool),
      (framesOf command iomap lengths logAdr position first).length = lengths.length := by
  induction lengths with
  | nil => exact fun _ _ _ => rfl
  | cons length lengths ih =>
      intro logAdr position first
      rw [framesOf, List.length_cons, List.length_cons, ih]

theorem framesOf_data {command : Command} (writes : command ≠ .lrd) (iomap : List UInt8)
    (lengths : List Nat) : ∀ (logAdr position : Nat) (first : Bool),
      (framesOf command iomap lengths logAdr position first).map Frame.data =
        lengths.splitLengths (iomap.drop position) := by
  induction lengths with
  | nil => exact fun _ _ _ => rfl
  | cons length lengths ih =>
      intro logAdr position first
      rw [framesOf, List.map_cons, ih, List.splitLengths_cons, datagramData, if_neg writes, slice,
        List.drop_drop]

/-- A frame of a segment fits into an Ethernet frame, with the system time too. -/
theorem framesOf_length {command : Command} {iomap : List UInt8} {lengths : List Nat} :
    ∀ {logAdr position : Nat} {first : Bool}, (∀ length ∈ lengths, length ≤ segmentLimit) →
      ∀ frame ∈ framesOf command iomap lengths logAdr position first, frame.length ≤ 1514 := by
  induction lengths with
  | nil =>
      intro logAdr position first _ frame member
      cases member
  | cons length lengths ih =>
      intro logAdr position first bounded frame member
      rw [framesOf, List.mem_cons] at member
      rcases member with rfl | later
      · have limit : segmentLimit = 1466 := rfl
        have bound := bounded length List.mem_cons_self
        have data : (datagramData command iomap position length).length ≤ length := by
          rw [datagramData]
          split
          · exact Nat.le_of_eq List.length_replicate
          · exact List.length_take_le _ _
        rw [Frame.length]
        split <;> dsimp only <;> omega
      · exact ih (fun other inside => bounded other (List.mem_cons_of_mem _ inside)) frame later

theorem mem_sentLengths {lengths : List Nat} {length : Nat} (member : length ∈ sentLengths lengths) :
    length ∈ lengths := by
  induction lengths with
  | nil => cases member
  | cons first lengths ih =>
      rw [sentLengths, List.mem_cons] at member
      rcases member with rfl | later
      · exact List.mem_cons_self
      · split at later
        · cases later
        · exact List.mem_cons_of_mem _ (ih later)

/-- What belongs to the answers of frames with these lengths of data. -/
def Fitting (lengths : List Nat) (answers : List Answer) : Prop :=
  List.Forall₂ (fun length answer => ∀ data, answer.data = some data → data.length = length)
    lengths answers

theorem Fitting.flatten {lengths : List Nat} {answers : List Answer}
    (fitting : Fitting lengths answers) : ∀ {front : List UInt8} (current : List UInt8),
      lengths.sum ≤ current.length →
      putAll (front ++ current) front.length (lengths.zip (answers.map Answer.data)) =
        front ++ ((List.zipWith (fun old answer => answer.data.getD old)
          (lengths.splitLengths current) answers).flatten ++ current.drop lengths.sum) := by
  induction fitting with
  | nil => simp [putAll]
  | @cons length answer lengths answers fits rest ih =>
      intro front current enough
      rw [List.sum_cons] at enough ⊢
      have same : (current.take length).length = length := by
        rw [List.length_take, Nat.min_eq_left (by omega)]
      have later : lengths.sum ≤ (current.drop length).length := by
        rw [List.length_drop]
        omega
      rw [List.map_cons, List.zip_cons_cons, putAll, List.splitLengths_cons, List.zipWith_cons_cons,
        List.flatten_cons, List.append_assoc, ← List.drop_drop]
      cases here : answer.data with
      | none =>
          have whole := @ih (front ++ current.take length) (current.drop length) later
          rw [List.length_append, same, List.append_assoc, List.take_append_drop] at whole
          rw [Option.elim_none, whole, Option.getD_none, List.append_assoc]
      | some data =>
          have whole := @ih (front ++ data) (current.drop length) later
          rw [List.length_append, fits data here, List.append_assoc] at whole
          have put := @put_middle _ front (current.take length) (current.drop length) data
            ((fits data here).trans same.symm)
          rw [List.take_append_drop] at put
          rw [Option.elim_some, put, whole, Option.getD_some, List.append_assoc]

/-- Whichever frames are lost, with LRW the image is sent piece by piece in frames that fit, each
piece that comes back replaces the one in the IOmap, the others stay, and the work counters of
the frames are added. -/
theorem exchange_lossy (group : Group) (tiled : group.Tiled) (hasdc : Bool)
    (sent current : List UInt8) (answers : List Answer) (unblocked : group.blockLRW = 0)
    (nonempty : group.obytes + group.ibytes ≠ 0) (few : group.nsegments ≤ ecMaxBuf)
    (enough : group.obytes + group.ibytes ≤ sent.length)
    (kept : group.obytes + group.ibytes ≤ current.length)
    (answered : List.Forall₂ (fun frame answer =>
        ∀ data, answer.data = some data → data.length = frame.data.length)
      (ecxMainSendProcessdata group hasdc sent).2 answers) :
    let frames := (ecxMainSendProcessdata group hasdc sent).2
    let received := ecxReceiveProcessdataGroup current frames answers
    (frames.map Frame.data).flatten = sent.take (group.obytes + group.ibytes) ∧
      (∀ frame ∈ frames, frame.length ≤ 1514) ∧
      received.2.iomap = (List.zipWith (fun old answer => answer.data.getD old)
          ((frames.map fun frame => frame.data.length).splitLengths current) answers).flatten ++
        current.drop (group.obytes + group.ibytes) ∧
      received.1 = if answers.any Answer.arrived then
        (answers.map (Answer.counted .lrw)).sum else ecNoframe := by
  have sum : (sentLengths group.segments).sum = group.obytes + group.ibytes :=
    (sum_sentLengths _).trans tiled.sum_segments
  have count : (sentLengths group.segments).length ≤ ecMaxBuf :=
    Nat.le_trans (length_sentLengths_le _)
      (Nat.le_trans (Nat.le_of_eq (Group.Tiled.length_segments group)) few)
  rw [tiled.send_lrw hasdc sent unblocked nonempty] at answered ⊢
  have sentData := framesOf_data (by decide : Command.lrw ≠ .lrd) sent
    (sentLengths group.segments) group.logstartaddr 0 hasdc
  have lengths : (framesOf .lrw sent (sentLengths group.segments) group.logstartaddr 0 hasdc).map
      (fun frame => frame.data.length) = sentLengths group.segments := by
    have mapped := congrArg (List.map List.length) sentData
    rw [List.map_map, List.drop_zero,
      List.map_splitLengths_length _ _ (by rw [sum]; exact enough)] at mapped
    exact mapped
  have fitting : Fitting (sentLengths group.segments) answers := by
    rw [Fitting, ← lengths, List.forall₂_map_left_iff]
    exact answered
  have all := List.take_of_length_le (Nat.le_trans (Nat.le_of_eq (length_framesOf .lrw sent
    (sentLengths group.segments) group.logstartaddr 0 hasdc)) count)
  obtain ⟨image, wkc, valid⟩ := @receive_frames .lrw sent (sentLengths group.segments)
    group.logstartaddr 0 hasdc answers ⟨current, 0, none, false⟩ fitting.length_eq.symm
    (fun _ => rfl)
  have merged := @Fitting.flatten _ _ fitting [] current (by rw [sum]; exact kept)
  rw [sum, List.nil_append, List.nil_append] at merged
  dsimp only [ecxReceiveProcessdataGroup]
  rw [all]
  refine ⟨?_, ?_, ?_, ?_⟩
  · rw [sentData, List.drop_zero, flatten_splitLengths_take, sum]
  · exact framesOf_length fun length member => tiled.bounded length (mem_sentLengths member)
  · rw [image, if_neg (by decide), lengths]
    exact merged
  · rw [valid, wkc]
    simp

/-- Two bytes of outputs and one byte of inputs, in two frames. -/
def twoFrames : Group where
  logstartaddr := 0
  obytes := 2
  ibytes := 1
  blockLRW := 0
  nsegments := 2
  isegment := 0
  ioffset := 2
  ioSegment segment := if segment = 0 then 2 else 1
  outputs := [⟨⟨0, 0⟩, 16⟩]
  inputs := [⟨⟨2, 0⟩, 8⟩]

theorem twoFrames_tiled : twoFrames.Tiled where
  isegment := by decide
  ioffset := by decide
  obytes := by decide
  ibytes := by decide
  bounded := by decide
  outputs := by
    intro area member _
    cases List.mem_singleton.mp member
    exact ⟨by decide, [], 2, [], rfl, by decide, by decide⟩
  inputs := by
    intro area member _
    cases List.mem_singleton.mp member
    exact ⟨by decide, [0], 1, [], rfl, by decide, by decide⟩
  both := by
    intro area member _
    rcases List.mem_cons.mp member with rfl | later
    · exact ⟨by decide, [], 2, [1], rfl, by decide, by decide⟩
    · cases List.mem_singleton.mp later
      exact ⟨by decide, [2], 1, [], rfl, by decide, by decide⟩
  filled := by decide

/-- The second frame is lost. -/
theorem exchange_lossy_twoFrames :
    let frames := (ecxMainSendProcessdata twoFrames false [1, 2, 3]).2
    let received := ecxReceiveProcessdataGroup [1, 2, 3] frames [.returned [1, 9] 3 0, .lost]
    (frames.map Frame.data).flatten = [1, 2, 3] ∧ (∀ frame ∈ frames, frame.length ≤ 1514) ∧
      received.2.iomap = [1, 9, 3] ∧ received.1 = 3 :=
  exchange_lossy twoFrames twoFrames_tiled false [1, 2, 3] [1, 2, 3]
    [.returned [1, 9] 3 0, .lost] rfl (by decide) (by decide) (by decide) (by decide)
    (.cons (by rintro data same; cases same; rfl) (.cons nofun .nil))

end WebserverEthercat.IoMap

import Mathlib.Logic.Function.Basic
import WebserverEthercat.Dump.Positions
import WebserverEthercat.Lib.Pieces

/-!
# The segments of the process data

`ecx_main_config_map_group` lays out the process data of a group in the IOmap,
and divides them into segments that fit into one frame each.
-/

set_option autoImplicit false

namespace WebserverEthercat.IoMap

open Pieces

/-- `EC_MAXLRWDATA - EC_FIRSTDCDATAGRAM` -/
def segmentLimit : Nat := (1518 - 14 - 2 - 10 - 2 - 4) - 20

def ecMaxIoSegments : Nat := 64

structure Segmentation where
  ioSegment : Nat → Nat
  currentsegment : Nat
  segmentsize : Nat

/-- With the table full, what does not fit is dropped. -/
def Segmentation.add (segments : Segmentation) (diff : Nat) : Segmentation :=
  if segments.segmentsize + diff > segmentLimit then
    let stored :=
      Function.update segments.ioSegment segments.currentsegment segments.segmentsize
    if segments.currentsegment < ecMaxIoSegments - 1 then
      { ioSegment := stored
        currentsegment := segments.currentsegment + 1
        segmentsize := diff }
    else { segments with ioSegment := stored }
  else { segments with segmentsize := segments.segmentsize + diff }

/-- The process data of one direction of a slave: where they start, and how many bits they are. -/
structure Mapped where
  start : LogicalAddress
  bits : Nat
deriving DecidableEq, Repr

def Mapped.bytes (mapped : Mapped) : Nat := (mapped.start.bitPos + mapped.bits + 7) / 8

structure Walk where
  /-- `LogAddr` and `BitPos` -/
  address : LogicalAddress
  oLogAddr : Nat
  segments : Segmentation
  /-- the slaves with data in the direction, whose number is `outputsWKC` or `inputsWKC` -/
  mapped : List Mapped

def Walk.map (forceByteAlignment : Bool) (walk : Walk) (bits : Nat) : Walk :=
  if bits = 0 then walk
  else
    let mapping := createMapping bits walk.address
    let address := if forceByteAlignment then mapping.2.aligned else mapping.2
    { address := address
      oLogAddr := address.logAddr
      segments := walk.segments.add (address.logAddr - walk.oLogAddr)
      mapped := walk.mapped ++ [⟨mapping.1, bits⟩] }

/-- The byte that was begun is filled. -/
def Walk.close (walk : Walk) : Walk :=
  if walk.address.bitPos ≠ 0 then
    { walk with
      address := ⟨walk.address.logAddr + 1, 0⟩
      oLogAddr := walk.address.logAddr + 1
      segments := walk.segments.add 1 }
  else walk

/-- What the function reads of a slave, when the mappings are found. -/
structure SlaveIo where
  group : UInt8
  obits : Nat
  ibits : Nat
  blockLRW : Bool
deriving DecidableEq, Repr

structure Group where
  logstartaddr : Nat
  obytes : Nat
  ibytes : Nat
  blockLRW : Nat
  nsegments : Nat
  isegment : Nat
  ioffset : Nat
  ioSegment : Nat → Nat
  outputs : List Mapped
  inputs : List Mapped

def Group.outputsWKC (group : Group) : Nat := group.outputs.length

def Group.inputsWKC (group : Group) : Nat := group.inputs.length

def Group.segments (group : Group) : List Nat := (List.range group.nsegments).map group.ioSegment

def Group.ofWalks (logstartaddr blockLRW : Nat) (outputs inputs : Walk) : Group where
  logstartaddr := logstartaddr
  obytes := outputs.address.logAddr - logstartaddr
  ibytes := inputs.address.logAddr - logstartaddr - (outputs.address.logAddr - logstartaddr)
  blockLRW := blockLRW
  nsegments := inputs.segments.currentsegment + 1
  isegment := outputs.segments.currentsegment
  ioffset := outputs.segments.segmentsize % 2 ^ 16
  ioSegment := Function.update inputs.segments.ioSegment inputs.segments.currentsegment
    inputs.segments.segmentsize
  outputs := outputs.mapped
  inputs := inputs.mapped

/-- `ecx_main_config_map_group` for a group that exists, with a slave at least; `memory` is what
the table holds before. -/
def ecxMainConfigMapGroup (slaves : List SlaveIo) (group : UInt8) (forceByteAlignment : Bool)
    (logstartaddr blockLRW : Nat) (memory : Nat → Nat) : Group :=
  let own := slaves.filter fun slave => group = 0 ∨ slave.group = group
  let start : Walk := ⟨⟨logstartaddr, 0⟩, logstartaddr, ⟨memory, 0, 0⟩, []⟩
  let outputs := ((own.map SlaveIo.obits).foldl (Walk.map forceByteAlignment) start).close
  let inputs := ((own.map SlaveIo.ibits).foldl (Walk.map forceByteAlignment)
    { outputs with mapped := [] }).close
  .ofWalks logstartaddr (blockLRW + own.countP SlaveIo.blockLRW) outputs inputs

/-! ## The table -/

/-- The table shows a packing. -/
structure Shows (segments : Segmentation) (packing : Packing) : Prop where
  current : segments.currentsegment = packing.closed.length
  size : segments.segmentsize = packing.last
  stored : (List.range packing.closed.length).map segments.ioSegment = packing.closed

theorem Segmentation.current_le_add (segments : Segmentation) (diff : Nat) :
    segments.currentsegment ≤ (segments.add diff).currentsegment := by
  rw [add]
  split
  · dsimp only
    split
    · exact Nat.le_succ _
    · exact Nat.le_refl _
  · exact Nat.le_refl _

theorem map_range_update {table : Nat → Nat} {count value : Nat} :
    (List.range count).map (Function.update table count value) = (List.range count).map table := by
  apply List.map_congr_left
  intro position member
  exact Function.update_of_ne (Nat.ne_of_lt (List.mem_range.mp member)) ..

theorem map_range_split {table : Nat → Nat} {count value : Nat} {front back : List Nat}
    (split : (List.range count).map table = front ++ value :: back) :
    front.length < count ∧ table front.length = value := by
  have lengths := congrArg List.length split
  have here := congrArg (fun values : List Nat => values[front.length]?) split
  simp only [List.length_map, List.length_range, List.length_append, List.length_cons] at lengths
  have inside : front.length < count := by omega
  refine ⟨inside, ?_⟩
  simpa [List.getElem?_range inside] using here

theorem Shows.add {segments : Segmentation} {packing : Packing} (shows : Shows segments packing)
    (room : segments.currentsegment < ecMaxIoSegments - 1) (diff : Nat) :
    Shows (segments.add diff) (packing.add segmentLimit diff) := by
  rw [Segmentation.add, Packing.add, shows.size, if_pos room]
  split
  · rw [shows.current]
    refine ⟨by simp, rfl, ?_⟩
    dsimp only
    rw [List.length_append, List.length_singleton, List.range_succ, List.map_append,
      map_range_update, shows.stored, List.map_singleton, Function.update_self]
  · exact ⟨shows.current, rfl, shows.stored⟩

theorem Shows.lengths {segments : Segmentation} {packing : Packing}
    (shows : Shows segments packing) :
    (List.range (segments.currentsegment + 1)).map (Function.update segments.ioSegment
      segments.currentsegment segments.segmentsize) = packing.lengths := by
  rw [List.range_succ, List.map_append, map_range_update, shows.current, shows.stored,
    List.map_singleton, Function.update_self, shows.size, Packing.lengths]

/-! ## The layout -/

/-- The data do not run over into a further byte by fewer than 8 bits. -/
def Mapped.Compact (mapped : Mapped) : Prop :=
  8 ≤ mapped.bits ∨ mapped.start.bitPos + mapped.bits ≤ 8

instance (mapped : Mapped) : Decidable mapped.Compact := inferInstanceAs (Decidable (_ ∨ _))

/-- The data lie in one segment. -/
def Mapped.Inside (mapped : Mapped) (logstartaddr : Nat) (lengths : List Nat) : Prop :=
  logstartaddr ≤ mapped.start.logAddr ∧
    Within lengths (mapped.start.logAddr - logstartaddr) mapped.bytes

/-- Or they lie in the byte that is begun. -/
def Mapped.Begun (mapped : Mapped) (address : LogicalAddress) : Prop :=
  mapped.start.logAddr = address.logAddr ∧ mapped.bytes = 1 ∧ address.bitPos ≠ 0

/-- The data of a direction are laid out from the address `first` on. -/
structure LaidOut (logstartaddr first : Nat) (walk : Walk) (packing : Packing) : Prop where
  shows : Shows walk.segments packing
  whole : logstartaddr + packing.lengths.sum = walk.address.logAddr
  current : walk.oLogAddr = walk.address.logAddr
  bitPos : walk.address.bitPos ≤ 7
  bounded : ∀ length ∈ packing.lengths, length ≤ segmentLimit
  begun : first ≤ walk.address.logAddr
  behind : ∀ mapped ∈ walk.mapped, first ≤ mapped.start.logAddr ∧ 0 < mapped.bytes
  inside : ∀ mapped ∈ walk.mapped, mapped.Compact →
    mapped.Inside logstartaddr packing.lengths ∨ mapped.Begun walk.address

theorem createMapping_cases {bits : Nat} {address : LogicalAddress} (some : bits ≠ 0)
    (bitPos : address.bitPos ≤ 7) :
    (bits < 8 ∧ (createMapping bits address).1 = address ∧
      (createMapping bits address).2.bitPos ≤ 7 ∧
      8 * (createMapping bits address).2.logAddr + (createMapping bits address).2.bitPos =
        8 * address.logAddr + (address.bitPos + bits)) ∨
    (8 ≤ bits ∧ (createMapping bits address).1 = address.aligned ∧
      (createMapping bits address).2 = ⟨address.aligned.logAddr + (bits + 7) / 8, 0⟩) := by
  by_cases few : bits < 8
  · refine .inl ⟨few, by rw [createMapping, if_pos few], ?_⟩
    rw [createMapping, if_pos few]
    simp only [LogicalAddress.carried]
    split <;> split <;> dsimp only at * <;> omega
  · refine .inr ⟨by omega, ?_, ?_⟩ <;> rw [createMapping, if_neg few]

theorem aligned_bitPos (address : LogicalAddress) : address.aligned.bitPos = 0 := by
  rw [LogicalAddress.aligned]
  split
  · rfl
  · omega

theorem aligned_logAddr (address : LogicalAddress) :
    address.aligned.logAddr = address.logAddr + if address.bitPos ≠ 0 then 1 else 0 := by
  rw [LogicalAddress.aligned]
  split <;> rfl

/-- What a turn adds is one item of the packing; the byte that was begun belongs to it. -/
theorem LaidOut.add {logstartaddr first : Nat} {walk : Walk} {packing : Packing}
    (laid : LaidOut logstartaddr first walk packing)
    (room : walk.segments.currentsegment < ecMaxIoSegments - 1) {address : LogicalAddress}
    (later : walk.address.logAddr ≤ address.logAddr) (bitPos : address.bitPos ≤ 7)
    (same : address.logAddr = walk.address.logAddr →
      walk.address.bitPos ≠ 0 → address.bitPos ≠ 0)
    (fits : address.logAddr - walk.address.logAddr ≤ segmentLimit) (mapped : List Mapped)
    (behind : ∀ area ∈ mapped, walk.address.logAddr ≤ area.start.logAddr ∧ 0 < area.bytes)
    (new : ∀ area ∈ mapped, area.Compact →
      area.start.logAddr + area.bytes ≤ address.logAddr ∨ area.Begun address) :
    LaidOut logstartaddr first
      { address := address
        oLogAddr := address.logAddr
        segments := walk.segments.add (address.logAddr - walk.oLogAddr)
        mapped := walk.mapped ++ mapped }
      (packing.add segmentLimit (address.logAddr - walk.oLogAddr)) := by
  have whole := laid.whole
  have begunBefore := laid.begun
  have covered : ∀ area : Mapped, walk.address.logAddr ≤ area.start.logAddr →
      area.start.logAddr + area.bytes ≤ address.logAddr →
      area.Inside logstartaddr
        (packing.add segmentLimit (address.logAddr - walk.oLogAddr)).lengths := by
    intro area low high
    obtain ⟨front, piece, back, split, before, behind⟩ :=
      Packing.within_add segmentLimit packing (address.logAddr - walk.oLogAddr)
    rw [laid.current] at behind
    exact ⟨by omega, front, piece, back, split, by omega, by omega⟩
  refine ⟨laid.shows.add room _, ?_, rfl, bitPos, ?_, Nat.le_trans laid.begun later, ?_, ?_⟩
  · dsimp only
    rw [Packing.sum_add, laid.current]
    omega
  · rw [laid.current]
    exact Packing.le_of_mem_add laid.bounded fits
  · intro area member
    rcases List.mem_append.mp member with old | added
    · exact laid.behind area old
    · exact ⟨Nat.le_trans laid.begun (behind area added).1, (behind area added).2⟩
  · intro area member compact
    rcases List.mem_append.mp member with old | added
    · rcases laid.inside area old compact with ⟨behind, within⟩ | ⟨here, single, begun⟩
      · exact .inl ⟨behind, Packing.within_add_of_within _ within⟩
      · by_cases still : address.logAddr = walk.address.logAddr
        · exact .inr ⟨here.trans still.symm, single, same still begun⟩
        · exact .inl (covered area (by omega) (by omega))
    · rcases new area added compact with high | begun
      · exact .inl (covered area (behind area added).1 high)
      · exact .inr begun

/-- The address may be moved on to the next byte. -/
theorem forced_cases (forceByteAlignment : Bool) (address : LogicalAddress) :
    (if forceByteAlignment then address.aligned else address) = address ∨
      address.bitPos ≠ 0 ∧
        (if forceByteAlignment then address.aligned else address) = ⟨address.logAddr + 1, 0⟩ := by
  cases forceByteAlignment with
  | false => exact .inl rfl
  | true =>
      rw [if_pos rfl, LogicalAddress.aligned]
      split
      case isTrue begun => exact .inr ⟨begun, rfl⟩
      case isFalse whole => exact .inl rfl

/-- The addresses around the data of a slave. -/
structure Moved (bits : Nat) (before address : LogicalAddress) (mapped : Mapped) : Prop where
  later : before.logAddr ≤ address.logAddr
  bitPos : address.bitPos ≤ 7
  same : address.logAddr = before.logAddr → before.bitPos ≠ 0 → address.bitPos ≠ 0
  few : address.logAddr - before.logAddr ≤ (bits + 7) / 8 + 1
  start : before.logAddr ≤ mapped.start.logAddr
  inside : mapped.Compact →
    mapped.start.logAddr + mapped.bytes ≤ address.logAddr ∨ mapped.Begun address

theorem createMapping_moved (forceByteAlignment : Bool) {bits : Nat} {before : LogicalAddress}
    (some : bits ≠ 0) (bitPos : before.bitPos ≤ 7) :
    Moved bits before (if forceByteAlignment then (createMapping bits before).2.aligned
      else (createMapping bits before).2) ⟨(createMapping bits before).1, bits⟩ := by
  have forced := forced_cases forceByteAlignment (createMapping bits before).2
  rcases createMapping_cases some bitPos with ⟨small, start, bit, place⟩ | ⟨large, start, behind⟩
  · rw [start]
    generalize (createMapping bits before).2 = behind at *
    rcases forced with same | ⟨begun, next⟩
    · rw [same]
      refine ⟨by omega, bit, by omega, by omega, Nat.le_refl _, ?_⟩
      rintro (large | single)
      · exact absurd large (Nat.not_le_of_lt small)
      · simp only [Mapped.Begun, Mapped.bytes] at single ⊢
        omega
    · rw [next]
      refine ⟨by dsimp only; omega, Nat.zero_le 7, by dsimp only; omega, by dsimp only; omega,
        Nat.le_refl _, ?_⟩
      rintro (large | single)
      · exact absurd large (Nat.not_le_of_lt small)
      · simp only [Mapped.Begun, Mapped.bytes] at single ⊢
        omega
  · have bitZero := aligned_bitPos before
    have logAddr := aligned_logAddr before
    have unforced := forced.resolve_right (by rw [behind]; simp)
    rw [unforced, start, behind]
    have low : before.logAddr ≤ before.aligned.logAddr := by omega
    refine ⟨by dsimp only; omega, Nat.zero_le 7, by dsimp only; omega, ?_, low, ?_⟩
    · dsimp only
      split at logAddr <;> omega
    · intro _
      simp only [Mapped.bytes, bitZero]
      omega

theorem LaidOut.map {logstartaddr first : Nat} {walk : Walk} {packing : Packing}
    (laid : LaidOut logstartaddr first walk packing) (forceByteAlignment : Bool) {bits : Nat}
    (few : bits ≤ 8 * (segmentLimit - 1))
    (room : walk.segments.currentsegment < ecMaxIoSegments - 1) :
    ∃ items : List Nat, LaidOut logstartaddr first (walk.map forceByteAlignment bits)
      (items.foldl (Packing.add segmentLimit) packing) := by
  rw [Walk.map]
  split
  · exact ⟨[], laid⟩
  case isFalse some =>
    have moved := createMapping_moved forceByteAlignment some laid.bitPos
    have limit : segmentLimit = 1466 := rfl
    have fits := moved.few
    refine ⟨[_], laid.add room moved.later moved.bitPos moved.same (by omega) [_] ?_ ?_⟩
    · intro area member
      cases List.mem_singleton.mp member
      refine ⟨moved.start, ?_⟩
      simp only [Mapped.bytes]
      omega
    · intro area member compact
      cases List.mem_singleton.mp member
      exact moved.inside compact

theorem LaidOut.close {logstartaddr first : Nat} {walk : Walk} {packing : Packing}
    (laid : LaidOut logstartaddr first walk packing)
    (room : walk.segments.currentsegment < ecMaxIoSegments - 1) :
    ∃ items : List Nat, LaidOut logstartaddr first walk.close
      (items.foldl (Packing.add segmentLimit) packing) ∧ walk.close.address.bitPos = 0 := by
  rw [Walk.close]
  split
  case isTrue begun =>
    have item : walk.address.logAddr + 1 - walk.oLogAddr = 1 := by
      rw [laid.current]
      omega
    have added := @LaidOut.add _ _ _ _ laid room ⟨walk.address.logAddr + 1, 0⟩ (Nat.le_succ _)
      (Nat.zero_le 7) (by simp) (by simp [segmentLimit]) [] nofun nofun
    rw [item, List.append_nil] at added
    exact ⟨[1], added, rfl⟩
  case isFalse whole => exact ⟨[], laid, by omega⟩

theorem Walk.current_le_map (walk : Walk) (forceByteAlignment : Bool) (bits : Nat) :
    walk.segments.currentsegment ≤
      (walk.map forceByteAlignment bits).segments.currentsegment := by
  rw [Walk.map]
  split
  · exact Nat.le_refl _
  · exact Segmentation.current_le_add ..

theorem Walk.current_le_close (walk : Walk) :
    walk.segments.currentsegment ≤ walk.close.segments.currentsegment := by
  rw [Walk.close]
  split
  · exact Segmentation.current_le_add ..
  · exact Nat.le_refl _

theorem Walk.current_le_foldl (forceByteAlignment : Bool) (sizes : List Nat) : ∀ walk : Walk,
    walk.segments.currentsegment ≤
      (sizes.foldl (Walk.map forceByteAlignment) walk).segments.currentsegment := by
  induction sizes with
  | nil => exact fun _ => Nat.le_refl _
  | cons bits sizes ih =>
      exact fun walk => Nat.le_trans (walk.current_le_map forceByteAlignment bits) (ih _)

/-- All slaves of a direction; the table did not run full if it has room at the end. -/
theorem LaidOut.foldl {logstartaddr first : Nat} (forceByteAlignment : Bool) {sizes : List Nat} :
    ∀ {walk : Walk} {packing : Packing}, LaidOut logstartaddr first walk packing →
      (∀ bits ∈ sizes, bits ≤ 8 * (segmentLimit - 1)) →
      (sizes.foldl (Walk.map forceByteAlignment) walk).segments.currentsegment <
        ecMaxIoSegments - 1 →
      ∃ items : List Nat, LaidOut logstartaddr first
        (sizes.foldl (Walk.map forceByteAlignment) walk)
        (items.foldl (Packing.add segmentLimit) packing) := by
  induction sizes with
  | nil => exact fun laid _ _ => ⟨[], laid⟩
  | cons bits sizes ih =>
      intro walk packing laid few room
      have before := Walk.current_le_foldl forceByteAlignment (bits :: sizes) walk
      obtain ⟨items, mapped⟩ := laid.map forceByteAlignment (few bits List.mem_cons_self)
        (Nat.lt_of_le_of_lt before room)
      obtain ⟨later, rest⟩ :=
        ih mapped (fun other member => few other (List.mem_cons_of_mem _ member)) room
      refine ⟨items ++ later, ?_⟩
      rw [List.foldl_append]
      exact rest

theorem LaidOut.direction {logstartaddr first : Nat} (forceByteAlignment : Bool)
    {sizes : List Nat} {walk : Walk} {packing : Packing}
    (laid : LaidOut logstartaddr first walk packing)
    (few : ∀ bits ∈ sizes, bits ≤ 8 * (segmentLimit - 1))
    (room : (sizes.foldl (Walk.map forceByteAlignment) walk).close.segments.currentsegment <
      ecMaxIoSegments - 1) :
    ∃ items : List Nat, LaidOut logstartaddr first
        (sizes.foldl (Walk.map forceByteAlignment) walk).close
        (items.foldl (Packing.add segmentLimit) packing) ∧
      (sizes.foldl (Walk.map forceByteAlignment) walk).close.address.bitPos = 0 := by
  have before := Walk.current_le_close (sizes.foldl (Walk.map forceByteAlignment) walk)
  have open' := Nat.lt_of_le_of_lt before room
  obtain ⟨items, mapped⟩ := laid.foldl forceByteAlignment few open'
  obtain ⟨last, closed, bit⟩ := mapped.close open'
  refine ⟨items ++ last, ?_, bit⟩
  rw [List.foldl_append]
  exact closed

/-! ## The group -/

/-- The segments of the outputs; the last one may go on with inputs. -/
def Group.outputSegments (group : Group) : List Nat :=
  group.segments.take group.isegment ++ [group.ioffset]

/-- The segments of the inputs, without what outputs take of the first one. -/
def Group.inputSegments (group : Group) : List Nat :=
  (group.ioSegment group.isegment - group.ioffset) :: group.segments.drop (group.isegment + 1)

/-- The segments divide the process data, and no slave with compact data is divided. -/
structure Group.Tiled (group : Group) : Prop where
  isegment : group.isegment < group.nsegments
  ioffset : group.ioffset ≤ group.ioSegment group.isegment
  obytes : group.outputSegments.sum = group.obytes
  ibytes : group.inputSegments.sum = group.ibytes
  bounded : ∀ length ∈ group.segments, length ≤ segmentLimit
  outputs : ∀ area ∈ group.outputs, area.Compact →
    area.Inside group.logstartaddr group.outputSegments
  inputs : ∀ area ∈ group.inputs, area.Compact →
    area.Inside (group.logstartaddr + group.obytes) group.inputSegments
  both : ∀ area ∈ group.outputs ++ group.inputs, area.Compact →
    area.Inside group.logstartaddr group.segments
  filled : ∀ area ∈ group.outputs ++ group.inputs, 0 < area.bytes

/-- Without a byte begun, all compact data lie in one segment. -/
theorem LaidOut.all_inside {logstartaddr first : Nat} {walk : Walk} {packing : Packing}
    (laid : LaidOut logstartaddr first walk packing) (whole : walk.address.bitPos = 0) :
    ∀ area ∈ walk.mapped, area.Compact → area.Inside logstartaddr packing.lengths := by
  intro area member compact
  rcases laid.inside area member compact with inside | begun
  · exact inside
  · exact absurd whole begun.2.2

theorem LaidOut.next {logstartaddr first : Nat} {walk : Walk} {packing : Packing}
    (laid : LaidOut logstartaddr first walk packing) :
    LaidOut logstartaddr walk.address.logAddr { walk with mapped := [] } packing :=
  { laid with
    begun := Nat.le_refl _
    behind := fun _ member => absurd member List.not_mem_nil
    inside := fun _ member => absurd member List.not_mem_nil }

theorem group_tiled {logstartaddr : Nat} (blockLRW : Nat) {outputs inputs : Walk}
    {packing : Packing} {items : List Nat}
    (laidOutputs : LaidOut logstartaddr logstartaddr outputs packing)
    (outputsWhole : outputs.address.bitPos = 0)
    (laidInputs : LaidOut logstartaddr outputs.address.logAddr inputs
      (items.foldl (Packing.add segmentLimit) packing))
    (inputsWhole : inputs.address.bitPos = 0) :
    (Group.ofWalks logstartaddr blockLRW outputs inputs).Tiled := by
  have limit : segmentLimit = 1466 := rfl
  have shown := laidInputs.shows.lengths
  obtain ⟨piece, back, split, grown⟩ := Packing.foldl_grows segmentLimit items packing
  have outputsSum := laidOutputs.whole
  have inputsSum := laidInputs.whole
  have lastBound := laidOutputs.bounded packing.last (by simp [Packing.lengths])
  have current := laidOutputs.shows.current
  have offset : outputs.segments.segmentsize % 2 ^ 16 = packing.last := by
    rw [laidOutputs.shows.size, Nat.mod_eq_of_lt (by omega)]
  have segments : (Group.ofWalks logstartaddr blockLRW outputs inputs).segments =
      packing.closed ++ piece :: back := shown.trans split
  obtain ⟨inside, pieceAt⟩ := map_range_split segments
  have obytes : (Group.ofWalks logstartaddr blockLRW outputs inputs).obytes =
      packing.lengths.sum := by
    dsimp only [Group.ofWalks]
    omega
  have outputSegments : (Group.ofWalks logstartaddr blockLRW outputs inputs).outputSegments =
      packing.lengths := by
    rw [Group.outputSegments, segments]
    simp only [Group.ofWalks, current, offset, List.take_left, Packing.lengths]
  have isegment : (Group.ofWalks logstartaddr blockLRW outputs inputs).isegment =
      packing.closed.length := current
  have inputSegments : (Group.ofWalks logstartaddr blockLRW outputs inputs).inputSegments =
      (piece - packing.last) :: back := by
    rw [Group.inputSegments, segments, isegment, pieceAt, ← List.drop_drop, List.drop_left]
    simp only [Group.ofWalks, offset, List.drop_succ_cons, List.drop_zero]
  have sums := congrArg List.sum split
  rw [List.sum_append, List.sum_cons] at sums
  rw [Packing.sum_lengths] at obytes outputsSum
  refine ⟨?_, ?_, ?_, ?_, ?_, ?_, ?_, ?_, ?_⟩
  · rw [isegment]
    exact inside
  · rw [isegment, pieceAt]
    exact Nat.le_trans (Nat.le_of_eq offset) grown
  · rw [outputSegments, obytes, Packing.sum_lengths]
  · rw [inputSegments, List.sum_cons]
    dsimp only [Group.ofWalks]
    omega
  · rw [segments, ← split]
    exact laidInputs.bounded
  · rw [outputSegments]
    exact laidOutputs.all_inside outputsWhole
  · intro area member compact
    obtain ⟨above, some⟩ := laidInputs.behind area member
    obtain ⟨-, within⟩ := laidInputs.all_inside inputsWhole area member compact
    rw [split] at within
    rw [inputSegments, obytes]
    refine ⟨?_, ?_⟩
    · dsimp only [Group.ofWalks]
      omega
    · rw [← Nat.sub_sub]
      exact within.behind grown (by omega) some
  · rw [segments, ← split]
    intro area member compact
    rcases List.mem_append.mp member with output | input
    · obtain ⟨above, within⟩ := laidOutputs.all_inside outputsWhole area output compact
      exact ⟨above, Packing.within_foldl items within⟩
    · exact laidInputs.all_inside inputsWhole area input compact
  · intro area member
    rcases List.mem_append.mp member with output | input
    · exact (laidOutputs.behind area output).2
    · exact (laidInputs.behind area input).2

/-- A network with at most 1465 bytes a slave and direction, and fewer than 64 segments. -/
theorem mapped_tiled {slaves : List SlaveIo} {group : UInt8} {forceByteAlignment : Bool}
    {logstartaddr blockLRW : Nat} {memory : Nat → Nat}
    (few : ∀ slave ∈ slaves, slave.obits ≤ 8 * 1465 ∧ slave.ibits ≤ 8 * 1465)
    (room : (ecxMainConfigMapGroup slaves group forceByteAlignment logstartaddr blockLRW
      memory).nsegments < 64) :
    (ecxMainConfigMapGroup slaves group forceByteAlignment logstartaddr blockLRW
      memory).Tiled := by
  have begun : LaidOut logstartaddr logstartaddr ⟨⟨logstartaddr, 0⟩, logstartaddr, ⟨memory, 0, 0⟩,
      []⟩ .empty :=
    { shows := ⟨rfl, rfl, rfl⟩
      whole := rfl
      current := rfl
      bitPos := Nat.zero_le 7
      bounded := by simp
      begun := Nat.le_refl _
      behind := fun _ member => absurd member List.not_mem_nil
      inside := fun _ member => absurd member List.not_mem_nil }
  have fewIn : ∀ size : SlaveIo → Nat,
      (∀ slave ∈ slaves, size slave ≤ 8 * 1465) →
      ∀ bits ∈ (slaves.filter fun slave => group = 0 ∨ slave.group = group).map size,
        bits ≤ 8 * (segmentLimit - 1) := by
    intro size bounded bits member
    obtain ⟨slave, own, rfl⟩ := List.mem_map.mp member
    exact bounded slave (List.mem_of_mem_filter own)
  have inputsRoom := Nat.lt_of_succ_lt_succ room
  have outputsRoom := Nat.lt_of_le_of_lt (Nat.le_trans (Walk.current_le_foldl forceByteAlignment
    _ _) (Walk.current_le_close _)) inputsRoom
  obtain ⟨outputItems, laidOutputs, outputsWhole⟩ := begun.direction forceByteAlignment
    (fewIn SlaveIo.obits fun slave member => (few slave member).1) outputsRoom
  obtain ⟨inputItems, laidInputs, inputsWhole⟩ := laidOutputs.next.direction forceByteAlignment
    (fewIn SlaveIo.ibits fun slave member => (few slave member).2) inputsRoom
  exact group_tiled _ laidOutputs outputsWhole laidInputs inputsWhole

theorem Group.Tiled.sum_segments {group : Group} (tiled : group.Tiled) :
    group.segments.sum = group.obytes + group.ibytes := by
  have length : group.segments.length = group.nsegments := by
    rw [Group.segments, List.length_map, List.length_range]
  have inside : group.isegment < group.segments.length := length ▸ tiled.isegment
  have value : group.segments[group.isegment] = group.ioSegment group.isegment := by
    simp [Group.segments]
  have split := List.sum_take_add_sum_drop group.segments group.isegment
  rw [List.drop_eq_getElem_cons inside, value, List.sum_cons] at split
  have outputs := tiled.obytes
  have inputs := tiled.ibytes
  have offset := tiled.ioffset
  rw [Group.outputSegments, List.sum_append, List.sum_singleton] at outputs
  rw [Group.inputSegments, List.sum_cons] at inputs
  omega

/-- In every network with at most 1465 bytes a slave and direction, and fewer than 64 segments,
each segment fits into a frame, the segments are the outputs and behind them the inputs, and no
slave with whole bytes is divided between two frames. -/
theorem segments_tile (slaves : List SlaveIo) (number : UInt8) (forceByteAlignment : Bool)
    (logstartaddr blockLRW : Nat) (memory : Nat → Nat)
    (few : ∀ slave ∈ slaves, slave.obits ≤ 8 * 1465 ∧ slave.ibits ≤ 8 * 1465)
    (room : (ecxMainConfigMapGroup slaves number forceByteAlignment logstartaddr blockLRW
      memory).nsegments < 64) :
    let group := ecxMainConfigMapGroup slaves number forceByteAlignment logstartaddr blockLRW memory
    (∀ length ∈ group.segments, length ≤ 1466) ∧
      group.segments.sum = group.obytes + group.ibytes ∧
      (group.segments.take group.isegment).sum + group.ioffset = group.obytes ∧
      ∀ area ∈ group.outputs ++ group.inputs, area.Compact →
        area.Inside logstartaddr group.segments := by
  have tiled := mapped_tiled few room
  have outputs := tiled.obytes
  rw [Group.outputSegments, List.sum_append, List.sum_singleton] at outputs
  exact ⟨tiled.bounded, tiled.sum_segments, outputs, tiled.both⟩

/-- Three slaves, two of them with half a byte. -/
def longNetwork : List SlaveIo :=
  [⟨0, 8000, 5600, false⟩, ⟨0, 4, 0, false⟩, ⟨0, 4800, 4, false⟩]

theorem segments_tile_longNetwork :
    let group := ecxMainConfigMapGroup longNetwork 0 false 0 0 fun _ => 0
    group.segments = [1000, 1302] ∧ (∀ length ∈ group.segments, length ≤ 1466) ∧
      group.segments.sum = group.obytes + group.ibytes ∧
      (group.segments.take group.isegment).sum + group.ioffset = group.obytes ∧
      ∀ area ∈ group.outputs ++ group.inputs, area.Compact → area.Inside 0 group.segments :=
  ⟨by decide, segments_tile longNetwork 0 false 0 0 (fun _ => 0) (by decide) (by decide)⟩

end WebserverEthercat.IoMap

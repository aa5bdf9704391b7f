import WebserverEthercat.Dump.PdoAssign
import Mathlib.Data.List.Nodup

/-!
# The reads of an assignment

`si_PDOassign` with the `ec_SDOread`s that it makes.  Its 16-bit counter is cut
to the 8 bits of a subindex, and nothing keeps an assigned index from being that
of the assignment object.
-/

set_option autoImplicit false

namespace WebserverEthercat

open Loops

structure AssignTrace where
  walk : AssignWalk
  /-- the index and subindex of each read -/
  reads : List (UInt16 × UInt8)

namespace AssignTrace

def entry (slave : CoeSlave) (mapoffset : Int) (idx : UInt16) (trace : AssignTrace)
    (subidxloop : Nat) : AssignTrace :=
  { walk := trace.walk.entry slave mapoffset idx subidxloop
    reads := trace.reads ++ [(idx, UInt8.ofNat subidxloop)] }

def pdo (slave : CoeSlave) (pdoAssign : UInt16) (mapoffset : Int) (trace : AssignTrace)
    (idxloop : UInt16) : AssignTrace :=
  let idx := (slave.readU16 pdoAssign idxloop.toUInt8).getD 0
  let assigned := { trace with reads := trace.reads ++ [(pdoAssign, idxloop.toUInt8)] }
  if idx > 0 then
    let subcnt := (slave.readU8 idx 0).getD 0
    upTo subcnt.toNat (entry slave mapoffset idx)
      { assigned with reads := assigned.reads ++ [(idx, 0)] }
  else assigned

def subindexes (trace : AssignTrace) (object : UInt16) : List UInt8 :=
  (trace.reads.filter fun read => read.1 = object).map Prod.snd

end AssignTrace

def siPdoAssignTrace (slave : CoeSlave) (pdoAssign : UInt16) (mapoffset bitoffset : Int) :
    Option AssignTrace :=
  let nidx := (slave.readU16 pdoAssign 0).getD 0
  if nidx > 0 then
    countTo (AssignTrace.pdo slave pdoAssign mapoffset) nidx 65536 1
      ⟨⟨0, bitoffset, []⟩, [(pdoAssign, 0)]⟩
  else some ⟨⟨0, bitoffset, []⟩, [(pdoAssign, 0)]⟩

/-! ## The trace of the call -/

theorem AssignTrace.pdo_walk (slave : CoeSlave) (pdoAssign : UInt16) (mapoffset : Int)
    (trace : AssignTrace) (idxloop : UInt16) :
    (trace.pdo slave pdoAssign mapoffset idxloop).walk =
      trace.walk.pdo slave pdoAssign mapoffset idxloop := by
  have entries (idx : UInt16) (subidxs : List Nat) (trace : AssignTrace) :
      (subidxs.foldl (AssignTrace.entry slave mapoffset idx) trace).walk =
        subidxs.foldl (AssignWalk.entry slave mapoffset idx) trace.walk :=
    (List.foldl_hom AssignTrace.walk fun _ _ => rfl).symm
  simp only [AssignTrace.pdo, AssignWalk.pdo, upTo]
  split
  · exact entries ..
  · rfl

theorem siPdoAssignTrace_walk (slave : CoeSlave) (pdoAssign : UInt16)
    (mapoffset bitoffset : Int) :
    (siPdoAssignTrace slave pdoAssign mapoffset bitoffset).map AssignTrace.walk =
      siPdoAssign slave pdoAssign mapoffset bitoffset := by
  simp only [siPdoAssignTrace, siPdoAssign]
  split
  · exact countTo_map _ _ AssignTrace.walk (AssignTrace.pdo_walk slave pdoAssign mapoffset) _ _ _ _
  · rfl

def pdoReads (slave : CoeSlave) (idx : UInt16) : List (UInt16 × UInt8) :=
  if idx > 0 then
    (idx, 0) :: (List.range' 1 ((slave.readU8 idx 0).getD 0).toNat).map fun subidx =>
      (idx, UInt8.ofNat subidx)
  else []

/-- What an assignment object holds at a subindex: the number of PDOs at 0, a PDO at the others. -/
def assignedPdo (slave : CoeSlave) (pdoAssign : UInt16) (subidx : UInt8) : UInt16 :=
  (slave.readU16 pdoAssign subidx).getD 0

theorem AssignTrace.pdo_reads (slave : CoeSlave) (pdoAssign : UInt16) (mapoffset : Int)
    (trace : AssignTrace) (idxloop : UInt16) :
    (trace.pdo slave pdoAssign mapoffset idxloop).reads =
      trace.reads ++ (pdoAssign, idxloop.toUInt8) ::
        pdoReads slave (assignedPdo slave pdoAssign idxloop.toUInt8) := by
  have entries (idx : UInt16) (subidxs : List Nat) (trace : AssignTrace) :
      (subidxs.foldl (AssignTrace.entry slave mapoffset idx) trace).reads =
        trace.reads ++ subidxs.flatMap fun subidx => [(idx, UInt8.ofNat subidx)] :=
    foldl_log AssignTrace.reads _ (fun _ _ => rfl) subidxs trace
  simp only [AssignTrace.pdo, pdoReads, assignedPdo, upTo]
  by_cases assigned : (slave.readU16 pdoAssign idxloop.toUInt8).getD 0 > 0
  · simp only [assigned, if_true, entries, List.append_assoc, List.map_eq_flatMap]
    rfl
  · simp only [assigned, if_false]

theorem siPdoAssignTrace_reads {slave : CoeSlave} {pdoAssign : UInt16}
    (bounded : Bounded slave pdoAssign) (mapoffset bitoffset : Int) :
    ∃ trace, siPdoAssignTrace slave pdoAssign mapoffset bitoffset = some trace ∧
      trace.reads = (pdoAssign, 0) ::
        (counters 1 (assignedPdo slave pdoAssign 0).toNat).flatMap fun idxloop =>
          (pdoAssign, idxloop.toUInt8) ::
            pdoReads slave (assignedPdo slave pdoAssign idxloop.toUInt8) := by
  have walked := foldl_log AssignTrace.reads _ (AssignTrace.pdo_reads slave pdoAssign mapoffset)
  exact ⟨_, countTo_whole _ bounded.wrapless _, walked _ _⟩

/-! ## No subindex twice -/

/-- The number of assigned PDOs fits a subindex, and none of them is the assignment object. -/
def Assignable (slave : CoeSlave) (pdoAssign : UInt16) : Prop :=
  (assignedPdo slave pdoAssign 0).toNat ≤ 255 ∧
    ∀ subidx : UInt8, 1 ≤ subidx.toNat → subidx.toNat ≤ (assignedPdo slave pdoAssign 0).toNat →
      assignedPdo slave pdoAssign subidx > 0 → assignedPdo slave pdoAssign subidx ≠ pdoAssign

theorem reads_zero_again {slave : CoeSlave} {pdoAssign : UInt16}
    (unassignable : ¬ Assignable slave pdoAssign) :
    (pdoAssign, 0) ∈ (counters 1 (assignedPdo slave pdoAssign 0).toNat).flatMap fun idxloop =>
      (pdoAssign, idxloop.toUInt8) ::
        pdoReads slave (assignedPdo slave pdoAssign idxloop.toUInt8) := by
  have bound := (assignedPdo slave pdoAssign 0).toNat_lt
  rw [List.mem_flatMap]
  by_cases many : 255 < (assignedPdo slave pdoAssign 0).toNat
  · -- the counter 256 is cut to 0
    refine ⟨256, (mem_counters (by omega)).mpr ⟨by decide, ?_⟩, .head _⟩
    have value : (256 : UInt16).toNat = 256 := rfl
    omega
  · have itself : ∃ subidx : UInt8, 1 ≤ subidx.toNat ∧
        subidx.toNat ≤ (assignedPdo slave pdoAssign 0).toNat ∧
        assignedPdo slave pdoAssign subidx > 0 ∧ assignedPdo slave pdoAssign subidx = pdoAssign := by
      by_contra none
      refine unassignable ⟨by omega, fun subidx first last some same => none ⟨subidx, ?_⟩⟩
      exact ⟨first, last, some, same⟩
    obtain ⟨subidx, first, last, some, same⟩ := itself
    refine ⟨subidx.toUInt16, (mem_counters (by omega)).mpr ?_, .tail _ ?_⟩
    · rw [UInt8.toNat_toUInt16]
      omega
    · rw [UInt8.toUInt8_toUInt16, pdoReads, if_pos some, same]
      exact .head _

theorem pdoReads_elsewhere {slave : CoeSlave} {pdoAssign idx : UInt16}
    (other : idx > 0 → idx ≠ pdoAssign) :
    (pdoReads slave idx).filter (fun read => read.1 = pdoAssign) = [] := by
  rw [List.filter_eq_nil_iff, pdoReads]
  intro read member
  split at member
  case isTrue some =>
    have here : read.1 = idx := by
      rcases List.mem_cons.mp member with rfl | later
      · rfl
      · obtain ⟨_, _, rfl⟩ := List.mem_map.mp later
        rfl
    simpa [here] using other some
  case isFalse => cases member

theorem Assignable.bounded {slave : CoeSlave} {pdoAssign : UInt16}
    (assignable : Assignable slave pdoAssign) : Bounded slave pdoAssign := by
  intro full
  have few := assignable.1
  rw [assignedPdo, full] at few
  exact absurd few (by decide)

/-- The subindexes that are read of the assignment object are counted up from 0. -/
theorem Assignable.subindexes {slave : CoeSlave} {pdoAssign : UInt16}
    (assignable : Assignable slave pdoAssign) {trace : AssignTrace}
    (reads : trace.reads = (pdoAssign, 0) ::
      (counters 1 (assignedPdo slave pdoAssign 0).toNat).flatMap fun idxloop =>
        (pdoAssign, idxloop.toUInt8) ::
          pdoReads slave (assignedPdo slave pdoAssign idxloop.toUInt8)) :
    trace.subindexes pdoAssign =
      (List.range' 0 ((assignedPdo slave pdoAssign 0).toNat + 1)).map UInt8.ofNat := by
  obtain ⟨few, others⟩ := assignable
  have each : ∀ idxloop ∈ counters 1 (assignedPdo slave pdoAssign 0).toNat,
      (((pdoAssign, idxloop.toUInt8) ::
        pdoReads slave (assignedPdo slave pdoAssign idxloop.toUInt8)).filter
          fun read => read.1 = pdoAssign) = [(pdoAssign, idxloop.toUInt8)] := by
    intro idxloop member
    obtain ⟨first, last⟩ := (mem_counters (by omega)).mp member
    have cut : idxloop.toUInt8.toNat = idxloop.toNat := by
      rw [UInt16.toNat_toUInt8]
      omega
    rw [List.filter_cons_of_pos (by simp),
      pdoReads_elsewhere (others idxloop.toUInt8 (by omega) (by omega))]
  rw [AssignTrace.subindexes, reads, List.filter_cons_of_pos (by simp), List.filter_flatMap,
    List.flatMap_congr each, List.range'_succ, ← List.map_eq_flatMap, List.map_cons,
    List.map_map, counters, List.map_map, List.map_cons]
  simp [Function.comp_def]

theorem nodup_subindexes {count : Nat} (few : count ≤ 255) :
    ((List.range' 0 (count + 1)).map UInt8.ofNat).Nodup := by
  apply List.Nodup.map_on _ List.nodup_range'
  intro first firstMember second secondMember same
  have firstRange := List.mem_range'_1.mp firstMember
  have secondRange := List.mem_range'_1.mp secondMember
  have values := congrArg UInt8.toNat same
  rw [UInt8.toNat_ofNat', UInt8.toNat_ofNat'] at values
  omega

/-- `si_PDOassign` ends and reads no subindex of the assignment object twice exactly when the
object has at most 255 PDOs and is none of them. -/
theorem ends_reading_once_iff (slave : CoeSlave) (pdoAssign : UInt16)
    (mapoffset bitoffset : Int) :
    (∃ trace, siPdoAssignTrace slave pdoAssign mapoffset bitoffset = some trace ∧
        (trace.subindexes pdoAssign).Nodup) ↔
      Assignable slave pdoAssign := by
  constructor
  · rintro ⟨trace, ends, once⟩
    have bounded : Bounded slave pdoAssign := by
      by_contra unbounded
      have walked := siPdoAssignTrace_walk slave pdoAssign mapoffset bitoffset
      rw [ends, siPdoAssign_eq_none unbounded] at walked
      cases walked
    obtain ⟨same, sameEnds, reads⟩ := siPdoAssignTrace_reads bounded mapoffset bitoffset
    obtain rfl : trace = same := Option.some.inj (ends.symm.trans sameEnds)
    by_contra unassignable
    have again := reads_zero_again unassignable
    rw [AssignTrace.subindexes, reads, List.filter_cons_of_pos (by simp), List.map_cons,
      List.nodup_cons] at once
    exact once.1 (List.mem_map.mpr ⟨_, List.mem_filter.mpr ⟨again, by simp⟩, rfl⟩)
  · intro assignable
    obtain ⟨trace, ends, reads⟩ :=
      siPdoAssignTrace_reads assignable.bounded mapoffset bitoffset
    refine ⟨trace, ends, ?_⟩
    rw [assignable.subindexes reads]
    exact nodup_subindexes assignable.1

/-- A slave with 65535 assigned PDOs. -/
def CoeSlave.crowded : CoeSlave where
  sdo index subidx := if index = 0x1c12 ∧ subidx = 0 then some [0xff, 0xff] else none
  objectEntry _ _ := none

/-- The counter cannot exceed 65535, so the loop does not end after any number of turns. -/
theorem crowded_endless :
    siPdoAssign .crowded 0x1c12 0 0 = none ∧ siPdoAssignTrace .crowded 0x1c12 0 0 = none ∧
      assignedPdo .crowded 0x1c12 0 = 65535 ∧
      ∀ turns trace, countTo (AssignTrace.pdo .crowded 0x1c12 0) 65535 turns 1 trace = none := by
  have unbounded : ¬ Bounded .crowded 0x1c12 := fun bounded => bounded rfl
  have endless := siPdoAssign_eq_none unbounded 0 0
  have walked := siPdoAssignTrace_walk .crowded 0x1c12 0 0
  rw [endless] at walked
  exact ⟨endless, Option.map_eq_none_iff.mp walked, rfl, fun _ _ => countTo_endless ..⟩

end WebserverEthercat

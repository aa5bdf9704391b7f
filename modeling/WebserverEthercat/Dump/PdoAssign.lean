import WebserverEthercat.Dump.Sdo
import WebserverEthercat.Lib.Loops

/-!
# The PDOs assigned to a sync manager

`si_PDOassign` prints a row for every mapping word of the assigned PDOs and adds
up their bits; `ecx_readPDOassign` only adds them up.  Both loops are followed
to the list of the mapped entries.
-/

set_option autoImplicit false

namespace WebserverEthercat

open Loops

structure MappedEntry where
  objIdx : UInt16
  objSubidx : UInt8
  bitlen : UInt8
deriving DecidableEq, Repr

def MappedEntry.ofWord (rdat2 : UInt32) : MappedEntry :=
  { objIdx := (rdat2 >>> 16).toUInt16
    objSubidx := ((rdat2 >>> 8) &&& 0x000000ff).toUInt8
    bitlen := rdat2.toUInt8 }

/-! ## `si_PDOassign` -/

structure AssignWalk where
  bsize : Int
  bitoffset : Int
  printed : List PdoRow
deriving DecidableEq, Repr

def mappedRow (slave : CoeSlave) (mapoffset bitoffset : Int) (entry : MappedEntry) : PdoRow :=
  { absOffset := mapoffset + bitoffset.tdiv 8
    absBit := bitoffset.tmod 8
    objIdx := entry.objIdx
    objSubidx := entry.objSubidx
    bitlen := entry.bitlen
    -- a filler (0x0000:0x00) is not looked up
    description :=
      if entry.objIdx ≠ 0 ∨ entry.objSubidx ≠ 0 then
        slave.objectEntry entry.objIdx entry.objSubidx
      else none }

def AssignWalk.print (slave : CoeSlave) (mapoffset : Int) (walk : AssignWalk)
    (entry : MappedEntry) : AssignWalk :=
  { bsize := walk.bsize + entry.bitlen.toNat
    bitoffset := walk.bitoffset + entry.bitlen.toNat
    printed := walk.printed ++ [mappedRow slave mapoffset walk.bitoffset entry] }

def AssignWalk.entry (slave : CoeSlave) (mapoffset : Int) (idx : UInt16) (walk : AssignWalk)
    (subidxloop : Nat) : AssignWalk :=
  walk.print slave mapoffset
    (.ofWord ((slave.readU32 idx (UInt8.ofNat subidxloop)).getD 0))

def AssignWalk.pdo (slave : CoeSlave) (pdoAssign : UInt16) (mapoffset : Int) (walk : AssignWalk)
    (idxloop : UInt16) : AssignWalk :=
  let idx := (slave.readU16 pdoAssign idxloop.toUInt8).getD 0
  if idx > 0 then
    let subcnt := (slave.readU8 idx 0).getD 0
    upTo subcnt.toNat (AssignWalk.entry slave mapoffset idx) walk
  else walk

/-- `none` is a call that does not return: 2^16 turns pass every value of `idxloop`. -/
def siPdoAssign (slave : CoeSlave) (pdoAssign : UInt16) (mapoffset bitoffset : Int) :
    Option AssignWalk :=
  let nidx := (slave.readU16 pdoAssign 0).getD 0
  if nidx > 0 then
    countTo (AssignWalk.pdo slave pdoAssign mapoffset) nidx 65536 1 ⟨0, bitoffset, []⟩
  else some ⟨0, bitoffset, []⟩

/-! ## `ecx_readPDOassign` -/

def configEntry (slave : CoeSlave) (idx : UInt16) (bsize : Nat) (subidxloop : Nat) : Nat :=
  let rdat2 := (slave.readU32 idx (UInt8.ofNat subidxloop)).getD 0
  if rdat2.toUInt8 < 0xff then bsize + rdat2.toUInt8.toNat else bsize + 0xff

def configPdo (slave : CoeSlave) (pdoAssign : UInt16) (bsize : Nat) (idxloop : UInt16) : Nat :=
  let idx := (slave.readU16 pdoAssign idxloop.toUInt8).getD 0
  if idx > 0 then
    let subcnt := (slave.readU8 idx 0).getD 0
    upTo subcnt.toNat (configEntry slave idx) bsize
  else bsize

/-- The sum stays below 2^32: 65534 PDOs of 255 entries of 255 bits. -/
def ecxReadPdoAssign (slave : CoeSlave) (pdoAssign : UInt16) : Option Nat :=
  let nidx := (slave.readU16 pdoAssign 0).getD 0
  if nidx > 0 then countTo (configPdo slave pdoAssign) nidx 65536 1 0 else some 0

/-! ## The mapped entries -/

def pdoEntries (slave : CoeSlave) (idx : UInt16) : List MappedEntry :=
  if idx > 0 then
    (List.range' 1 ((slave.readU8 idx 0).getD 0).toNat).map fun subidx =>
      .ofWord ((slave.readU32 idx (UInt8.ofNat subidx)).getD 0)
  else []

def mappedEntries (slave : CoeSlave) (pdoAssign : UInt16) : List MappedEntry :=
  (counters 1 ((slave.readU16 pdoAssign 0).getD 0).toNat).flatMap fun idxloop =>
    pdoEntries slave ((slave.readU16 pdoAssign idxloop.toUInt8).getD 0)

def bits (entries : List MappedEntry) : Nat := (entries.map fun entry => entry.bitlen.toNat).sum

/-- The call returns unless the 16-bit loop counter cannot exceed the count. -/
def Bounded (slave : CoeSlave) (pdoAssign : UInt16) : Prop :=
  slave.readU16 pdoAssign 0 ≠ some 65535

theorem AssignWalk.pdo_eq (slave : CoeSlave) (pdoAssign : UInt16) (mapoffset : Int)
    (walk : AssignWalk) (idxloop : UInt16) :
    walk.pdo slave pdoAssign mapoffset idxloop =
      (pdoEntries slave ((slave.readU16 pdoAssign idxloop.toUInt8).getD 0)).foldl
        (AssignWalk.print slave mapoffset) walk := by
  simp only [AssignWalk.pdo, pdoEntries]
  split
  · rw [List.foldl_map]
    rfl
  · rfl

theorem configEntry_eq (slave : CoeSlave) (idx : UInt16) (bsize subidxloop : Nat) :
    configEntry slave idx bsize subidxloop =
      bsize + (MappedEntry.ofWord
        ((slave.readU32 idx (UInt8.ofNat subidxloop)).getD 0)).bitlen.toNat := by
  simp only [configEntry, MappedEntry.ofWord]
  split
  · rfl
  · rename_i full
    have bound := ((slave.readU32 idx (UInt8.ofNat subidxloop)).getD 0).toUInt8.toNat_lt
    simp only [UInt8.lt_iff_toNat_lt, UInt8.reduceToNat] at full
    omega

theorem configPdo_eq (slave : CoeSlave) (pdoAssign : UInt16) (bsize : Nat) (idxloop : UInt16) :
    configPdo slave pdoAssign bsize idxloop =
      (pdoEntries slave ((slave.readU16 pdoAssign idxloop.toUInt8).getD 0)).foldl
        (fun sum entry => sum + entry.bitlen.toNat) bsize := by
  simp only [configPdo, pdoEntries]
  split
  · rw [List.foldl_map, upTo]
    congr
    funext sum subidx
    rw [configEntry_eq]
  · rfl

theorem Bounded.wrapless {slave : CoeSlave} {pdoAssign : UInt16}
    (bounded : Bounded slave pdoAssign) : (slave.readU16 pdoAssign 0).getD 0 ≠ 65535 := by
  cases count : slave.readU16 pdoAssign 0 with
  | none => simp
  | some nidx =>
      intro full
      exact bounded (count.trans (congrArg some full))

theorem countTo_entries {State : Type} (slave : CoeSlave) (pdoAssign : UInt16)
    (bounded : Bounded slave pdoAssign) (body : State → UInt16 → State)
    (add : State → MappedEntry → State)
    (follows : ∀ state idxloop, body state idxloop =
      (pdoEntries slave ((slave.readU16 pdoAssign idxloop.toUInt8).getD 0)).foldl add state)
    (state : State) :
    (if (slave.readU16 pdoAssign 0).getD 0 > 0 then
        countTo body ((slave.readU16 pdoAssign 0).getD 0) 65536 1 state
      else some state) =
      some ((mappedEntries slave pdoAssign).foldl add state) := by
  have same : body = fun state idxloop =>
      (pdoEntries slave ((slave.readU16 pdoAssign idxloop.toUInt8).getD 0)).foldl add state := by
    funext state idxloop
    exact follows state idxloop
  rw [countTo_whole body bounded.wrapless, mappedEntries, List.foldl_flatMap, same]

theorem ecxReadPdoAssign_eq {slave : CoeSlave} {pdoAssign : UInt16}
    (bounded : Bounded slave pdoAssign) :
    ecxReadPdoAssign slave pdoAssign = some (bits (mappedEntries slave pdoAssign)) := by
  have result := countTo_entries slave pdoAssign bounded (configPdo slave pdoAssign)
    (fun sum entry => sum + entry.bitlen.toNat) (configPdo_eq slave pdoAssign) 0
  rw [ecxReadPdoAssign, result, bits, List.sum_eq_foldl, List.foldl_map]

@[simp] theorem bits_cons (entry : MappedEntry) (entries : List MappedEntry) :
    bits (entry :: entries) = entry.bitlen.toNat + bits entries := by
  simp [bits]

/-- The rows of consecutive entries, the first one at `bitoffset`. -/
def mappedRows (slave : CoeSlave) (mapoffset : Int) : Int → List MappedEntry → List PdoRow
  | _, [] => []
  | bitoffset, entry :: rest =>
      mappedRow slave mapoffset bitoffset entry ::
        mappedRows slave mapoffset (bitoffset + entry.bitlen.toNat) rest

theorem foldl_print (slave : CoeSlave) (mapoffset : Int) (entries : List MappedEntry) :
    ∀ walk : AssignWalk, entries.foldl (AssignWalk.print slave mapoffset) walk =
      { bsize := walk.bsize + bits entries
        bitoffset := walk.bitoffset + bits entries
        printed := walk.printed ++ mappedRows slave mapoffset walk.bitoffset entries } := by
  induction entries with
  | nil =>
      intro walk
      simp [bits, mappedRows]
  | cons entry entries ih =>
      intro walk
      rw [List.foldl_cons, ih, bits_cons]
      simp only [AssignWalk.print, mappedRows, List.append_assoc, List.singleton_append,
        AssignWalk.mk.injEq, and_true]
      omega

theorem siPdoAssign_eq {slave : CoeSlave} {pdoAssign : UInt16}
    (bounded : Bounded slave pdoAssign) (mapoffset bitoffset : Int) :
    siPdoAssign slave pdoAssign mapoffset bitoffset =
      some { bsize := bits (mappedEntries slave pdoAssign)
             bitoffset := bitoffset + bits (mappedEntries slave pdoAssign)
             printed := mappedRows slave mapoffset bitoffset (mappedEntries slave pdoAssign) } := by
  have walked := countTo_entries slave pdoAssign bounded (AssignWalk.pdo slave pdoAssign mapoffset)
    (AssignWalk.print slave mapoffset) (AssignWalk.pdo_eq slave pdoAssign mapoffset)
    ⟨0, bitoffset, []⟩
  rw [siPdoAssign, walked, foldl_print, List.nil_append, Int.zero_add]

/-- Without the bound neither loop ends. -/
theorem siPdoAssign_eq_none {slave : CoeSlave} {pdoAssign : UInt16}
    (unbounded : ¬ Bounded slave pdoAssign) (mapoffset bitoffset : Int) :
    siPdoAssign slave pdoAssign mapoffset bitoffset = none := by
  have count : slave.readU16 pdoAssign 0 = some 65535 := by
    simpa [Bounded] using unbounded
  have positive : (65535 : UInt16) > 0 := by decide
  simp only [siPdoAssign, count, Option.getD_some, if_pos positive, countTo_endless]

end WebserverEthercat

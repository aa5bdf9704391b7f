import WebserverEthercat.Dump.SiiSection
import WebserverEthercat.Lib.Checked
import Mathlib.Algebra.Order.BigOperators.Group.List

/-!
# The tables and counters of the section walk

`si_siiPDO` once more, over the tables of `ec_eepromPDOt` at their sizes and over
`int`: an access outside of a table or an overflow ends it without a result.
-/

set_option autoImplicit false

namespace WebserverEthercat.Sii

open Checked

/-- `ec_eepromPDOt` -/
structure EepromPdoTables where
  startpos : UInt16
  length : UInt16
  nPDO : UInt16
  index : Vector UInt16 512
  syncM : Vector UInt16 512
  bitSize : Vector UInt16 512
  smBitSize : Vector UInt16 8

/-- The locals of `si_siiPDO`. -/
structure TableWalk where
  a : UInt16
  c : UInt16
  pdo : EepromPdoTables
  bitoffset : Int
  totalsize : Int
  printed : List SiiLine

namespace TableWalk

def entry (eeprom : Eeprom) (mapoffset : Int) (walk : TableWalk) : Option TableWalk := do
  let objIdx := eeprom.word walk.a
  let objSubidx := eeprom.siigetbyte (walk.a + 2)
  let objName := eeprom.siigetbyte (walk.a + 3)
  let objDatatype := eeprom.siigetbyte (walk.a + 4)
  let bitlen := eeprom.siigetbyte (walk.a + 5)
  let row : PdoRow :=
    { absOffset := mapoffset + walk.bitoffset.tdiv 8
      absBit := walk.bitoffset.tmod 8
      objIdx, objSubidx, bitlen
      description := some { dtype := objDatatype.toUInt16, name := name eeprom objName } }
  let size ← load walk.pdo.bitSize walk.pdo.nPDO
  let bitSize ← store walk.pdo.bitSize walk.pdo.nPDO (size + bitlen.toUInt16)
  let bitoffset ← addInt walk.bitoffset bitlen.toNat
  let totalsize ← addInt walk.totalsize bitlen.toNat
  some { walk with
    a := walk.a + 6 + 2
    c := walk.c + 4
    pdo := { walk.pdo with bitSize }
    printed := walk.printed ++ if objIdx ≠ 0 ∨ objSubidx ≠ 0 then [.row row] else []
    bitoffset, totalsize }

def header (eeprom : Eeprom) (walk : TableWalk) : Option TableWalk := do
  let number := walk.pdo.nPDO + 1
  let low ← store walk.pdo.index number (eeprom.siigetbyte walk.a).toUInt16
  let index ← store low number
    ((← load low number) + ((eeprom.siigetbyte (walk.a + 1)).toUInt16 <<< 8))
  let bitSize ← store walk.pdo.bitSize number 0
  let syncM ← store walk.pdo.syncM number (eeprom.siigetbyte (walk.a + 3)).toUInt16
  some { walk with
    a := walk.a + 5 + 1 + 2
    c := walk.c + 1 + 2
    pdo := { walk.pdo with nPDO := number, index, bitSize, syncM } }

def active (eeprom : Eeprom) (rxPdo : Bool) (mapoffset : Int) (title : List UInt8)
    (entries : UInt16) (walk : TableWalk) : Option TableWalk := do
  let syncM ← load walk.pdo.syncM walk.pdo.nPDO
  let index ← load walk.pdo.index walk.pdo.nPDO
  let read ← times (entry eeprom mapoffset) entries.toNat
    { walk with printed := walk.printed ++ [.heading syncM rxPdo index title] }
  let sm ← load read.pdo.syncM read.pdo.nPDO
  let smBitSize ← store read.pdo.smBitSize sm
    ((← load read.pdo.smBitSize sm) + (← load read.pdo.bitSize read.pdo.nPDO))
  some { read with c := read.c + 1, pdo := { read.pdo with smBitSize } }

def onePdo (eeprom : Eeprom) (rxPdo : Bool) (mapoffset : Int) (walk : TableWalk) :
    Option TableWalk := do
  let entries := (eeprom.siigetbyte (walk.a + 2)).toUInt16
  let objName := eeprom.siigetbyte (walk.a + 5)
  let opened ← header eeprom walk
  if (← load opened.pdo.syncM opened.pdo.nPDO) < ecMaxSM then
    active eeprom rxPdo mapoffset (name eeprom objName) entries opened
  else some { opened with c := opened.c + 4 * entries + 1, a := opened.a + 8 * entries }

def limited (walk : TableWalk) : TableWalk :=
  if walk.pdo.nPDO ≥ ecMaxEepDo - 1 then { walk with c := walk.pdo.length } else walk

def turn (eeprom : Eeprom) (rxPdo : Bool) (mapoffset : Int) (walk : TableWalk) :
    Option TableWalk := do
  some (← onePdo eeprom rxPdo mapoffset walk).limited

def again (walk : TableWalk) : Bool := walk.c < walk.pdo.length

end TableWalk

/-- What is done before the section is looked for. -/
def EepromPdoTables.cleared (memory : EepromPdoTables) (startpos : UInt16) :
    Option EepromPdoTables := do
  let index ← store memory.index 1 0
  let smBitSize ← (Loops.counters 0 ecMaxSM.toNat).foldlM (fun table sm => store table sm 0)
    memory.smBitSize
  some { memory with startpos, length := 0, nPDO := 0, index, smBitSize }

/-- The call, with a loop of at most `turns` turns. -/
def siSiiPdoTables (turns : Nat) (eeprom : Eeprom) (memory : EepromPdoTables) (t : UInt8)
    (mapoffset bitoffset : Int) : Option TableWalk := do
  let startpos := eeprom.pdoSection t
  let pdo ← memory.cleared startpos
  if startpos > 0 then
    Checked.doWhile (TableWalk.turn eeprom (direction t ≠ 0) mapoffset) TableWalk.again turns
      { a := startpos + 2, c := 1, pdo := { pdo with length := eeprom.word startpos }, bitoffset,
        totalsize := 0, printed := [] }
  else
    some { a := startpos, c := ecMaxSM, pdo, bitoffset, totalsize := 0, printed := [] }

/-! ## The two walks -/

/-- The walk over the tables is where the walk over functions is. -/
structure SameTables (tables : TableWalk) (walk : DumpWalk) : Prop where
  a : tables.a = walk.a
  c : tables.c = walk.c
  length : tables.pdo.length = walk.pdo.length
  nPDO : tables.pdo.nPDO = walk.pdo.nPDO
  bitoffset : tables.bitoffset = walk.bitoffset
  totalsize : tables.totalsize = walk.totalsize
  printed : tables.printed = walk.printed
  index : Holds tables.pdo.index walk.pdo.index
  syncM : Holds tables.pdo.syncM walk.pdo.syncM
  bitSize : Holds tables.pdo.bitSize walk.pdo.bitSize
  smBitSize : Holds tables.pdo.smBitSize walk.pdo.smBitSize

/-- The sums are `int`s, also with some more bits. -/
structure HasRoom (bits : Nat) (walk : DumpWalk) : Prop where
  bitoffset : intMin ≤ walk.bitoffset ∧ walk.bitoffset + bits ≤ intMax
  totalsize : intMin ≤ walk.totalsize ∧ walk.totalsize + bits ≤ intMax

theorem HasRoom.addInt {bits more : Nat} {walk : DumpWalk} (room : HasRoom bits walk)
    (few : more ≤ bits) :
    Checked.addInt walk.bitoffset more = some (walk.bitoffset + more) ∧
      Checked.addInt walk.totalsize more = some (walk.totalsize + more) := by
  obtain ⟨⟨_, _⟩, _, _⟩ := room
  constructor
  · exact if_pos (by omega)
  · exact if_pos (by omega)

theorem entry_simulates (eeprom : Eeprom) (mapoffset : Int) {tables : TableWalk} {walk : DumpWalk}
    (same : SameTables tables walk) (inside : walk.pdo.nPDO.toNat < 512)
    (room : HasRoom 255 walk) :
    ∃ next, tables.entry eeprom mapoffset = some next ∧
      SameTables next (walk.entry eeprom mapoffset) := by
  have small := (eeprom.siigetbyte (walk.a + 5)).toNat_lt
  obtain ⟨bitoffset, totalsize⟩ :=
    @HasRoom.addInt 255 (eeprom.siigetbyte (walk.a + 5)).toNat walk room (by omega)
  have loaded := same.bitSize walk.pdo.nPDO inside
  obtain ⟨bitSize, stored, holds⟩ := same.bitSize.store inside
    (walk.pdo.bitSize walk.pdo.nPDO + (eeprom.siigetbyte (walk.a + 5)).toUInt16)
  let after := walk.entry eeprom mapoffset
  refine ⟨{ after with pdo := { tables.pdo with bitSize } }, ?_,
    ⟨rfl, rfl, same.length, same.nPDO, rfl, rfl, rfl, same.index, same.syncM, holds,
      same.smBitSize⟩⟩
  simp only [TableWalk.entry, same.a, same.c, same.nPDO, same.bitoffset, same.totalsize,
    same.printed, loaded, stored, bitoffset, totalsize, Option.bind_eq_bind, Option.bind_some]
  rfl

theorem header_simulates (eeprom : Eeprom) {tables : TableWalk} {walk : DumpWalk}
    (same : SameTables tables walk) (inside : (walk.pdo.nPDO + 1).toNat < 512) :
    ∃ next, tables.header eeprom = some next ∧ SameTables next (walk.header eeprom) := by
  obtain ⟨low, storedLow, holdsLow⟩ := same.index.store inside (eeprom.siigetbyte walk.a).toUInt16
  have loadedLow : load low (walk.pdo.nPDO + 1) = some (eeprom.siigetbyte walk.a).toUInt16 := by
    simpa using holdsLow _ inside
  obtain ⟨index, storedIndex, holdsIndex⟩ := holdsLow.store inside (eeprom.word walk.a)
  obtain ⟨bitSize, storedSize, holdsSize⟩ := same.bitSize.store inside 0
  obtain ⟨syncM, storedSm, holdsSm⟩ := same.syncM.store inside
    (eeprom.siigetbyte (walk.a + 3)).toUInt16
  have overwritten : Holds index (assign walk.pdo.index (walk.pdo.nPDO + 1)
      (eeprom.word walk.a)) := by
    intro cell cellInside
    rw [holdsIndex cell cellInside, assign]
    by_cases here : cell = walk.pdo.nPDO + 1
    · simp [here]
    · simp [here]
  let after := walk.header eeprom
  refine ⟨{ after with pdo := { tables.pdo with nPDO := walk.pdo.nPDO + 1, index, bitSize, syncM } },
    ?_, ⟨rfl, rfl, same.length, rfl, rfl, rfl, rfl, overwritten, holdsSm, holdsSize,
      same.smBitSize⟩⟩
  simp only [TableWalk.header, same.a, same.c, same.nPDO, storedLow, loadedLow, storedSize, storedSm,
    Option.bind_eq_bind, Option.bind_some]
  rw [← Eeprom.word, storedIndex]
  simp [after, DumpWalk.header, same.bitoffset, same.totalsize, same.printed]

structure InEntries (opened : DumpWalk) (left : Nat) (tables : TableWalk) (walk : DumpWalk) :
    Prop where
  same : SameTables tables walk
  number : walk.pdo.nPDO = opened.pdo.nPDO
  syncM : walk.pdo.syncM = opened.pdo.syncM
  room : HasRoom (255 * left) walk

theorem inEntries_step (eeprom : Eeprom) (mapoffset : Int) {opened : DumpWalk}
    (inside : opened.pdo.nPDO.toNat < 512) (left : Nat) (tables : TableWalk) (walk : DumpWalk)
    (here : InEntries opened (left + 1) tables walk) :
    ∃ next, tables.entry eeprom mapoffset = some next ∧
      InEntries opened left next (walk.entry eeprom mapoffset) := by
  have small := (eeprom.siigetbyte (walk.a + 5)).toNat_lt
  obtain ⟨⟨_, _⟩, _, _⟩ := here.room
  obtain ⟨next, ran, same⟩ := entry_simulates eeprom mapoffset here.same (here.number ▸ inside)
    ⟨by omega, by omega⟩
  refine ⟨next, ran, same, here.number, here.syncM, ?_, ?_⟩
  · simp only [DumpWalk.entry]
    omega
  · simp only [DumpWalk.entry]
    omega

theorem active_simulates (eeprom : Eeprom) (rxPdo : Bool) (mapoffset : Int) (title : List UInt8)
    {count syncM : UInt16} {tables : TableWalk} {walk : DumpWalk} (same : SameTables tables walk)
    (inside : walk.pdo.nPDO.toNat < 512) (ofHeader : walk.pdo.syncM walk.pdo.nPDO = syncM)
    (inRange : syncM < ecMaxSM) (room : HasRoom (255 * count.toNat) walk) :
    ∃ next, tables.active eeprom rxPdo mapoffset title count = some next ∧
      SameTables next (walk.active eeprom rxPdo mapoffset title count syncM) := by
  have loadedSm : load tables.pdo.syncM walk.pdo.nPDO = some syncM :=
    ofHeader ▸ same.syncM walk.pdo.nPDO inside
  have loadedIndex := same.index walk.pdo.nPDO inside
  let heading := SiiLine.heading syncM rxPdo (walk.pdo.index walk.pdo.nPDO) title
  have start : InEntries walk count.toNat { tables with printed := tables.printed ++ [heading] }
      { walk with printed := walk.printed ++ [heading] } :=
    ⟨⟨same.a, same.c, same.length, same.nPDO, same.bitoffset, same.totalsize,
      congrArg (· ++ [heading]) same.printed, same.index, same.syncM, same.bitSize,
      same.smBitSize⟩, rfl, rfl, room.bitoffset, room.totalsize⟩
  obtain ⟨read, ran, done⟩ := times_simulates
    (inEntries_step eeprom mapoffset inside) count.toNat _ _ start
  have number : read.pdo.nPDO = walk.pdo.nPDO := done.same.nPDO.trans done.number
  have loadedSmAgain : load read.pdo.syncM walk.pdo.nPDO = some syncM := by
    rw [done.same.syncM walk.pdo.nPDO inside, done.syncM]
    exact congrArg some ofHeader
  have loadedSize := done.same.bitSize walk.pdo.nPDO inside
  have loadedSum := done.same.smBitSize syncM (UInt16.lt_iff_toNat_lt.mp inRange)
  obtain ⟨smBitSize, stored, holds⟩ := done.same.smBitSize.store
    (UInt16.lt_iff_toNat_lt.mp inRange) (_ + _)
  refine ⟨{ read with c := read.c + 1, pdo := { read.pdo with smBitSize } }, ?_, ?_⟩
  · simp only [TableWalk.active, same.nPDO, loadedSm, loadedIndex, Option.bind_eq_bind,
      Option.bind_some]
    rw [ran]
    simp only [Option.bind_some, number, loadedSmAgain, loadedSum, loadedSize]
    rw [stored]
    rfl
  · rw [← done.number] at holds
    exact ⟨done.same.a, congrArg (· + 1) done.same.c, done.same.length, done.same.nPDO,
      done.same.bitoffset, done.same.totalsize, done.same.printed, done.same.index,
      done.same.syncM, done.same.bitSize, holds⟩

theorem onePdo_simulates (eeprom : Eeprom) (rxPdo : Bool) (mapoffset : Int) {tables : TableWalk}
    {walk : DumpWalk} (same : SameTables tables walk) (inside : (walk.pdo.nPDO + 1).toNat < 512)
    (room : HasRoom (255 * 255) walk) :
    ∃ next, tables.onePdo eeprom rxPdo mapoffset = some next ∧
      SameTables next (walk.onePdo eeprom rxPdo mapoffset) := by
  obtain ⟨opened, ran, sameHeader⟩ := header_simulates eeprom same inside
  have ofHeader : (walk.header eeprom).pdo.syncM (walk.header eeprom).pdo.nPDO =
      (eeprom.siigetbyte (walk.a + 3)).toUInt16 := assign_same ..
  have loaded : load opened.pdo.syncM opened.pdo.nPDO =
      some (eeprom.siigetbyte (walk.a + 3)).toUInt16 := by
    rw [sameHeader.nPDO, ← ofHeader]
    exact sameHeader.syncM _ inside
  have small := (eeprom.siigetbyte (walk.a + 2)).toNat_lt
  have enough : HasRoom (255 * (eeprom.siigetbyte (walk.a + 2)).toUInt16.toNat)
      (walk.header eeprom) := by
    obtain ⟨⟨_, _⟩, _, _⟩ := room
    rw [UInt8.toNat_toUInt16]
    constructor
    · simp only [DumpWalk.header]
      omega
    · simp only [DumpWalk.header]
      omega
  simp only [TableWalk.onePdo, ran, loaded, same.a, Option.bind_eq_bind, Option.bind_some]
  rw [DumpWalk.onePdo]
  by_cases inRange : (eeprom.siigetbyte (walk.a + 3)).toUInt16 < ecMaxSM
  · simp only [inRange, if_true]
    exact active_simulates eeprom rxPdo mapoffset _ sameHeader inside ofHeader inRange enough
  · simp only [inRange, if_false]
    exact ⟨_, rfl, congrArg (· + 8 * _) sameHeader.a, congrArg (· + 4 * _ + 1) sameHeader.c,
      sameHeader.length, sameHeader.nPDO, sameHeader.bitoffset, sameHeader.totalsize,
      sameHeader.printed, sameHeader.index, sameHeader.syncM, sameHeader.bitSize,
      sameHeader.smBitSize⟩

theorem limited_same {tables : TableWalk} {walk : DumpWalk} (same : SameTables tables walk) :
    SameTables tables.limited walk.limited := by
  rw [TableWalk.limited, DumpWalk.limited, same.nPDO]
  split
  · exact ⟨same.a, same.length, same.length, same.nPDO, same.bitoffset, same.totalsize,
      same.printed, same.index, same.syncM, same.bitSize, same.smBitSize⟩
  · exact same

/-! ## The loop -/

/-- Behind the PDOs so far, room is left for the ones that can still come. -/
structure Within (left : Nat) (tables : TableWalk) (walk : DumpWalk) : Prop where
  same : SameTables tables walk
  number : walk.pdo.nPDO.toNat + left = 511
  room : HasRoom (255 * 255 * left) walk

/-- Behind a turn; another one follows only where a PDO can still come. -/
structure AfterTurn (left : Nat) (tables : TableWalk) (walk : DumpWalk) : Prop where
  within : Within left tables walk
  goesOn : walk.again = true → 0 < left

theorem bits_le (pdo : SiiPdo) : pdo.bits ≤ 255 * 255 := by
  have each : entryBits pdo.entries ≤ pdo.entries.length * 255 := by
    have bound := List.sum_le_card_nsmul (pdo.entries.map fun entry => entry.bitLength.toNat) 255
      (by
        intro bits member
        obtain ⟨entry, -, rfl⟩ := List.mem_map.mp member
        exact Nat.le_of_lt_succ entry.bitLength.toNat_lt)
    simpa [entryBits] using bound
  rw [SiiPdo.bits]
  split
  · exact each.trans (Nat.mul_le_mul_right 255 (Nat.le_of_lt_succ pdo.few))
  · exact Nat.zero_le _

theorem turn_within (eeprom : Eeprom) (rxPdo : Bool) (mapoffset : Int) (left : Nat)
    (tables : TableWalk) (walk : DumpWalk) (here : Within (left + 1) tables walk) :
    ∃ next, tables.turn eeprom rxPdo mapoffset = some next ∧
      AfterTurn left next (walk.turn eeprom rxPdo mapoffset) := by
  have took := onePdo_took eeprom rxPdo mapoffset walk
  have bits := bits_le (SiiPdo.read eeprom walk.a)
  have number := here.number
  have inside : (walk.pdo.nPDO + 1).toNat = walk.pdo.nPDO.toNat + 1 := by
    rw [UInt16.toNat_add, UInt16.toNat_one]
    exact Nat.mod_eq_of_lt (by omega)
  obtain ⟨⟨_, _⟩, _, _⟩ := here.room
  obtain ⟨next, ran, same⟩ := onePdo_simulates eeprom rxPdo mapoffset here.same (by omega)
    ⟨by omega, by omega⟩
  have limited := limited_same same
  have kept : (walk.turn eeprom rxPdo mapoffset).pdo = (walk.onePdo eeprom rxPdo mapoffset).pdo ∧
      (walk.turn eeprom rxPdo mapoffset).bitoffset =
        (walk.onePdo eeprom rxPdo mapoffset).bitoffset ∧
      (walk.turn eeprom rxPdo mapoffset).totalsize =
        (walk.onePdo eeprom rxPdo mapoffset).totalsize := by
    rw [DumpWalk.turn, DumpWalk.limited]
    split
    · exact ⟨rfl, rfl, rfl⟩
    · exact ⟨rfl, rfl, rfl⟩
  have count : (walk.onePdo eeprom rxPdo mapoffset).pdo.nPDO.toNat + left = 511 := by
    rw [took.number, inside]
    omega
  refine ⟨next.limited, by simp [TableWalk.turn, ran], ⟨limited, kept.1 ▸ count, ?_, ?_⟩,
    fun more => ?_⟩
  · rw [kept.2.1, took.bitoffset]
    omega
  · rw [kept.2.2, took.totalsize]
    omega
  · have small := UInt16.lt_iff_toNat_lt.mp (DumpWalk.again_limited more).2
    have limit : (ecMaxEepDo - 1).toNat = 511 := rfl
    omega

theorem SameTables.again {tables : TableWalk} {walk : DumpWalk} (same : SameTables tables walk) :
    tables.again = walk.again := by
  rw [TableWalk.again, DumpWalk.again, same.c, same.length]

/-! ## The call -/

def EepromPdoTables.values (memory : EepromPdoTables) : EepromPdo where
  startpos := memory.startpos
  length := memory.length
  nPDO := memory.nPDO
  index cell := (load memory.index cell).getD 0
  syncM cell := (load memory.syncM cell).getD 0
  bitSize cell := (load memory.bitSize cell).getD 0
  smBitSize cell := (load memory.smBitSize cell).getD 0

theorem holds_values {size : Nat} (table : Vector UInt16 size) :
    Holds table fun cell => (load table cell).getD 0 := by
  intro cell inside
  have loaded : load table cell = some table[cell.toNat] := Vector.getElem?_eq_getElem inside
  simp only [loaded, Option.getD_some]

theorem mem_syncManagers (sm : UInt16) : sm ∈ Loops.counters 0 ecMaxSM.toNat ↔ sm < ecMaxSM := by
  have eight : ecMaxSM.toNat = 8 := rfl
  rw [Loops.mem_counters (by omega), UInt16.lt_iff_toNat_lt]
  omega

theorem cleared_same (memory : EepromPdoTables) (startpos : UInt16) :
    ∃ cleared, memory.cleared startpos = some cleared ∧ cleared.length = 0 ∧ cleared.nPDO = 0 ∧
      Holds cleared.index (memory.values.cleared startpos).index ∧
      Holds cleared.syncM (memory.values.cleared startpos).syncM ∧
      Holds cleared.bitSize (memory.values.cleared startpos).bitSize ∧
      Holds cleared.smBitSize (memory.values.cleared startpos).smBitSize := by
  obtain ⟨index, stored, holds⟩ := (holds_values memory.index).store
    (show (1 : UInt16).toNat < 512 by decide) 0
  have inside : ∀ sm ∈ Loops.counters 0 ecMaxSM.toNat, sm.toNat < 8 :=
    fun sm member => UInt16.lt_iff_toNat_lt.mp ((mem_syncManagers sm).mp member)
  obtain ⟨smBitSize, filled, holdsFilled⟩ :=
    (holds_values memory.smBitSize).fill 0 (Loops.counters 0 ecMaxSM.toNat) inside
  simp only [mem_syncManagers] at holdsFilled
  refine ⟨{ memory with startpos, length := 0, nPDO := 0, index, smBitSize }, ?_, rfl, rfl, holds,
    holds_values memory.syncM, holds_values memory.bitSize, holdsFilled⟩
  simp only [EepromPdoTables.cleared, stored, Option.bind_eq_bind, Option.bind_some]
  rw [filled]
  rfl

/-- `si_siiPDO`, which is called with the bit offset 0, ends on any EEPROM, after at most
`EC_MAXEEPDO - 1` PDOs, without an access outside of its tables and without an overflow of the
bit sums. -/
theorem ends_within_tables (eeprom : Eeprom) (memory : EepromPdoTables) (t : UInt8)
    (mapoffset bitoffset : Int) (low : intMin ≤ bitoffset)
    (high : bitoffset + 255 * 255 * (ecMaxEepDo - 1).toNat ≤ intMax) :
    ∃ walk dump,
      siSiiPdoTables (ecMaxEepDo - 1).toNat eeprom memory t mapoffset bitoffset = some walk ∧
      siSiiPdo eeprom memory.values t mapoffset bitoffset = some dump ∧ SameTables walk dump ∧
      walk.pdo.nPDO ≤ ecMaxEepDo - 1 := by
  obtain ⟨cleared, ran, length, nPDO, index, syncM, bitSize, smBitSize⟩ :=
    cleared_same memory (eeprom.pdoSection t)
  have limit : (ecMaxEepDo - 1).toNat = 511 := rfl
  have emptyRoom : intMin ≤ 0 ∧ (0 : Int) + 255 * 255 * 511 ≤ intMax := by decide
  simp only [siSiiPdoTables, siSiiPdo, ran, Option.bind_eq_bind, Option.bind_some]
  by_cases found : eeprom.pdoSection t > 0
  · simp only [found, if_true]
    have start : Within 511
        { a := eeprom.pdoSection t + 2, c := 1,
          pdo := { cleared with length := eeprom.word (eeprom.pdoSection t) }, bitoffset,
          totalsize := 0, printed := [] }
        { a := eeprom.pdoSection t + 2, c := 1,
          pdo := memory.values.opened eeprom (eeprom.pdoSection t), bitoffset, totalsize := 0,
          printed := [], headers := [] } :=
      ⟨⟨rfl, rfl, rfl, nPDO, rfl, rfl, rfl, index, syncM, bitSize, smBitSize⟩, rfl,
        ⟨low, high⟩, emptyRoom⟩
    obtain ⟨left, walk, dump, ends, dumpEnds, after⟩ := Checked.doWhile_simulates
      (turn_within eeprom (direction t ≠ 0) mapoffset) (fun _ _ _ after => after.within.same.again)
      (fun _ _ _ after more => ⟨after.goesOn (after.within.same.again ▸ more), after.within⟩)
      510 _ _ start
    have number := after.within.number
    refine ⟨walk, dump, ends, Loops.doWhile_mono (by decide) dumpEnds, after.within.same, ?_⟩
    rw [UInt16.le_iff_toNat_le, after.within.same.nPDO]
    omega
  · simp only [found, if_false]
    exact ⟨_, _, rfl, rfl, ⟨rfl, rfl, length, nPDO, rfl, rfl, rfl, index, syncM, bitSize,
      smBitSize⟩, nPDO ▸ by decide⟩

/-- An EEPROM of 0xff, in which the length field is 65535 and every PDO has 255 entries. -/
def Eeprom.erased : Eeprom := ⟨fun _ => 0xff, fun _ => 130, fun _ => []⟩

def EepromPdoTables.zero : EepromPdoTables :=
  ⟨0, 0, 0, Vector.replicate 512 0, Vector.replicate 512 0, Vector.replicate 512 0,
    Vector.replicate 8 0⟩

theorem erased_ends_within_tables :
    ∃ walk dump, siSiiPdoTables (ecMaxEepDo - 1).toNat .erased .zero 0 0 0 = some walk ∧
      siSiiPdo .erased EepromPdoTables.zero.values 0 0 0 = some dump ∧ SameTables walk dump ∧
      walk.pdo.nPDO ≤ ecMaxEepDo - 1 :=
  ends_within_tables .erased .zero 0 0 0 (by decide) (by decide)

end WebserverEthercat.Sii

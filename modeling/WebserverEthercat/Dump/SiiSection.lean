import WebserverEthercat.Dump.SiiRefinement

/-!
# The descriptors in a PDO section

What one turn of `si_siiPDO` does is said once, in terms of the PDO that stands
at its address: whatever the EEPROM holds, eight bytes of header are followed by
as many entries of eight bytes as the header says.
-/

set_option autoImplicit false

namespace WebserverEthercat.Sii

open Loops

structure SiiEntry where
  index : UInt16
  subindex : UInt8
  name : UInt8
  dataType : UInt8
  bitLength : UInt8
  flags : UInt16
deriving DecidableEq, Repr

structure SiiPdo where
  index : UInt16
  syncM : UInt8
  synchronisation : UInt8
  name : UInt8
  flags : UInt16
  entries : List SiiEntry
  few : entries.length < 256
deriving DecidableEq, Repr

/-- A filler (0x0000:0x00) is not printed. -/
def SiiEntry.filler (entry : SiiEntry) : Bool := entry.index = 0 ∧ entry.subindex = 0

def SiiEntry.row (eeprom : Eeprom) (mapoffset position : Int) (entry : SiiEntry) : PdoRow :=
  { absOffset := mapoffset + position.tdiv 8
    absBit := position.tmod 8
    objIdx := entry.index
    objSubidx := entry.subindex
    bitlen := entry.bitLength
    description := some
      { dtype := entry.dataType.toUInt16, name := Sii.name eeprom entry.name } }

def entryBits (entries : List SiiEntry) : Nat :=
  (entries.map fun entry => entry.bitLength.toNat).sum

/-- The rows of entries, the first of which is at `position`. -/
def entryLines (eeprom : Eeprom) (mapoffset : Int) : Int → List SiiEntry → List SiiLine
  | _, [] => []
  | position, entry :: rest =>
      (if entry.filler then [] else [.row (entry.row eeprom mapoffset position)]) ++
        entryLines eeprom mapoffset (position + entry.bitLength.toNat) rest

namespace SiiPdo

/-- Its sync manager is one of the `EC_MAXSM`. -/
def active (pdo : SiiPdo) : Bool := pdo.syncM < 8

def bits (pdo : SiiPdo) : Nat := if pdo.active then entryBits pdo.entries else 0

def words (pdo : SiiPdo) : Nat := 4 + 4 * pdo.entries.length

def lines (eeprom : Eeprom) (rxPdo : Bool) (mapoffset position : Int) (pdo : SiiPdo) :
    List SiiLine :=
  if pdo.active then
    .heading pdo.syncM.toUInt16 rxPdo pdo.index (Sii.name eeprom pdo.name) ::
      entryLines eeprom mapoffset position pdo.entries
  else []

def header (address : UInt16) (pdo : SiiPdo) : SiiPdoHeader :=
  { address
    index := pdo.index
    entries := UInt16.ofNat pdo.entries.length
    syncM := pdo.syncM.toUInt16 }

end SiiPdo

/-! ## What stands at an address -/

def SiiEntry.read (eeprom : Eeprom) (a : UInt16) : SiiEntry :=
  { index := eeprom.word a
    subindex := eeprom.siigetbyte (a + 2)
    name := eeprom.siigetbyte (a + 3)
    dataType := eeprom.siigetbyte (a + 4)
    bitLength := eeprom.siigetbyte (a + 5)
    flags := eeprom.word (a + 6) }

def readEntries (eeprom : Eeprom) : Nat → UInt16 → List SiiEntry
  | 0, _ => []
  | count + 1, a => .read eeprom a :: readEntries eeprom count (a + 8)

@[simp] theorem length_readEntries (eeprom : Eeprom) (count : Nat) :
    ∀ a, (readEntries eeprom count a).length = count := by
  induction count with
  | zero => exact fun _ => rfl
  | succ count ih =>
      intro a
      rw [readEntries, List.length_cons, ih]

def SiiPdo.read (eeprom : Eeprom) (a : UInt16) : SiiPdo where
  index := eeprom.word a
  syncM := eeprom.siigetbyte (a + 3)
  synchronisation := eeprom.siigetbyte (a + 4)
  name := eeprom.siigetbyte (a + 5)
  flags := eeprom.word (a + 6)
  entries := readEntries eeprom (eeprom.siigetbyte (a + 2)).toNat (a + 8)
  few := by
    rw [length_readEntries]
    exact (eeprom.siigetbyte (a + 2)).toNat_lt

/-! ## The entries of an active PDO -/

structure TookEntries (eeprom : Eeprom) (mapoffset : Int) (entries : List SiiEntry)
    (walk next : DumpWalk) : Prop where
  address : next.a = walk.a + UInt16.ofNat (8 * entries.length)
  counter : next.c = walk.c + UInt16.ofNat (4 * entries.length)
  length : next.pdo.length = walk.pdo.length
  number : next.pdo.nPDO = walk.pdo.nPDO
  smBitSize : next.pdo.smBitSize = walk.pdo.smBitSize
  bitSize : next.pdo.bitSize walk.pdo.nPDO =
    walk.pdo.bitSize walk.pdo.nPDO + UInt16.ofNat (entryBits entries)
  bitoffset : next.bitoffset = walk.bitoffset + entryBits entries
  totalsize : next.totalsize = walk.totalsize + entryBits entries
  printed : next.printed = walk.printed ++ entryLines eeprom mapoffset walk.bitoffset entries
  headers : next.headers = walk.headers

theorem entry_took (eeprom : Eeprom) (mapoffset : Int) (walk : DumpWalk) :
    TookEntries eeprom mapoffset [.read eeprom walk.a] walk (walk.entry eeprom mapoffset) := by
  have single (entry : SiiEntry) : entryBits [entry] = entry.bitLength.toNat := by
    simp [entryBits]
  constructor
  case address => simp only [DumpWalk.entry, List.length_singleton, UInt16.add_assoc]; rfl
  case counter => rfl
  case length => rfl
  case number => rfl
  case smBitSize => rfl
  case bitSize =>
    simp only [DumpWalk.entry, assign_same, single]
    simp [SiiEntry.read]
  case bitoffset => simp only [DumpWalk.entry, single]; rfl
  case totalsize => simp only [DumpWalk.entry, single]; rfl
  case printed =>
    simp only [DumpWalk.entry, entryLines, SiiEntry.filler, SiiEntry.read, SiiEntry.row,
      List.append_nil]
    congr 1
    by_cases filler : eeprom.word walk.a = 0 ∧ eeprom.siigetbyte (walk.a + 2) = 0
    · simp [filler]
    · have printed : eeprom.word walk.a ≠ 0 ∨ eeprom.siigetbyte (walk.a + 2) ≠ 0 := by
        by_cases index : eeprom.word walk.a = 0
        · exact .inr fun subindex => filler ⟨index, subindex⟩
        · exact .inl index
      rw [if_pos printed]
      simp [filler]
  case headers => rfl

theorem TookEntries.cons {eeprom : Eeprom} {mapoffset : Int} {entry : SiiEntry}
    {entries : List SiiEntry} {walk between next : DumpWalk}
    (first : TookEntries eeprom mapoffset [entry] walk between)
    (rest : TookEntries eeprom mapoffset entries between next) :
    TookEntries eeprom mapoffset (entry :: entries) walk next := by
  have total : entryBits (entry :: entries) = entryBits [entry] + entryBits entries := by
    simp [entryBits]
  have count (width : Nat) : width * (entry :: entries).length =
      width * [entry].length + width * entries.length := by
    rw [← Nat.mul_add, List.length_cons, List.length_singleton, Nat.add_comm 1]
  constructor
  case address =>
    rw [rest.address, first.address, UInt16.add_assoc, ← UInt16.ofNat_add, count]
  case counter =>
    rw [rest.counter, first.counter, UInt16.add_assoc, ← UInt16.ofNat_add, count]
  case length => exact rest.length.trans first.length
  case number => exact rest.number.trans first.number
  case smBitSize => exact rest.smBitSize.trans first.smBitSize
  case bitSize =>
    have bits := rest.bitSize
    rw [first.number] at bits
    rw [bits, first.bitSize, UInt16.add_assoc, ← UInt16.ofNat_add, total]
  case bitoffset =>
    rw [rest.bitoffset, first.bitoffset, total]
    omega
  case totalsize =>
    rw [rest.totalsize, first.totalsize, total]
    omega
  case printed =>
    have bits : entryBits [entry] = entry.bitLength.toNat := by simp [entryBits]
    rw [rest.printed, first.printed, first.bitoffset, bits]
    simp [entryLines]
  case headers => exact rest.headers.trans first.headers

theorem entries_took (eeprom : Eeprom) (mapoffset : Int) (count : Nat) :
    ∀ walk : DumpWalk, TookEntries eeprom mapoffset (readEntries eeprom count walk.a) walk
      ((DumpWalk.entry eeprom mapoffset)^[count] walk) := by
  induction count with
  | zero =>
      intro walk
      constructor <;> simp [readEntries, entryBits, entryLines]
  | succ count ih =>
      intro walk
      have first := entry_took eeprom mapoffset walk
      have rest := ih (walk.entry eeprom mapoffset)
      have address : (walk.entry eeprom mapoffset).a = walk.a + 8 := by
        rw [first.address]
        rfl
      rw [address] at rest
      exact first.cons rest

/-! ## One PDO -/

structure TookPdo (eeprom : Eeprom) (rxPdo : Bool) (mapoffset : Int) (pdo : SiiPdo)
    (walk next : DumpWalk) : Prop where
  address : next.a = walk.a + UInt16.ofNat (2 * pdo.words)
  counter : next.c = walk.c + UInt16.ofNat pdo.words
  length : next.pdo.length = walk.pdo.length
  number : next.pdo.nPDO = walk.pdo.nPDO + 1
  smBitSize : ∀ sm, next.pdo.smBitSize sm = walk.pdo.smBitSize sm +
    if sm = pdo.syncM.toUInt16 then UInt16.ofNat pdo.bits else 0
  bitoffset : next.bitoffset = walk.bitoffset + pdo.bits
  totalsize : next.totalsize = walk.totalsize + pdo.bits
  printed : next.printed = walk.printed ++ pdo.lines eeprom rxPdo mapoffset walk.bitoffset
  headers : next.headers = walk.headers ++ [pdo.header walk.a]

theorem active_iff (pdo : SiiPdo) : pdo.active = true ↔ pdo.syncM.toUInt16 < ecMaxSM := by
  simp [SiiPdo.active, ecMaxSM, UInt16.lt_iff_toNat_lt, UInt8.lt_iff_toNat_lt]

theorem header_address (eeprom : Eeprom) (walk : DumpWalk) :
    (walk.header eeprom).a = walk.a + 8 := by
  simp only [DumpWalk.header, UInt16.add_assoc]
  rfl

theorem header_counter (eeprom : Eeprom) (walk : DumpWalk) :
    (walk.header eeprom).c = walk.c + 3 := by
  simp only [DumpWalk.header, UInt16.add_assoc]
  rfl

theorem ofNat_words (count : Nat) :
    UInt16.ofNat (4 + 4 * count) = 3 + UInt16.ofNat (4 * count) + 1 ∧
      UInt16.ofNat (2 * (4 + 4 * count)) = 8 + UInt16.ofNat (8 * count) := by
  constructor
  · have split : 4 + 4 * count = 3 + 4 * count + 1 := by omega
    rw [split, UInt16.ofNat_add, UInt16.ofNat_add]
    rfl
  · have split : 2 * (4 + 4 * count) = 8 + 8 * count := by omega
    rw [split, UInt16.ofNat_add]
    rfl

/-- The heading, the entries and the sum of an active PDO whose header has been read. -/
theorem active_effect (eeprom : Eeprom) (rxPdo : Bool) (mapoffset : Int) (title : List UInt8)
    (count : UInt8) (syncM : UInt16) (opened : DumpWalk)
    (empty : opened.pdo.bitSize opened.pdo.nPDO = 0) :
    let entries := readEntries eeprom count.toNat opened.a
    let next := opened.active eeprom rxPdo mapoffset title count.toUInt16 syncM
    next.a = opened.a + UInt16.ofNat (8 * entries.length) ∧
      next.c = opened.c + UInt16.ofNat (4 * entries.length) + 1 ∧
      next.pdo.length = opened.pdo.length ∧ next.pdo.nPDO = opened.pdo.nPDO ∧
      (∀ sm, next.pdo.smBitSize sm = opened.pdo.smBitSize sm +
        if sm = syncM then UInt16.ofNat (entryBits entries) else 0) ∧
      next.bitoffset = opened.bitoffset + entryBits entries ∧
      next.totalsize = opened.totalsize + entryBits entries ∧
      next.printed = opened.printed ++
        .heading syncM rxPdo (opened.pdo.index opened.pdo.nPDO) title ::
          entryLines eeprom mapoffset opened.bitoffset entries ∧
      next.headers = opened.headers := by
  intro entries next
  have read := entries_took eeprom mapoffset count.toNat
    { opened with printed := opened.printed ++
        [.heading syncM rxPdo (opened.pdo.index opened.pdo.nPDO) title] }
  have spelled : next = opened.active eeprom rxPdo mapoffset title count.toUInt16 syncM := rfl
  rw [DumpWalk.active, UInt8.toNat_toUInt16] at spelled
  clear_value next
  dsimp only at spelled read
  generalize (DumpWalk.entry eeprom mapoffset)^[count.toNat] _ = after at read spelled
  subst spelled
  refine ⟨read.address, ?_, read.length, read.number, fun sm => ?_, read.bitoffset, read.totalsize,
    ?_, read.headers⟩
  · exact congrArg (· + 1) read.counter
  · have number := read.number
    have sum := read.bitSize
    dsimp only at number sum ⊢
    rw [number, sum, empty, UInt16.zero_add, read.smBitSize]
    by_cases same : sm = syncM
    · simp [assign, same, entries]
    · simp [assign, same]
  · have printed := read.printed
    dsimp only at printed ⊢
    rw [printed, List.append_assoc]
    rfl

theorem active_took (eeprom : Eeprom) (rxPdo : Bool) (mapoffset : Int) {walk : DumpWalk}
    (active : (SiiPdo.read eeprom walk.a).active = true) :
    TookPdo eeprom rxPdo mapoffset (.read eeprom walk.a) walk
      ((walk.header eeprom).active eeprom rxPdo mapoffset
        (name eeprom (eeprom.siigetbyte (walk.a + 5))) (eeprom.siigetbyte (walk.a + 2)).toUInt16
        (eeprom.siigetbyte (walk.a + 3)).toUInt16) := by
  have index : (walk.header eeprom).pdo.index (walk.header eeprom).pdo.nPDO =
      eeprom.word walk.a := assign_same ..
  obtain ⟨address, counter, length, number, smBitSize, bitoffset, totalsize, printed, headers⟩ :=
    active_effect eeprom rxPdo mapoffset (name eeprom (eeprom.siigetbyte (walk.a + 5)))
      (eeprom.siigetbyte (walk.a + 2)) (eeprom.siigetbyte (walk.a + 3)).toUInt16
      (walk.header eeprom) (assign_same ..)
  have entries : readEntries eeprom (eeprom.siigetbyte (walk.a + 2)).toNat (walk.header eeprom).a =
      (SiiPdo.read eeprom walk.a).entries := by
    rw [header_address]
    rfl
  have bits : (SiiPdo.read eeprom walk.a).bits = entryBits (SiiPdo.read eeprom walk.a).entries :=
    if_pos active
  have size := ofNat_words (SiiPdo.read eeprom walk.a).entries.length
  rw [entries] at address counter smBitSize bitoffset totalsize printed
  constructor
  case address => rw [address, header_address, SiiPdo.words, size.2, UInt16.add_assoc]
  case counter =>
    rw [counter, header_counter, SiiPdo.words, size.1, UInt16.add_assoc, UInt16.add_assoc,
      UInt16.add_assoc]
  case length => exact length
  case number => exact number
  case smBitSize =>
    intro sm
    rw [smBitSize, bits]
    rfl
  case bitoffset =>
    rw [bitoffset, bits]
    rfl
  case totalsize =>
    rw [totalsize, bits]
    rfl
  case printed =>
    rw [printed, index, SiiPdo.lines, if_pos active]
    rfl
  case headers =>
    rw [headers, DumpWalk.header, SiiPdo.header]
    simp [SiiPdo.read]

theorem deactivated_took (eeprom : Eeprom) (rxPdo : Bool) (mapoffset : Int) {walk : DumpWalk}
    (deactivated : (SiiPdo.read eeprom walk.a).active = false) :
    TookPdo eeprom rxPdo mapoffset (.read eeprom walk.a) walk
      { walk.header eeprom with
        c := (walk.header eeprom).c + 4 * (eeprom.siigetbyte (walk.a + 2)).toUInt16 + 1
        a := (walk.header eeprom).a + 8 * (eeprom.siigetbyte (walk.a + 2)).toUInt16 } := by
  have count : (SiiPdo.read eeprom walk.a).entries.length =
      (eeprom.siigetbyte (walk.a + 2)).toNat := length_readEntries ..
  have bits : (SiiPdo.read eeprom walk.a).bits = 0 := if_neg (by simp [deactivated])
  have size := ofNat_words (eeprom.siigetbyte (walk.a + 2)).toNat
  have entries : UInt16.ofNat (eeprom.siigetbyte (walk.a + 2)).toNat =
      (eeprom.siigetbyte (walk.a + 2)).toUInt16 := by
    rw [← UInt16.toNat_inj]
    simp
  have times (width : Nat) : UInt16.ofNat (width * (eeprom.siigetbyte (walk.a + 2)).toNat) =
      UInt16.ofNat width * (eeprom.siigetbyte (walk.a + 2)).toUInt16 := by
    rw [UInt16.ofNat_mul, entries]
  rw [times 4, times 8] at size
  constructor
  case address =>
    rw [SiiPdo.words, count, size.2, header_address, UInt16.add_assoc]
    rfl
  case counter =>
    rw [SiiPdo.words, count, size.1, header_counter, UInt16.add_assoc, UInt16.add_assoc,
      UInt16.add_assoc]
    rfl
  case length => rfl
  case number => rfl
  case smBitSize => simp [bits, DumpWalk.header]
  case bitoffset => simp [bits, DumpWalk.header]
  case totalsize => simp [bits, DumpWalk.header]
  case printed => simp [SiiPdo.lines, deactivated, DumpWalk.header]
  case headers =>
    simp only [DumpWalk.header, SiiPdo.header, count, entries]
    rfl

theorem onePdo_took (eeprom : Eeprom) (rxPdo : Bool) (mapoffset : Int) (walk : DumpWalk) :
    TookPdo eeprom rxPdo mapoffset (.read eeprom walk.a) walk
      (walk.onePdo eeprom rxPdo mapoffset) := by
  have inRange := active_iff (SiiPdo.read eeprom walk.a)
  rw [DumpWalk.onePdo]
  cases active : (SiiPdo.read eeprom walk.a).active with
  | true =>
      have small : (eeprom.siigetbyte (walk.a + 3)).toUInt16 < ecMaxSM := inRange.mp active
      rw [if_pos small]
      exact active_took eeprom rxPdo mapoffset active
  | false =>
      have large : ¬ (eeprom.siigetbyte (walk.a + 3)).toUInt16 < ecMaxSM := fun small => by
        rw [inRange.mpr small] at active
        cases active
      rw [if_neg large]
      exact deactivated_took eeprom rxPdo mapoffset active

/-! ## Where the walk stands -/

/-- The walk stands at a PDO, with `done` words of the section behind it and room for `room` more
PDOs behind this one. -/
structure StandsAt (startpos length : UInt16) (room done : Nat) (walk : DumpWalk) : Prop where
  few : room < 511
  sameLength : walk.pdo.length = length
  number : walk.pdo.nPDO = UInt16.ofNat (510 - room)
  address : walk.a = UInt16.ofNat (startpos.toNat + 2 + 2 * done)
  counter : walk.c = UInt16.ofNat (1 + done)

theorem StandsAt.opened (eeprom : Eeprom) (memory : EepromPdo) (startpos : UInt16)
    (bitoffset : Int) :
    StandsAt startpos (eeprom.word startpos) 510 0
      { a := startpos + 2, c := 1, pdo := memory.opened eeprom startpos, bitoffset,
        totalsize := 0, printed := [], headers := [] } where
  few := by omega
  sameLength := rfl
  number := rfl
  address := by
    rw [UInt16.ofNat_add, UInt16.ofNat_add, UInt16.ofNat_toNat, UInt16.add_assoc]
    rfl
  counter := rfl

variable (eeprom : Eeprom) (rxPdo : Bool) (mapoffset : Int)
variable {startpos length : UInt16} {room done : Nat} {walk : DumpWalk}

theorem StandsAt.full_iff (stands : StandsAt startpos length room done walk) :
    (walk.onePdo eeprom rxPdo mapoffset).pdo.nPDO ≥ ecMaxEepDo - 1 ↔ room = 0 := by
  have few := stands.few
  have next : (walk.onePdo eeprom rxPdo mapoffset).pdo.nPDO = UInt16.ofNat (511 - room) := by
    have split : 511 - room = 510 - room + 1 := by omega
    rw [(onePdo_took eeprom rxPdo mapoffset walk).number, stands.number, split, UInt16.ofNat_add]
    rfl
  have limit : (ecMaxEepDo - 1).toNat = 511 := rfl
  rw [next, ge_iff_le, UInt16.le_iff_toNat_le, UInt16.toNat_ofNat', limit]
  omega

/-- While the counter has not wrapped around, the loop goes on when there is room and two words of
the section are left. -/
theorem StandsAt.again_iff (stands : StandsAt startpos length room done walk)
    (unwrapped : 1 + done + (SiiPdo.read eeprom walk.a).words < 65536) :
    (walk.turn eeprom rxPdo mapoffset).again = true ↔
      room ≠ 0 ∧ done + (SiiPdo.read eeprom walk.a).words + 2 ≤ length.toNat := by
  have took := onePdo_took eeprom rxPdo mapoffset walk
  have full := stands.full_iff eeprom rxPdo mapoffset
  have next : (walk.onePdo eeprom rxPdo mapoffset).c.toNat =
      1 + done + (SiiPdo.read eeprom walk.a).words := by
    rw [took.counter, stands.counter, ← UInt16.ofNat_add, UInt16.toNat_ofNat_of_lt' unwrapped]
  rw [DumpWalk.turn, DumpWalk.limited]
  by_cases last : room = 0
  · rw [if_pos (full.mpr last), DumpWalk.again]
    simp [last]
  · rw [if_neg (fun reached => last (full.mp reached)), DumpWalk.again, decide_eq_true_eq,
      UInt16.lt_iff_toNat_lt, next, took.length, stands.sameLength]
    omega

theorem StandsAt.turn_eq (stands : StandsAt startpos length (room + 1) done walk) :
    walk.turn eeprom rxPdo mapoffset = walk.onePdo eeprom rxPdo mapoffset := by
  have full := stands.full_iff eeprom rxPdo mapoffset
  rw [DumpWalk.turn, DumpWalk.limited, if_neg fun reached => Nat.succ_ne_zero _ (full.mp reached)]

theorem StandsAt.next (stands : StandsAt startpos length (room + 1) done walk) :
    StandsAt startpos length room (done + (SiiPdo.read eeprom walk.a).words)
      (walk.turn eeprom rxPdo mapoffset) := by
  have few := stands.few
  have took := onePdo_took eeprom rxPdo mapoffset walk
  rw [stands.turn_eq eeprom rxPdo mapoffset]
  constructor
  case few => omega
  case sameLength => exact took.length.trans stands.sameLength
  case number =>
    have split : 510 - room = 510 - (room + 1) + 1 := by omega
    rw [took.number, stands.number, split, UInt16.ofNat_add]
    rfl
  case address =>
    rw [took.address, stands.address, ← UInt16.ofNat_add, Nat.mul_add, ← Nat.add_assoc]
  case counter => rw [took.counter, stands.counter, ← UInt16.ofNat_add, Nat.add_assoc]

end WebserverEthercat.Sii

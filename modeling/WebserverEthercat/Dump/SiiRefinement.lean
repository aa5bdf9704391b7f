import WebserverEthercat.Dump.Sii

/-!
# The dump of the PDO section refines the configurator

The two walks differ in the order of their reads and in where they add up the
bits.  Turn by turn they stand at the same place with the same tables, so they
end together.
-/

set_option autoImplicit false

namespace WebserverEthercat.Sii

open Loops

/-- The two walks stand at the same place: their tables agree on the given
cells, and the bits that `ecx_siiPDO` has still to add to its total are `pending`. -/
structure Agrees (cells : UInt16 → Prop) (pending : UInt16) (dump : DumpWalk)
    (config : ConfigWalk) : Prop where
  address : dump.a = config.a
  counter : dump.c = config.c
  length : dump.pdo.length = config.pdo.length
  number : dump.pdo.nPDO = config.pdo.nPDO
  index : ∀ cell, cells cell → dump.pdo.index cell = config.pdo.index cell
  syncM : ∀ cell, cells cell → dump.pdo.syncM cell = config.pdo.syncM cell
  bitSize : ∀ cell, cells cell → dump.pdo.bitSize cell = config.pdo.bitSize cell
  smBitSize : ∀ sm < ecMaxSM, dump.pdo.smBitSize sm = config.pdo.smBitSize sm
  total : UInt16.ofInt dump.totalsize = config.size + pending

@[simp] theorem assign_same (table : UInt16 → UInt16) (cell value : UInt16) :
    assign table cell value cell = value := by
  simp [assign]

theorem assign_congr {first second : UInt16 → UInt16} {cell other firstValue secondValue : UInt16}
    (value : firstValue = secondValue) (same : other ≠ cell → first other = second other) :
    assign first cell firstValue other = assign second cell secondValue other := by
  by_cases here : other = cell
  · simp [assign, here, value]
  · simp [assign, here, same here]

theorem entry_agrees (eeprom : Eeprom) (mapoffset : Int) {cells : UInt16 → Prop} {number : UInt16}
    (written : cells number) (dump : DumpWalk) (config : ConfigWalk)
    (agrees : config.pdo.nPDO = number ∧ Agrees cells (config.pdo.bitSize number) dump config) :
    (config.entry eeprom).pdo.nPDO = number ∧
      Agrees cells ((config.entry eeprom).pdo.bitSize number) (dump.entry eeprom mapoffset)
        (config.entry eeprom) := by
  obtain ⟨atNumber, same⟩ := agrees
  have dumpNumber : dump.pdo.nPDO = number := same.number.trans atNumber
  have bits := same.bitSize number written
  refine ⟨atNumber, ?_⟩
  constructor
  case address => simp only [DumpWalk.entry, ConfigWalk.entry, same.address]; grind
  case counter => simp only [DumpWalk.entry, ConfigWalk.entry, same.counter]
  case length => exact same.length
  case number => exact same.number
  case index => exact same.index
  case syncM => exact same.syncM
  case bitSize =>
    intro cell inside
    simp only [DumpWalk.entry, ConfigWalk.entry, dumpNumber, atNumber, same.address, bits]
    exact assign_congr rfl fun _ => same.bitSize cell inside
  case smBitSize => exact same.smBitSize
  case total =>
    have total := same.total
    have byte : ∀ value : UInt8, UInt16.ofInt value.toNat = value.toUInt16 := by
      intro value
      rw [← UInt16.toNat_inj]
      simp only [UInt16.ofInt, UInt16.toNat_ofNat', UInt8.toNat_toUInt16]
      have small := value.toNat_lt
      omega
    simp only [DumpWalk.entry, ConfigWalk.entry, atNumber, assign_same, UInt16.ofInt_add, total,
      same.address, byte]
    rw [UInt16.add_assoc]

theorem header_agrees (eeprom : Eeprom) {dump : DumpWalk} {config : ConfigWalk}
    {cells : UInt16 → Prop} (agrees : Agrees cells 0 dump config) :
    Agrees (fun cell => cells cell ∨ cell = config.pdo.nPDO + 1) 0 (dump.header eeprom)
      (config.header eeprom) := by
  have assigned : ∀ {first second : UInt16 → UInt16} (value : UInt16),
      (∀ cell, cells cell → first cell = second cell) →
      ∀ cell, cells cell ∨ cell = config.pdo.nPDO + 1 →
        assign first (config.pdo.nPDO + 1) value cell =
          assign second (config.pdo.nPDO + 1) value cell := by
    intro first second value same cell inside
    apply assign_congr rfl
    intro other
    exact same cell (inside.resolve_right other)
  constructor
  case address => simp only [DumpWalk.header, ConfigWalk.header, agrees.address]; grind
  case counter => simp only [DumpWalk.header, ConfigWalk.header, agrees.counter]
  case length => exact agrees.length
  case number => simp only [DumpWalk.header, ConfigWalk.header, agrees.number]
  case index =>
    simp only [DumpWalk.header, ConfigWalk.header, agrees.number, agrees.address]
    exact assigned _ agrees.index
  case syncM =>
    simp only [DumpWalk.header, ConfigWalk.header, agrees.number, agrees.address]
    exact assigned _ agrees.syncM
  case bitSize =>
    simp only [DumpWalk.header, ConfigWalk.header, agrees.number]
    exact assigned _ agrees.bitSize
  case smBitSize => exact agrees.smBitSize
  case total => exact agrees.total

theorem active_agrees (eeprom : Eeprom) (rxPdo : Bool) (mapoffset : Int) (title : List UInt8)
    (entries syncM : UInt16) {dump : DumpWalk} {config : ConfigWalk} {cells : UInt16 → Prop}
    (agrees : Agrees cells 0 dump config) (written : cells config.pdo.nPDO)
    (opened : config.pdo.bitSize config.pdo.nPDO = 0) :
    Agrees cells 0 (dump.active eeprom rxPdo mapoffset title entries syncM)
      (config.active eeprom entries syncM) := by
  have start : Agrees cells (config.pdo.bitSize config.pdo.nPDO)
      { dump with printed := dump.printed ++
          [.heading syncM rxPdo (dump.pdo.index dump.pdo.nPDO) title] } config :=
    { agrees with total := by rw [opened]; exact agrees.total }
  obtain ⟨atNumber, read⟩ := iterate_simulates (entry_agrees eeprom mapoffset written)
    entries.toNat _ config ⟨rfl, start⟩
  have bits := read.bitSize _ written
  constructor
  case address => exact read.address
  case counter => simp only [DumpWalk.active, ConfigWalk.active, read.counter]
  case length => exact read.length
  case number => exact read.number
  case index => exact read.index
  case syncM => exact read.syncM
  case bitSize => exact read.bitSize
  case smBitSize =>
    intro sm inRange
    simp only [DumpWalk.active, ConfigWalk.active]
    by_cases here : sm = syncM
    · subst here
      simp only [assign_same, read.smBitSize sm inRange, read.number, atNumber, bits]
    · simp only [assign, here, if_false, read.smBitSize sm inRange]
  case total =>
    simp only [DumpWalk.active, ConfigWalk.active, read.total, atNumber, UInt16.add_zero]

/-- The cells `1 .. nPDO`. -/
def Visited (number cell : UInt16) : Prop := 1 ≤ cell ∧ cell ≤ number

theorem visited_succ {number cell : UInt16} (visited : Visited (number + 1) cell) :
    Visited number cell ∨ cell = number + 1 := by
  obtain ⟨low, high⟩ := visited
  simp only [Visited, UInt16.le_iff_toNat_le, UInt16.toNat_add, ← UInt16.toNat_inj,
    UInt16.reduceToNat] at *
  omega

theorem Agrees.mono {cells fewer : UInt16 → Prop} {pending : UInt16} {dump : DumpWalk}
    {config : ConfigWalk} (agrees : Agrees cells pending dump config)
    (inside : ∀ cell, fewer cell → cells cell) : Agrees fewer pending dump config :=
  { agrees with
    index := fun cell member => agrees.index cell (inside cell member)
    syncM := fun cell member => agrees.syncM cell (inside cell member)
    bitSize := fun cell member => agrees.bitSize cell (inside cell member) }

def AtTurn (dump : DumpWalk) (config : ConfigWalk) : Prop :=
  Agrees (Visited config.pdo.nPDO) 0 dump config

theorem ConfigWalk.iterate_entry_nPDO (eeprom : Eeprom) (count : Nat) (walk : ConfigWalk) :
    ((ConfigWalk.entry eeprom)^[count] walk).pdo.nPDO = walk.pdo.nPDO := by
  induction count generalizing walk with
  | zero => rfl
  | succ count ih => exact ih (walk.entry eeprom)

theorem ConfigWalk.onePdo_nPDO (eeprom : Eeprom) (walk : ConfigWalk) :
    (walk.onePdo eeprom).pdo.nPDO = walk.pdo.nPDO + 1 := by
  simp only [ConfigWalk.onePdo]
  split
  · simp only [ConfigWalk.active, ConfigWalk.iterate_entry_nPDO, ConfigWalk.header]
  · simp only [ConfigWalk.header]

theorem onePdo_agrees (eeprom : Eeprom) (rxPdo : Bool) (mapoffset : Int) {dump : DumpWalk}
    {config : ConfigWalk} (agrees : AtTurn dump config) :
    AtTurn (dump.onePdo eeprom rxPdo mapoffset) (config.onePdo eeprom) := by
  have header := header_agrees eeprom agrees
  have number := ConfigWalk.onePdo_nPDO eeprom config
  apply Agrees.mono _ fun cell visited => visited_succ (number ▸ visited)
  simp only [DumpWalk.onePdo, ConfigWalk.onePdo, agrees.address]
  split
  · apply active_agrees eeprom rxPdo mapoffset _ _ _ header
    · exact .inr rfl
    · simp only [ConfigWalk.header, assign_same]
  · exact
      { header with
        address := by simp only [header.address]
        counter := by simp only [header.counter] }

theorem limited_agrees {dump : DumpWalk} {config : ConfigWalk} (agrees : AtTurn dump config) :
    AtTurn dump.limited config.limited := by
  simp only [DumpWalk.limited, ConfigWalk.limited, agrees.number]
  split
  · exact { agrees with counter := agrees.length }
  · exact agrees

theorem turn_agrees (eeprom : Eeprom) (rxPdo : Bool) (mapoffset : Int) (dump : DumpWalk)
    (config : ConfigWalk) (agrees : AtTurn dump config) :
    AtTurn (dump.turn eeprom rxPdo mapoffset) (config.turn eeprom) :=
  limited_agrees (onePdo_agrees eeprom rxPdo mapoffset agrees)

theorem again_agrees (dump : DumpWalk) (config : ConfigWalk) (agrees : AtTurn dump config) :
    dump.again = config.again := by
  simp only [DumpWalk.again, ConfigWalk.again, agrees.counter, agrees.length]

theorem DumpWalk.iterate_entry_nPDO (eeprom : Eeprom) (mapoffset : Int) (count : Nat)
    (walk : DumpWalk) :
    ((DumpWalk.entry eeprom mapoffset)^[count] walk).pdo.nPDO = walk.pdo.nPDO := by
  induction count generalizing walk with
  | zero => rfl
  | succ count ih => exact ih (walk.entry eeprom mapoffset)

theorem DumpWalk.onePdo_nPDO (eeprom : Eeprom) (rxPdo : Bool) (mapoffset : Int)
    (walk : DumpWalk) : (walk.onePdo eeprom rxPdo mapoffset).pdo.nPDO = walk.pdo.nPDO + 1 := by
  simp only [DumpWalk.onePdo]
  split
  · simp only [DumpWalk.active, DumpWalk.iterate_entry_nPDO, DumpWalk.header]
  · simp only [DumpWalk.header]

theorem DumpWalk.again_limited {walk : DumpWalk} (more : walk.limited.again = true) :
    walk.limited = walk ∧ walk.pdo.nPDO < ecMaxEepDo - 1 := by
  by_cases full : walk.pdo.nPDO ≥ ecMaxEepDo - 1
  · simp [DumpWalk.limited, full, DumpWalk.again] at more
  · exact ⟨by simp [DumpWalk.limited, full], UInt16.not_le.mp full⟩

/-- The PDOs that are left up to `EC_MAXEEPDO - 1`. -/
def DumpWalk.rank (walk : DumpWalk) : Nat := (ecMaxEepDo - 1 - walk.pdo.nPDO).toNat

theorem DumpWalk.rank_falls (eeprom : Eeprom) (rxPdo : Bool) (mapoffset : Int) (walk : DumpWalk)
    (more : (walk.turn eeprom rxPdo mapoffset).again = true) :
    (walk.turn eeprom rxPdo mapoffset).rank < walk.rank := by
  obtain ⟨same, small⟩ := DumpWalk.again_limited more
  rw [DumpWalk.onePdo_nPDO] at small
  rw [DumpWalk.turn, same, DumpWalk.rank, DumpWalk.onePdo_nPDO, DumpWalk.rank]
  simp only [ecMaxEepDo, UInt16.lt_iff_toNat_lt, UInt16.toNat_sub, UInt16.toNat_add,
    UInt16.reduceToNat] at small ⊢
  have bound := walk.pdo.nPDO.toNat_lt
  omega

/-- The same PDOs and sizes, and the same total modulo 2^16. -/
structure SameResult (dump : DumpWalk) (config : ConfigWalk) : Prop where
  nPDO : dump.pdo.nPDO = config.pdo.nPDO
  index : ∀ number, 1 ≤ number → number ≤ dump.pdo.nPDO →
    dump.pdo.index number = config.pdo.index number
  syncM : ∀ number, 1 ≤ number → number ≤ dump.pdo.nPDO →
    dump.pdo.syncM number = config.pdo.syncM number
  bitSize : ∀ number, 1 ≤ number → number ≤ dump.pdo.nPDO →
    dump.pdo.bitSize number = config.pdo.bitSize number
  smBitSize : ∀ sm < ecMaxSM, dump.pdo.smBitSize sm = config.pdo.smBitSize sm
  total : dump.totalsize % 2 ^ 16 = config.size.toNat

theorem AtTurn.sameResult {dump : DumpWalk} {config : ConfigWalk} (agrees : AtTurn dump config) :
    SameResult dump config := by
  have visited : ∀ number, 1 ≤ number → number ≤ dump.pdo.nPDO →
      Visited config.pdo.nPDO number :=
    fun number low high => ⟨low, agrees.number ▸ high⟩
  constructor
  case nPDO => exact agrees.number
  case index => exact fun number low high => agrees.index number (visited number low high)
  case syncM => exact fun number low high => agrees.syncM number (visited number low high)
  case bitSize => exact fun number low high => agrees.bitSize number (visited number low high)
  case smBitSize => exact agrees.smBitSize
  case total =>
    have total := agrees.total
    rw [UInt16.add_zero] at total
    rw [← total]
    simp only [UInt16.ofInt, UInt16.toNat_ofNat']
    omega

theorem not_visited_zero (cell : UInt16) : ¬ Visited 0 cell := by
  simp only [Visited, UInt16.le_iff_toNat_le, UInt16.reduceToNat]
  omega

/-- Before the first turn no cell of the PDO tables counts. -/
theorem start_agrees (a c : UInt16) (bitoffset : Int) (dumpPdo configPdo : EepromPdo)
    (length : dumpPdo.length = configPdo.length) (dumpNone : dumpPdo.nPDO = 0)
    (configNone : configPdo.nPDO = 0)
    (smBitSize : ∀ sm < ecMaxSM, dumpPdo.smBitSize sm = configPdo.smBitSize sm) :
    AtTurn { a, c, pdo := dumpPdo, bitoffset, totalsize := 0, printed := [], headers := [] }
      { a, c, pdo := configPdo, size := 0 } := by
  rw [AtTurn, configNone]
  constructor
  case address => rfl
  case counter => rfl
  case length => exact length
  case number => exact dumpNone.trans configNone.symm
  case smBitSize => exact smBitSize
  case total => rfl
  all_goals
    intro cell visited
    exact absurd visited (not_visited_zero cell)

/-- Whatever the EEPROM holds, the printed walk and the configuring walk both end, with
the same PDOs. -/
theorem dump_refines_configurator (eeprom : Eeprom) (dumpMemory configMemory : EepromPdo)
    (t : UInt8) (mapoffset bitoffset : Int) :
    ∃ dump config, siSiiPdo eeprom dumpMemory t mapoffset bitoffset = some dump ∧
      ecxSiiPdo eeprom configMemory t = some config ∧ SameResult dump config := by
  have smBitSize : ∀ sm < ecMaxSM,
      (dumpMemory.cleared (eeprom.pdoSection t)).smBitSize sm =
        (configMemory.cleared (eeprom.pdoSection t)).smBitSize sm := by
    intro sm inRange
    simp only [EepromPdo.cleared, inRange, if_true]
  simp only [siSiiPdo, ecxSiiPdo]
  split
  · have fuel : (ecMaxEepDo - 1 - 0).toNat < ecMaxEepDo.toNat := by decide
    obtain ⟨dump, ends⟩ := doWhile_ends DumpWalk.rank
      (DumpWalk.rank_falls eeprom (direction t ≠ 0) mapoffset) ecMaxEepDo.toNat
      { a := eeprom.pdoSection t + 2, c := 1, pdo := dumpMemory.opened eeprom (eeprom.pdoSection t),
        bitoffset, totalsize := 0, printed := [], headers := [] } fuel
    have start := start_agrees (eeprom.pdoSection t + 2) 1 bitoffset
      (dumpMemory.opened eeprom (eeprom.pdoSection t))
      (configMemory.opened eeprom (eeprom.pdoSection t)) rfl rfl rfl smBitSize
    obtain ⟨config, configEnds, agrees⟩ := doWhile_simulates
      (turn_agrees eeprom (direction t ≠ 0) mapoffset) again_agrees _ _ _ _ start ends
    exact ⟨dump, config, ends, configEnds, agrees.sameResult⟩
  · have start := start_agrees (eeprom.pdoSection t) ecMaxSM bitoffset
      (dumpMemory.cleared (eeprom.pdoSection t))
      (configMemory.cleared (eeprom.pdoSection t)) rfl rfl rfl smBitSize
    exact ⟨_, _, rfl, rfl, start.sameResult⟩

end WebserverEthercat.Sii

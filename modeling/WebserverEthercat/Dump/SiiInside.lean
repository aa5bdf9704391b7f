import WebserverEthercat.Dump.SiiDecoded

/-!
# Staying inside the section

The length of the section is tested behind a PDO only, against the word counter.
So the walk stays inside exactly when the section is cut into whole PDOs.
-/

set_option autoImplicit false

namespace WebserverEthercat.Sii

open Loops

/-! ## The bytes that are read -/

/-- The addresses of the bytes that are read of a PDO: those of its header, and those of its
entries when it is active. -/
def SiiPdoHeader.bytes (header : SiiPdoHeader) : List UInt16 :=
  [header.address, header.address + 1, header.address + 2, header.address + 3,
    header.address + 5] ++
  if header.syncM < ecMaxSM then
    (List.range header.entries.toNat).flatMap fun entry =>
      [0, 1, 2, 3, 4, 5].map fun byte => header.address + 8 + UInt16.ofNat (8 * entry) + byte
  else []

/-- The byte is in the body of the section, behind its length field. -/
def InBody (startpos length byte : UInt16) : Prop :=
  startpos.toNat + 2 ≤ byte.toNat ∧ byte.toNat < startpos.toNat + 2 + 2 * length.toNat

/-- All bytes that are taken for PDOs are in the body of the section, and no address wraps
around: each PDO stands behind the one before. -/
def StaysInside (startpos length : UInt16) (headers : List SiiPdoHeader) : Prop :=
  (∀ header ∈ headers, ∀ byte ∈ header.bytes, InBody startpos length byte) ∧
    headers.Pairwise fun first second => first.address < second.address

/-- The words of a PDO up to the last byte that is read. -/
def SiiPdo.wordsRead (pdo : SiiPdo) : Nat :=
  if pdo.active then 4 * pdo.entries.length + 3 else 3

/-- From a byte address on, the section up to `last` is made of whole PDOs: each one ends, as far
as it is read, in the section and below the limit of the addresses.  Another one follows where
two words are left, up to the number of PDOs that there is room for. -/
def WholePdos (eeprom : Eeprom) (last : Nat) : Nat → Nat → Prop
  | 0, _ => True
  | room + 1, address =>
      let pdo := SiiPdo.read eeprom (UInt16.ofNat address)
      address + 2 * pdo.wordsRead ≤ last ∧ address + 2 * pdo.wordsRead ≤ 65536 ∧
        (address + 2 * pdo.words + 4 ≤ last →
          WholePdos eeprom last room (address + 2 * pdo.words))

theorem header_bytes (pdo : SiiPdo) (address : UInt16) :
    (pdo.header address).bytes =
      [address, address + 1, address + 2, address + 3, address + 5] ++
      if pdo.active then
        (List.range pdo.entries.length).flatMap fun entry =>
          [0, 1, 2, 3, 4, 5].map fun byte => address + 8 + UInt16.ofNat (8 * entry) + byte
      else [] := by
  have count : (UInt16.ofNat pdo.entries.length).toNat = pdo.entries.length := by
    have few := pdo.few
    rw [UInt16.toNat_ofNat']
    omega
  rw [SiiPdoHeader.bytes]
  simp only [SiiPdo.header, count, active_iff]

theorem inBody_ofNat (startpos length : UInt16) (value : Nat) :
    InBody startpos length (UInt16.ofNat value) ↔ startpos.toNat + 2 ≤ value % 65536 ∧
      value % 65536 < startpos.toNat + 2 + 2 * length.toNat := by
  rw [InBody, UInt16.toNat_ofNat']

theorem bytes_offsets (startpos length : UInt16) (address : Nat) (pdo : SiiPdo) :
    (∀ byte ∈ (pdo.header (UInt16.ofNat address)).bytes, InBody startpos length byte) ↔
      (∀ offset ∈ [0, 1, 2, 3, 5], InBody startpos length (UInt16.ofNat (address + offset))) ∧
        (pdo.active = true → ∀ entry < pdo.entries.length, ∀ offset ∈ [0, 1, 2, 3, 4, 5],
          InBody startpos length (UInt16.ofNat (address + 8 + 8 * entry + offset))) := by
  have literals : UInt16.ofNat 1 = 1 ∧ UInt16.ofNat 2 = 2 ∧ UInt16.ofNat 3 = 3 ∧
      UInt16.ofNat 4 = 4 ∧ UInt16.ofNat 5 = 5 ∧ UInt16.ofNat 8 = 8 := by decide
  obtain ⟨one, two, three, four, five, eight⟩ := literals
  have spelled (entry : Nat) : (∀ byte ∈ ([0, 1, 2, 3, 4, 5] : List UInt16).map
        fun byte => UInt16.ofNat address + 8 + UInt16.ofNat (8 * entry) + byte,
        InBody startpos length byte) ↔
      ∀ offset ∈ [0, 1, 2, 3, 4, 5],
        InBody startpos length (UInt16.ofNat (address + 8 + 8 * entry + offset)) := by
    simp [UInt16.ofNat_add, one, two, three, four, five, eight]
  rw [header_bytes, List.forall_mem_append]
  apply and_congr
  · simp [UInt16.ofNat_add, one, two, three, five]
  · cases active : pdo.active with
    | false => simp
    | true => simp only [if_true, true_imp_iff, List.forall_mem_flatMap, List.mem_range, spelled]

theorem bytes_inside_iff {startpos length : UInt16} (found : 0 < startpos) {address : Nat}
    (start : startpos.toNat + 2 ≤ address) (below : address < 65536) (pdo : SiiPdo) :
    (∀ byte ∈ (pdo.header (UInt16.ofNat address)).bytes, InBody startpos length byte) ↔
      address + 2 * pdo.wordsRead ≤ startpos.toNat + 2 + 2 * length.toNat ∧
        address + 2 * pdo.wordsRead ≤ 65536 := by
  have positive : 0 < startpos.toNat := UInt16.lt_iff_toNat_lt.mp found
  have few := pdo.few
  rw [bytes_offsets]
  simp only [inBody_ofNat, List.forall_mem_cons, List.not_mem_nil, IsEmpty.forall_iff,
    implies_true, and_true]
  cases active : pdo.active with
  | false =>
      simp only [SiiPdo.wordsRead, active, Bool.false_eq_true, false_imp_iff, and_true, if_false]
      omega
  | true =>
      simp only [SiiPdo.wordsRead, active, true_imp_iff, if_true]
      constructor
      · rintro ⟨header, entries⟩
        rcases Nat.eq_zero_or_pos pdo.entries.length with none | some
        · rw [none]
          omega
        · have lastEntry := entries (pdo.entries.length - 1) (by omega)
          -- the entry in which the addresses would wrap around
          by_cases wraps : 65536 < address + 2 * (4 * pdo.entries.length + 3)
          · have wrapping := entries ((65536 - address - 6) / 8) (by omega)
            omega
          · omega
      · rintro ⟨inside, below⟩
        refine ⟨by omega, fun entry small => by omega⟩

/-! ## The walk -/

theorem words_bounds (pdo : SiiPdo) : 3 ≤ pdo.wordsRead ∧ pdo.wordsRead ≤ pdo.words + 1 ∧
    pdo.words ≤ 1024 := by
  have few := pdo.few
  rw [SiiPdo.wordsRead, SiiPdo.words]
  split <;> omega

variable {eeprom : Eeprom} {rxPdo : Bool} {mapoffset : Int}

theorem turn_took (walk : DumpWalk) :
    (walk.turn eeprom rxPdo mapoffset).headers =
      walk.headers ++ [(SiiPdo.read eeprom walk.a).header walk.a] := by
  have took := onePdo_took eeprom rxPdo mapoffset walk
  rw [DumpWalk.turn, DumpWalk.limited]
  split
  · exact took.headers
  · exact took.headers

theorem first_header {turns : Nat} {walk last : DumpWalk}
    (ends : doWhile (DumpWalk.turn eeprom rxPdo mapoffset) DumpWalk.again turns walk = some last) :
    ∃ rest, last.headers = walk.headers ++ (SiiPdo.read eeprom walk.a).header walk.a :: rest := by
  cases turns with
  | zero => cases ends
  | succ turns =>
      let first := walk.headers ++ [(SiiPdo.read eeprom walk.a).header walk.a]
      have grows : ∀ next : DumpWalk, (∃ rest, next.headers = first ++ rest) →
          ∃ rest, (next.turn eeprom rxPdo mapoffset).headers = first ++ rest := by
        rintro next ⟨rest, headers⟩
        exact ⟨_, by rw [turn_took, headers, List.append_assoc]⟩
      have start : ∃ rest, (walk.turn eeprom rxPdo mapoffset).headers = first ++ rest :=
        ⟨[], by rw [turn_took, List.append_nil]⟩
      have all : ∃ rest, last.headers = first ++ rest := by
        rw [doWhile] at ends
        split at ends
        · exact doWhile_invariant grows turns _ last start ends
        · exact Option.some.inj ends ▸ start
      obtain ⟨rest, headers⟩ := all
      exact ⟨rest, by rw [headers, List.append_assoc]; rfl⟩

theorem staysInside_cons {startpos length : UInt16} {header : SiiPdoHeader}
    {headers : List SiiPdoHeader} :
    StaysInside startpos length (header :: headers) ↔
      (∀ byte ∈ header.bytes, InBody startpos length byte) ∧ StaysInside startpos length headers ∧
        ∀ later ∈ headers, header.address < later.address := by
  simp only [StaysInside, List.forall_mem_cons, List.pairwise_cons]
  constructor
  · rintro ⟨⟨here, rest⟩, behind, ordered⟩
    exact ⟨here, ⟨rest, ordered⟩, behind⟩
  · rintro ⟨here, ⟨rest, ordered⟩, behind⟩
    exact ⟨⟨here, rest⟩, behind, ordered⟩

variable (eeprom rxPdo mapoffset)
variable {startpos length : UInt16} {room done : Nat} {walk : DumpWalk}

/-- Where the bytes of the next PDO are; no address may come below `low`. -/
theorem StandsAt.first_inside (stands : StandsAt startpos length room done walk)
    (found : 0 < startpos) {low : Nat} (above : startpos.toNat + 2 ≤ low)
    (start : low ≤ startpos.toNat + 2 + 2 * done)
    (near : startpos.toNat + 2 + 2 * done < 65536 + low) :
    ((∀ byte ∈ ((SiiPdo.read eeprom walk.a).header walk.a).bytes, InBody startpos length byte) ∧
        low ≤ ((SiiPdo.read eeprom walk.a).header walk.a).address.toNat) ↔
      startpos.toNat + 2 + 2 * done + 2 * (SiiPdo.read eeprom walk.a).wordsRead ≤
          startpos.toNat + 2 + 2 * length.toNat ∧
        startpos.toNat + 2 + 2 * done + 2 * (SiiPdo.read eeprom walk.a).wordsRead ≤ 65536 := by
  have bounds := words_bounds (SiiPdo.read eeprom walk.a)
  have value : ((SiiPdo.read eeprom walk.a).header walk.a).address.toNat =
      (startpos.toNat + 2 + 2 * done) % 65536 := by
    rw [stands.address]
    exact UInt16.toNat_ofNat' ..
  by_cases below : startpos.toNat + 2 + 2 * done < 65536
  · rw [value, stands.address, bytes_inside_iff found (by omega) below]
    omega
  · rw [value]
    omega

/-- The PDOs are inside, and none of them is below `low`. -/
def InsideFrom (startpos length : UInt16) (low : Nat) (headers : List SiiPdoHeader) : Prop :=
  StaysInside startpos length headers ∧ ∀ header ∈ headers, low ≤ header.address.toNat

theorem insideFrom_nil (low : Nat) : InsideFrom startpos length low [] := by
  simp [InsideFrom, StaysInside]

theorem insideFrom_cons {low : Nat} {header : SiiPdoHeader} {headers : List SiiPdoHeader} :
    InsideFrom startpos length low (header :: headers) ↔
      ((∀ byte ∈ header.bytes, InBody startpos length byte) ∧ low ≤ header.address.toNat) ∧
        InsideFrom startpos length (header.address.toNat + 1) headers := by
  rw [InsideFrom, InsideFrom, staysInside_cons, List.forall_mem_cons]
  constructor
  · rintro ⟨⟨bytes, stays, ordered⟩, above, -⟩
    exact ⟨⟨bytes, above⟩, stays,
      fun later member => UInt16.lt_iff_toNat_lt.mp (ordered later member)⟩
  · rintro ⟨⟨bytes, above⟩, stays, ordered⟩
    exact ⟨⟨bytes, stays, fun later member => UInt16.lt_iff_toNat_lt.mpr (ordered later member)⟩,
      above, fun later member => above.trans (Nat.le_of_lt (ordered later member))⟩

theorem insideFrom_start {headers : List SiiPdoHeader} :
    InsideFrom startpos length (startpos.toNat + 2) headers ↔
      StaysInside startpos length headers := by
  rw [InsideFrom, and_iff_left_iff_imp]
  intro stays header member
  exact (stays.1 header member header.address (by simp [SiiPdoHeader.bytes])).1

/-- The loop from a PDO on; no address may come below `low`. -/
theorem turns_inside (found : 0 < startpos) (turns : Nat) :
    ∀ {room done low : Nat} {walk last : DumpWalk}, StandsAt startpos length room done walk →
      startpos.toNat + 2 ≤ low → low ≤ startpos.toNat + 2 + 2 * done →
      startpos.toNat + 2 + 2 * done < 65536 + low →
      doWhile (DumpWalk.turn eeprom rxPdo mapoffset) DumpWalk.again turns walk = some last →
      ∃ headers, last.headers = walk.headers ++ headers ∧
        (InsideFrom startpos length low headers ↔
          WholePdos eeprom (startpos.toNat + 2 + 2 * length.toNat) (room + 1)
            (startpos.toNat + 2 + 2 * done)) := by
  induction turns with
  | zero =>
      intro room done low walk last _ _ _ _ ends
      cases ends
  | succ turns ih =>
      intro room done low walk last stands above start near ends
      have here := stands.first_inside eeprom found above start near
      have bounds := words_bounds (SiiPdo.read eeprom walk.a)
      by_cases inside : startpos.toNat + 2 + 2 * done + 2 * (SiiPdo.read eeprom walk.a).wordsRead ≤
            startpos.toNat + 2 + 2 * length.toNat ∧
          startpos.toNat + 2 + 2 * done + 2 * (SiiPdo.read eeprom walk.a).wordsRead ≤ 65536
      case pos =>
        have goesOn := stands.again_iff eeprom rxPdo mapoffset (by omega)
        rw [doWhile] at ends
        split at ends
        case isFalse stops =>
          have last := Option.some.inj ends
          refine ⟨[(SiiPdo.read eeprom walk.a).header walk.a], by rw [← last, turn_took], ?_⟩
          rw [insideFrom_cons, here, WholePdos, ← stands.address]
          refine iff_of_true ⟨inside, insideFrom_nil _⟩ ⟨inside.1, inside.2, fun follows => ?_⟩
          have noRoom : room = 0 := by
            by_contra left
            exact stops (goesOn.mpr ⟨left, by omega⟩)
          rw [noRoom]
          exact trivial
        case isTrue more =>
          obtain ⟨hasRoom, follows⟩ := goesOn.mp more
          obtain ⟨room, rfl⟩ : ∃ left, room = left + 1 := ⟨room - 1, by omega⟩
          obtain ⟨rest, headers, whole⟩ := @ih room _ (startpos.toNat + 2 + 2 * done + 1) _ last
            (stands.next eeprom rxPdo mapoffset) (by omega) (by omega) (by omega) ends
          refine ⟨(SiiPdo.read eeprom walk.a).header walk.a :: rest, ?_, ?_⟩
          · rw [headers, turn_took, List.append_assoc]
            rfl
          have below : startpos.toNat + 2 + 2 * done < 65536 := by omega
          have address : ((SiiPdo.read eeprom walk.a).header walk.a).address.toNat =
              startpos.toNat + 2 + 2 * done := by
            rw [SiiPdo.header, stands.address, UInt16.toNat_ofNat_of_lt' below]
          have next : startpos.toNat + 2 + 2 * (done + (SiiPdo.read eeprom walk.a).words) =
              startpos.toNat + 2 + 2 * done + 2 * (SiiPdo.read eeprom walk.a).words := by omega
          have left : startpos.toNat + 2 + 2 * done + 2 * (SiiPdo.read eeprom walk.a).words + 4 ≤
              startpos.toNat + 2 + 2 * length.toNat := by omega
          rw [insideFrom_cons, here, WholePdos, ← stands.address, address, whole, next]
          simp only [inside, left, true_and, true_imp_iff]
      case neg =>
        obtain ⟨rest, headers⟩ := first_header ends
        refine ⟨_, headers, ?_⟩
        rw [insideFrom_cons, here, WholePdos, ← stands.address]
        exact iff_of_false (fun both => inside both.1) fun whole => inside ⟨whole.1, whole.2.1⟩

/-! ## The call -/

/-- `si_siiPDO` stays inside the section that it finds exactly when that section starts with a PDO
and is cut into whole PDOs up to its end. -/
theorem stays_inside_iff_whole (memory : EepromPdo) (t : UInt8) (bitoffset : Int) :
    ∃ walk, siSiiPdo eeprom memory t mapoffset bitoffset = some walk ∧
      (StaysInside (eeprom.pdoSection t) (eeprom.word (eeprom.pdoSection t)) walk.headers ↔
        (0 < eeprom.pdoSection t →
          WholePdos eeprom
            ((eeprom.pdoSection t).toNat + 2 + 2 * (eeprom.word (eeprom.pdoSection t)).toNat) 511
            ((eeprom.pdoSection t).toNat + 2))) := by
  by_cases found : 0 < eeprom.pdoSection t
  · let opened : DumpWalk :=
      { a := eeprom.pdoSection t + 2, c := 1, pdo := memory.opened eeprom (eeprom.pdoSection t),
        bitoffset, totalsize := 0, printed := [], headers := [] }
    have stands : StandsAt _ _ 510 0 opened := .opened eeprom memory _ bitoffset
    have small := (eeprom.pdoSection t).toNat_lt
    have fuel : (ecMaxEepDo - 1 - 0).toNat < ecMaxEepDo.toNat := by decide
    obtain ⟨walk, ends⟩ := doWhile_ends DumpWalk.rank
      (DumpWalk.rank_falls eeprom (direction t ≠ 0) mapoffset) ecMaxEepDo.toNat opened fuel
    obtain ⟨headers, all, inside⟩ := turns_inside eeprom (direction t ≠ 0) mapoffset found
      ecMaxEepDo.toNat stands (Nat.le_refl _) (by omega) (by omega) ends
    have same : walk.headers = headers := all
    refine ⟨walk, (if_pos found).trans ends, ?_⟩
    rw [same, ← insideFrom_start, forall_prop_of_true found]
    exact inside
  · refine ⟨_, if_neg found, ?_⟩
    simp [found, StaysInside]

/-- An empty section, with the header of the next section taken for a PDO. -/
theorem empty_section_leaves :
    ∃ walk, siSiiPdo (.holding 130 [0x00, 0x00, 0x33, 0x00, 0x00, 0x00]) ⟨0, 0, 0, 0, 0, 0, 0⟩ 0 0
        0 = some walk ∧
      (Eeprom.holding 130 [0x00, 0x00, 0x33, 0x00, 0x00, 0x00]).pdoSection 0 = 130 ∧
      (Eeprom.holding 130 [0x00, 0x00, 0x33, 0x00, 0x00, 0x00]).word 130 = 0 ∧
      walk.printed = [.heading 0 false 0x0033 []] ∧ ¬ StaysInside 130 0 walk.headers := by
  refine ⟨_, rfl, rfl, rfl, rfl, ?_⟩
  rintro ⟨bytes, -⟩
  obtain ⟨-, short⟩ := bytes ⟨132, 0x0033, 0, 0⟩ (.head _) 132 (.head _)
  exact absurd short (by decide)

end WebserverEthercat.Sii

import WebserverEthercat.Dump.Files

/-!
# Dumps that are taken apart rightly

The section at a line of the dump is known from the slaves before it: the
mapping of a CoE slave leaves the PDO section open, and an SII slave does not
open it.
-/

set_option autoImplicit false

namespace WebserverEthercat

open CString

/-! ## Texts without markers -/

/-- No piece of the text is taken for a title. -/
def Unmarked (text : List UInt8) : Prop :=
  ∀ piece ∈ fgetsAll 1024 text, ¬ DumpSection.IsTitle piece

/-- The piece is taken for the title of a PDO mapping. -/
def StartsPdo (piece : List UInt8) : Prop := pdoMarker <:+: piece ∧ ¬ sdoMarker <:+: piece

theorem mem_markers : 67 ∈ sdoMarker ∧ 67 ∈ pdoMarker ∧ 109 ∈ pdoMarker ∧ 103 ∈ pdoMarker := by
  decide

/-- Both markers have a `C`. -/
theorem unmarked_of_absent {text : List UInt8} (absent : 67 ∉ text) : Unmarked text := by
  intro piece member title
  have inside := fgetsAll_within member
  rcases title with sdo | pdo
  · exact absent (mem_of_within (sdo.trans inside) mem_markers.1)
  · exact absent (mem_of_within (pdo.trans inside) mem_markers.2.1)

/-- The title of a PDO mapping has an `m` and a `g`. -/
theorem not_startsPdo_of_absent {text : List UInt8} (absent : 109 ∉ text ∨ 103 ∉ text) :
    ∀ piece ∈ fgetsAll 1024 text, ¬ StartsPdo piece := by
  intro piece member starts
  have inside := starts.1.trans (fgetsAll_within member)
  rcases absent with noM | noG
  · exact noM (mem_of_within inside mem_markers.2.2.1)
  · exact noG (mem_of_within inside mem_markers.2.2.2)

theorem absent_decimal (byte : UInt8) (letter : 57 < byte) (value : Int) : byte ∉ decimal value := by
  intro member
  rcases mem_decimal member with rfl | digit
  · revert letter
    decide
  · simp only [isdigit, Bool.decide_and, Bool.and_eq_true, decide_eq_true_eq] at digit
    exact absurd digit.2 (UInt8.not_le.mpr letter)

theorem absent_lowerHex (byte : UInt8) (letter : 57 < byte) (noDigit : byte < 97 ∨ 102 < byte)
    (digits value : Nat) : byte ∉ lowerHex digits value := by
  intro member
  rcases mem_lowerHex member with digit | small
  · exact absurd digit.2 (UInt8.not_le.mpr letter)
  · rcases noDigit with capital | high
    · exact absurd small.1 (UInt8.not_le.mpr capital)
    · exact absurd small.2 (UInt8.not_le.mpr high)

theorem absent_rightJustified {byte : UInt8} (notSpace : byte ≠ 32) (width : Nat)
    {text : List UInt8} (absent : byte ∉ text) : byte ∉ rightJustified width text := by
  simp [rightJustified, absent, notSpace]

/-- A byte that no number has. -/
structure NoNumeral (byte : UInt8) : Prop where
  decimal : ∀ value, byte ∉ decimal value
  lowerHex : ∀ digits value, byte ∉ lowerHex digits value
  padded : ∀ width value, byte ∉ rightJustified width (CString.decimal value)

theorem noNumeral_letter (byte : UInt8) (letter : 57 < byte) (noDigit : byte < 97 ∨ 102 < byte) :
    NoNumeral byte where
  decimal := absent_decimal byte letter
  lowerHex := absent_lowerHex byte letter noDigit
  padded width value := by
    apply absent_rightJustified _ width (absent_decimal byte letter value)
    rintro rfl
    exact absurd letter (by decide)

theorem noNumeral_newline : NoNumeral 10 where
  decimal value member := by
    rcases mem_decimal member with minus | digit
    · exact absurd minus (by decide)
    · exact absurd digit (by decide)
  lowerHex digits value member := absurd (mem_lowerHex member) (by decide)
  padded width value := by
    apply absent_rightJustified (by decide) width
    intro member
    rcases mem_decimal member with minus | digit
    · exact absurd minus (by decide)
    · exact absurd digit (by decide)

/-- A line that no section is recognised by: it has no `j`, no `m` or no `g`, and no `M`, no `S` or
no `u`. -/
structure QuietLine (line : List UInt8) : Prop where
  oneLine : 10 ∉ line
  noDictionary : 106 ∉ line
  noMapping : 109 ∉ line ∨ 103 ∉ line
  noHeading : 77 ∉ line ∨ 83 ∉ line ∨ 117 ∉ line

/-- The lines behind the name without their numbers. -/
def numberForms : List (List UInt8) :=
  [ascii " Output size: " ++ ascii "bits", ascii " Input size: " ++ ascii "bits", ascii " State: ",
    ascii " Delay: " ++ ascii "[ns]", ascii " Has DC: ", ascii " DCParentport:",
    ascii " Activeports:" ++ ascii ".", ascii " Configured address: ",
    ascii " Man: " ++ ascii " ID: " ++ ascii " Rev: ",
    ascii " SM" ++ ascii " A:" ++ ascii " L:" ++ ascii " F:" ++ ascii " Type:",
    ascii " FMMU" ++ ascii " Ls:" ++ ascii " Ll:" ++ ascii " Lsb:" ++ ascii " Leb:" ++ ascii " Ps:" ++
      ascii " Psb:" ++ ascii " Ty:" ++ ascii " Act:",
    ascii " FMMUfunc 0:" ++ ascii " 1:" ++ ascii " 2:" ++ ascii " 3:",
    ascii " MBX length wr: " ++ ascii " rd: " ++ ascii " MBX protocols : ",
    ascii " CoE details: " ++ ascii " FoE details: " ++ ascii " EoE details: " ++ ascii " SoE details: ",
    ascii " Ebus current: " ++ ascii "[mA]", ascii " only LRD/LWR:"]

theorem numbers_form (info : SlaveInfo) : ∀ line ∈ info.numbers, ∃ form ∈ numberForms,
    ∀ byte, NoNumeral byte → byte ∉ form → byte ∉ line := by
  intro line member
  have spelled {line : List UInt8} (k : Nat) (inside : k < numberForms.length)
      (fills : ∀ byte, NoNumeral byte → byte ∉ numberForms[k] → byte ∉ line) :
      ∃ form ∈ numberForms, ∀ byte, NoNumeral byte → byte ∉ form → byte ∉ line :=
    ⟨numberForms[k], List.getElem_mem inside, fills⟩
  simp only [SlaveInfo.numbers, List.mem_append, List.mem_cons, List.not_mem_nil, or_false,
    List.mem_map] at member
  rcases member with ((((((rfl | rfl | rfl | rfl | rfl) | dc) | rfl | rfl | rfl) | sm) | fmmu) |
    rfl | rfl | rfl | rfl | rfl)
  · exact spelled 0 (by decide) fun byte foreign absent => by
      simpa [numberForms, foreign.decimal, foreign.lowerHex, foreign.padded] using absent
  · exact spelled 1 (by decide) fun byte foreign absent => by
      simpa [numberForms, foreign.decimal, foreign.lowerHex, foreign.padded] using absent
  · exact spelled 2 (by decide) fun byte foreign absent => by
      simpa [numberForms, foreign.decimal, foreign.lowerHex, foreign.padded] using absent
  · exact spelled 3 (by decide) fun byte foreign absent => by
      simpa [numberForms, foreign.decimal, foreign.lowerHex, foreign.padded] using absent
  · exact spelled 4 (by decide) fun byte foreign absent => by
      simpa [numberForms, foreign.decimal, foreign.lowerHex, foreign.padded] using absent
  · split at dc
    · rw [List.mem_singleton.mp dc]
      exact spelled 5 (by decide) fun byte foreign absent => by
        simpa [numberForms, foreign.decimal] using absent
    · cases dc
  · exact spelled 6 (by decide) fun byte foreign absent => by
      simp only [numberForms, List.getElem_cons_succ, List.getElem_cons_zero, List.mem_append,
        not_or] at absent
      simp [SlaveInfo.activeport, foreign.decimal, absent]
  · exact spelled 7 (by decide) fun byte foreign absent => by
      simpa [numberForms, foreign.decimal, foreign.lowerHex, foreign.padded] using absent
  · exact spelled 8 (by decide) fun byte foreign absent => by
      simpa [numberForms, SlaveInfo.identity, foreign.lowerHex] using absent
  · obtain ⟨sm, -, rfl⟩ := sm
    exact spelled 9 (by decide) fun byte foreign absent => by
      simpa [numberForms, SyncManager.line, foreign.decimal, foreign.lowerHex, foreign.padded]
        using absent
  · obtain ⟨⟨fmmu, j⟩, -, rfl⟩ := fmmu
    exact spelled 10 (by decide) fun byte foreign absent => by
      simpa [numberForms, Fmmu.line, foreign.decimal, foreign.lowerHex, foreign.padded]
        using absent
  · exact spelled 11 (by decide) fun byte foreign absent => by
      simpa [numberForms, foreign.decimal, foreign.lowerHex, foreign.padded] using absent
  · exact spelled 12 (by decide) fun byte foreign absent => by
      simpa [numberForms, foreign.decimal, foreign.lowerHex, foreign.padded] using absent
  · exact spelled 13 (by decide) fun byte foreign absent => by
      simpa [numberForms, foreign.decimal, foreign.lowerHex, foreign.padded] using absent
  · exact spelled 14 (by decide) fun byte foreign absent => by
      simpa [numberForms, foreign.decimal, foreign.lowerHex, foreign.padded] using absent
  · exact spelled 15 (by decide) fun byte foreign absent => by
      simpa [numberForms, foreign.decimal, foreign.lowerHex, foreign.padded] using absent

theorem numberForms_quiet : ∀ form ∈ numberForms, QuietLine form := by
  have quiet : ∀ form ∈ numberForms, 10 ∉ form ∧ 106 ∉ form ∧ (109 ∉ form ∨ 103 ∉ form) ∧
      (77 ∉ form ∨ 83 ∉ form ∨ 117 ∉ form) := by decide
  intro form member
  obtain ⟨oneLine, noDictionary, noMapping, noHeading⟩ := quiet form member
  exact ⟨oneLine, noDictionary, noMapping, noHeading⟩

theorem numbers_quiet (info : SlaveInfo) : ∀ line ∈ info.numbers, QuietLine line := by
  intro line member
  obtain ⟨form, here, absent⟩ := numbers_form info line member
  have quiet := numberForms_quiet form here
  have letter (byte : UInt8) (letter : 57 < byte) (noDigit : byte < 97 ∨ 102 < byte) :=
    absent byte (noNumeral_letter byte letter noDigit)
  exact
    { oneLine := absent 10 noNumeral_newline quiet.oneLine
      noDictionary := letter 106 (by decide) (by decide) quiet.noDictionary
      noMapping := quiet.noMapping.imp (letter 109 (by decide) (by decide))
        (letter 103 (by decide) (by decide))
      noHeading := quiet.noHeading.imp (letter 77 (by decide) (by decide))
        (Or.imp (letter 83 (by decide) (by decide)) (letter 117 (by decide) (by decide))) }

/-! ## Lines of one kind -/

theorem next_of_not_title {line : List UInt8} (plain : ¬ DumpSection.IsTitle line)
    (current : DumpSection) : current.next line = current := by
  simp only [DumpSection.IsTitle, not_or] at plain
  rw [DumpSection.next, if_neg plain.1, if_neg plain.2]

theorem allPlaced_other (texts : List (List UInt8)) :
    ∀ current, AllPlaced current (texts.map fun text => ⟨.other, text⟩) := by
  induction texts with
  | nil => exact fun _ => trivial
  | cons text texts ih => exact fun current => ⟨trivial, ih _⟩

theorem allPlaced_home {kind : LineKind} {current : DumpSection}
    (home : ∀ text, Placed current ⟨kind, text⟩ ↔ ¬ DumpSection.IsTitle text)
    (texts : List (List UInt8)) :
    (AllPlaced current (texts.map fun text => ⟨kind, text⟩) ↔
        ∀ text ∈ texts, ¬ DumpSection.IsTitle text) ∧
      ((∀ text ∈ texts, ¬ DumpSection.IsTitle text) →
        sectionAfter current (texts.map fun text => ⟨kind, text⟩) = current) := by
  induction texts with
  | nil => simp [AllPlaced, sectionAfter]
  | cons text texts ih =>
      simp only [List.map_cons, AllPlaced, home, List.forall_mem_cons, sectionAfter,
        List.foldl_cons]
      constructor
      · constructor
        · rintro ⟨plain, later⟩
          rw [next_of_not_title plain] at later
          exact ⟨plain, ih.1.mp later⟩
        · rintro ⟨plain, later⟩
          rw [next_of_not_title plain]
          exact ⟨plain, ih.1.mpr later⟩
      · rintro ⟨plain, later⟩
        rw [next_of_not_title plain]
        exact ih.2 later

namespace DumpLine

theorem placed_other (line : DumpLine) (other : line.kind = .other) (current : DumpSection) :
    AllPlaced current line.pieces := by
  rw [pieces, other]
  exact allPlaced_other _ current

theorem unmarked_stays (line : DumpLine) (unmarked : Unmarked line.text) (current : DumpSection) :
    sectionAfter current line.pieces = current := by
  have stays (texts : List (List UInt8)) (plain : ∀ text ∈ texts, ¬ DumpSection.IsTitle text) :
      sectionAfter current (texts.map fun text => ⟨line.kind, text⟩) = current := by
    induction texts with
    | nil => rfl
    | cons text texts ih =>
        rw [List.map_cons, sectionAfter, List.foldl_cons,
          next_of_not_title (plain text List.mem_cons_self)]
        exact ih fun other member => plain other (List.mem_cons_of_mem _ member)
  exact stays _ unmarked

theorem placed_home (line : DumpLine) {current : DumpSection}
    (home : ∀ text, Placed current ⟨line.kind, text⟩ ↔ ¬ DumpSection.IsTitle text) :
    AllPlaced current line.pieces ↔ Unmarked line.text :=
  (allPlaced_home home _).1

end DumpLine

/-- Lines that leave the section as it is when they are fine. -/
theorem allPlaced_lines {current : DumpSection} {Fine : DumpLine → Prop} {lines : List DumpLine}
    (each : ∀ line ∈ lines, (AllPlaced current line.pieces ↔ Fine line) ∧
      (Fine line → sectionAfter current line.pieces = current)) :
    (AllPlaced current (dumpPieces lines) ↔ ∀ line ∈ lines, Fine line) ∧
      ((∀ line ∈ lines, Fine line) → sectionAfter current (dumpPieces lines) = current) := by
  induction lines with
  | nil => simp [dumpPieces, AllPlaced, sectionAfter]
  | cons line lines ih =>
      obtain ⟨placed, stays⟩ := each line List.mem_cons_self
      obtain ⟨placedLater, staysLater⟩ :=
        ih fun other member => each other (List.mem_cons_of_mem _ member)
      simp only [dumpPieces, List.flatMap_cons, List.forall_mem_cons] at placedLater staysLater ⊢
      rw [allPlaced_append, sectionAfter_append, placed]
      constructor
      · constructor
        · rintro ⟨fine, later⟩
          rw [stays fine] at later
          exact ⟨fine, placedLater.mp later⟩
        · rintro ⟨fine, later⟩
          rw [stays fine]
          exact ⟨fine, placedLater.mpr later⟩
      · rintro ⟨fine, later⟩
        rw [stays fine]
        exact staysLater later

/-! ## Headers -/

theorem header_misplaced {text : List UInt8} (nonempty : text ≠ []) (unmarked : Unmarked text) :
    ¬ AllPlaced .pdo (DumpLine.pieces ⟨.header, text⟩) := by
  intro placed
  cases read : fgetsAll 1024 text with
  | nil =>
      have whole := fgetsAll_flatten 1024 text
      rw [read] at whole
      exact nonempty whole.symm
  | cons piece pieces =>
      rw [DumpLine.pieces, read] at placed
      exact unmarked piece (by rw [read]; exact List.mem_cons_self) (placed.1 rfl)

theorem next_outside {piece : List UInt8} (quiet : ¬ StartsPdo piece) {current : DumpSection}
    (outside : current ≠ .pdo) : current.next piece ≠ .pdo := by
  rw [DumpSection.next]
  split
  · simp
  · rename_i noSdo
    rw [if_neg fun pdo => quiet ⟨pdo, noSdo⟩]
    exact outside

theorem quiet_placed {pieces : List DumpLine}
    (kinds : ∀ piece ∈ pieces, piece.kind = .header ∨ piece.kind = .other)
    (quiet : ∀ piece ∈ pieces, ¬ StartsPdo piece.text) :
    ∀ current, current ≠ .pdo →
      AllPlaced current pieces ∧ sectionAfter current pieces ≠ .pdo := by
  induction pieces with
  | nil => exact fun current outside => ⟨trivial, outside⟩
  | cons piece pieces ih =>
      intro current outside
      have next := next_outside (quiet piece List.mem_cons_self) outside
      have here : Placed current piece := by
        rcases kinds piece List.mem_cons_self with header | other
        · simp [Placed, header, outside]
        · simp [Placed, other]
      obtain ⟨placed, stays⟩ := ih (fun later member => kinds later (List.mem_cons_of_mem _ member))
        (fun later member => quiet later (List.mem_cons_of_mem _ member)) _ next
      exact ⟨⟨here, placed⟩, stays⟩

/-- The name of a slave is not taken for the title of a PDO mapping. -/
def SlaveInfo.Nameable (info : SlaveInfo) : Prop :=
  ∀ piece ∈ fgetsAll 1024 (info.nameLine ++ [10]), ¬ StartsPdo piece

theorem dumpPieces_append (lines later : List DumpLine) :
    dumpPieces (lines ++ later) = dumpPieces lines ++ dumpPieces later :=
  List.flatMap_append

theorem dumpPieces_cons (line : DumpLine) (lines : List DumpLine) :
    dumpPieces (line :: lines) = line.pieces ++ dumpPieces lines :=
  List.flatMap_cons

/-- Pieces without the title of a dictionary leave the PDO section open. -/
theorem sectionAfter_pdo {pieces : List DumpLine}
    (noSdo : ∀ piece ∈ pieces, ¬ sdoMarker <:+: piece.text) : sectionAfter .pdo pieces = .pdo := by
  induction pieces with
  | nil => rfl
  | cons piece pieces ih =>
      have next : DumpSection.pdo.next piece.text = .pdo := by
        simp [DumpSection.next, noSdo piece List.mem_cons_self]
      rw [sectionAfter, List.foldl_cons, next]
      exact ih fun other member => noSdo other (List.mem_cons_of_mem _ member)

/-- A name has no room for both markers one after the other. -/
theorem no_sdo_behind_pdo {name : List UInt8} (fits : name.length ≤ 40)
    {before after : List (List UInt8)} {piece : List UInt8}
    (read : fgetsAll 1024 (ascii " Name:" ++ name ++ [10]) = before ++ piece :: after)
    (starts : pdoMarker <:+: piece) : ∀ later ∈ after, ¬ sdoMarker <:+: later := by
  intro later member sdo
  have whole := congrArg List.length (fgetsAll_flatten 1024 (ascii " Name:" ++ name ++ [10]))
  have lengths : (ascii " Name:").length = 6 ∧ pdoMarker.length = 28 ∧ sdoMarker.length = 28 := by
    decide
  have pdoLength := starts.length_le
  have sdoLength := (sdo.trans (List.infix_of_mem_flatten member)).length_le
  rw [read] at whole
  simp only [List.flatten_append, List.flatten_cons, List.length_append, List.length_singleton]
    at whole
  omega

namespace SlaveDump

variable {Error : Type} (texts : MasterTexts Error)

def nameLine (slave : SlaveDump Error) : DumpLine := ⟨.header, slave.info.nameLine ++ [10]⟩

theorem headerLines_eq (slave : SlaveDump Error) (cnt : Nat) :
    slave.headerLines cnt = ⟨.header, ascii "Slave:" ++ decimal cnt ++ [10]⟩ :: slave.nameLine ::
      slave.info.numbers.map fun line => ⟨.header, line ++ [10]⟩ :=
  rfl

theorem slaveLine_unmarked (cnt : Nat) : Unmarked (ascii "Slave:" ++ decimal cnt ++ [10]) := by
  apply unmarked_of_absent
  simp only [List.mem_append, not_or]
  exact ⟨⟨by decide, absent_decimal _ (by decide) _⟩, by decide⟩

theorem headerLines_pdo (slave : SlaveDump Error) (cnt : Nat) :
    ¬ AllPlaced .pdo (dumpPieces (slave.headerLines cnt)) := by
  intro placed
  rw [headerLines_eq, dumpPieces_cons, allPlaced_append] at placed
  exact header_misplaced (by simp) (slaveLine_unmarked cnt) placed.1

theorem headerLines_placed (slave : SlaveDump Error) (cnt : Nat) {current : DumpSection}
    (outside : current ≠ .pdo) (nameable : slave.info.Nameable) :
    AllPlaced current (dumpPieces (slave.headerLines cnt)) ∧
      sectionAfter current (dumpPieces (slave.headerLines cnt)) ≠ .pdo := by
  have each : ∀ piece ∈ dumpPieces (slave.headerLines cnt),
      piece.kind = .header ∧ ¬ StartsPdo piece.text := by
    intro piece member
    obtain ⟨line, printed, read⟩ := List.mem_flatMap.mp member
    obtain ⟨text, header, rfl⟩ := List.mem_map.mp printed
    obtain ⟨text', inside, rfl⟩ := List.mem_map.mp read
    refine ⟨rfl, ?_⟩
    rcases List.mem_cons.mp header with rfl | header
    · exact fun starts => slaveLine_unmarked cnt text' inside (.inr starts.1)
    · rcases List.mem_cons.mp header with rfl | number
      · exact nameable text' inside
      · have absent : 109 ∉ text ++ [10] ∨ 103 ∉ text ++ [10] := by
          simpa using (numbers_quiet slave.info text number).noMapping
        exact not_startsPdo_of_absent absent text' inside
  exact quiet_placed (fun piece member => .inl (each piece member).1)
    (fun piece member => (each piece member).2) current outside

/-- The line behind the name would be misplaced. -/
theorem nameable_of_placed (slave : SlaveDump Error) (cnt : Nat) {current : DumpSection}
    (placed : AllPlaced current (dumpPieces (slave.headerLines cnt))) : slave.info.Nameable := by
  intro piece member starts
  obtain ⟨before, after, read⟩ := List.append_of_mem member
  rw [headerLines_eq, dumpPieces_cons, dumpPieces_cons, ← List.append_assoc, allPlaced_append]
    at placed
  have behind : sectionAfter current (DumpLine.pieces ⟨.header, ascii "Slave:" ++ decimal cnt ++ [10]⟩ ++
      slave.nameLine.pieces) = .pdo := by
    have noSdo := no_sdo_behind_pdo slave.info.nameFits read starts.1
    have opens (current : DumpSection) : current.next piece = .pdo := by
      rw [DumpSection.next, if_neg starts.2, if_pos starts.1]
    have pieces : slave.nameLine.pieces = before.map (fun text => ⟨.header, text⟩) ++
        ⟨.header, piece⟩ :: after.map fun text => ⟨.header, text⟩ := by
      rw [DumpLine.pieces, nameLine, read]
      simp
    rw [sectionAfter_append, pieces, sectionAfter_append, sectionAfter, List.foldl_cons, opens]
    apply sectionAfter_pdo
    simpa using noSdo
  rw [behind] at placed
  obtain ⟨rest, numbers⟩ : ∃ rest, slave.info.numbers =
      (ascii " Output size: " ++ decimal slave.info.obits.toNat ++ ascii "bits") :: rest :=
    ⟨_, rfl⟩
  obtain ⟨-, behindName⟩ := placed
  rw [numbers, List.map_cons, dumpPieces_cons, allPlaced_append] at behindName
  refine header_misplaced (by simp) (unmarked_of_absent ?_) behindName.1
  simp only [List.mem_append, not_or]
  exact ⟨⟨⟨by decide, absent_decimal _ (by decide) _⟩, by decide⟩, by decide⟩

end SlaveDump

/-! ## Mappings -/

section Mapping

variable {Error : Type} (texts : MasterTexts Error)

/-- The dictionary of a slave has no line with a marker. -/
def SdoDump.Plain (sdo : SdoDump Error) : Prop :=
  ∀ line ∈ sdo.printed, line.kind = .dictionary → Unmarked (line.text texts)

/-- No row of a mapping has a marker. -/
def PlainRows (map : List MapLine) : Prop := ∀ row, .row row ∈ map → Unmarked row.text

theorem heading_unmarked (iSM : UInt8) (direction : Direction) :
    Unmarked (MapLine.heading iSM direction).text := by
  apply unmarked_of_absent
  have noC : 67 ∉ decimal (iSM.toNat : Int) := absent_decimal _ (by decide) _
  cases direction <;> simp only [MapLine.text, List.mem_append, not_or]
  · exact ⟨⟨⟨by decide, noC⟩, by decide⟩, by decide⟩
  · exact ⟨⟨⟨by decide, noC⟩, by decide⟩, by decide⟩

theorem title_pieces : MapLine.title.line.pieces = [MapLine.title.line] := by
  decide +kernel

theorem title_opens (current : DumpSection) :
    AllPlaced current MapLine.title.line.pieces ∧
      sectionAfter current MapLine.title.line.pieces = .pdo := by
  have opens : current.next MapLine.title.line.text = .pdo := by
    have noSdo : ¬ sdoMarker <:+: MapLine.title.line.text := by decide +kernel
    have pdo : pdoMarker <:+: MapLine.title.line.text := by decide +kernel
    rw [DumpSection.next, if_neg noSdo, if_pos pdo]
  rw [title_pieces]
  exact ⟨⟨trivial, trivial⟩, opens⟩

theorem workaround_unmarked : Unmarked MapLine.workaround.text := by
  exact unmarked_of_absent (by decide +kernel)

theorem mapLine_placed (line : MapLine) :
    (AllPlaced .pdo line.line.pieces ↔ (line.kind = .row → Unmarked line.text)) ∧
      ((line.kind = .row → Unmarked line.text) →
        sectionAfter .pdo line.line.pieces = .pdo) := by
  cases line with
  | title =>
      have opens := title_opens .pdo
      exact ⟨iff_of_true opens.1 (by simp [MapLine.kind]), fun _ => opens.2⟩
  | workaround =>
      have placed := DumpLine.placed_other MapLine.workaround.line rfl .pdo
      have stays := DumpLine.unmarked_stays MapLine.workaround.line workaround_unmarked
      exact ⟨iff_of_true placed (by simp [MapLine.kind]), fun _ => stays .pdo⟩
  | heading iSM direction =>
      have plain := heading_unmarked iSM direction
      have home (text : List UInt8) : Placed .pdo ⟨(MapLine.heading iSM direction).line.kind, text⟩ ↔
          ¬ DumpSection.IsTitle text := by simp [Placed, MapLine.line, MapLine.kind]
      have placed := DumpLine.placed_home (MapLine.heading iSM direction).line home
      have stays := DumpLine.unmarked_stays (MapLine.heading iSM direction).line plain
      exact ⟨iff_of_true (placed.mpr plain) (by simp [MapLine.kind]), fun _ => stays .pdo⟩
  | row row =>
      have home (text : List UInt8) : Placed .pdo ⟨(MapLine.row row).line.kind, text⟩ ↔
          ¬ DumpSection.IsTitle text := by simp [Placed, MapLine.line, MapLine.kind]
      have placed := DumpLine.placed_home (MapLine.row row).line home
      refine ⟨placed.trans ⟨fun plain _ => plain, fun plain => plain rfl⟩, fun plain => ?_⟩
      exact DumpLine.unmarked_stays (MapLine.row row).line (plain rfl) .pdo

theorem mapLines_placed (map : List MapLine) :
    (AllPlaced .pdo (dumpPieces (map.map MapLine.line)) ↔ PlainRows map) ∧
      (PlainRows map → sectionAfter .pdo (dumpPieces (map.map MapLine.line)) = .pdo) := by
  have each : ∀ line ∈ map.map MapLine.line,
      (AllPlaced .pdo line.pieces ↔ (line.kind = .row → Unmarked line.text)) ∧
        ((line.kind = .row → Unmarked line.text) → sectionAfter .pdo line.pieces = .pdo) := by
    intro line member
    obtain ⟨line, -, rfl⟩ := List.mem_map.mp member
    exact mapLine_placed line
  have rows : (∀ line ∈ map.map MapLine.line, line.kind = .row → Unmarked line.text) ↔
      PlainRows map := by
    constructor
    · intro plain row member
      have fine := plain (MapLine.row row).line (List.mem_map_of_mem member)
      exact fine rfl
    · intro plain line member kind
      obtain ⟨line, inside, rfl⟩ := List.mem_map.mp member
      cases line with
      | row row => exact plain row inside
      | title => cases kind
      | workaround => cases kind
      | heading iSM direction => cases kind
  rw [← rows]
  exact allPlaced_lines each

end Mapping

end WebserverEthercat

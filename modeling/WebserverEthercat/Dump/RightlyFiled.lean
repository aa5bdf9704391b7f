import WebserverEthercat.Dump.Separable

/-!
# Which dumps are filed rightly

The condition is on the slaves alone: only the last one may have a mapping that
was read by CoE, and the SII mappings before it must be empty.
-/

set_option autoImplicit false

namespace WebserverEthercat

open CString

variable {Error : Type} (texts : MasterTexts Error)

/-! ## The dictionary of a slave -/

/-- The title of a dictionary is read in one piece, with its number of entries. -/
theorem found_pieces {entries : Nat} (few : entries ≤ ecMaxOdList) :
    ((SdoLine.found entries : SdoLine Error).line texts).pieces =
      [(SdoLine.found entries : SdoLine Error).line texts] := by
  have text : (SdoLine.found entries : SdoLine Error).text texts =
      (ascii " CoE Object Description found, " ++ decimal entries ++ ascii " entries.") ++ [10] := by
    have ending : ascii " entries.\n" = ascii " entries." ++ [10] := by decide
    rw [SdoLine.text, ending, List.append_assoc _ (ascii " entries.")]
  have oneLine : 10 ∉ ascii " CoE Object Description found, " ++ decimal entries ++
      ascii " entries." := by
    simp only [List.mem_append, not_or]
    exact ⟨⟨by decide, noNumeral_newline.decimal _⟩, by decide⟩
  have digits : (decimal (entries : Int)).length ≤ 4 + 1 := by
    apply length_decimal_le _ _ (by omega)
    rw [ecMaxOdList] at few
    omega
  have lengths : (ascii " CoE Object Description found, ").length = 31 ∧
      (ascii " entries.").length = 9 := by decide
  have read := fgetsAll_short 1024 oneLine (by simp only [List.length_append]; omega)
  rw [← text] at read
  rw [DumpLine.pieces, SdoLine.line, read]
  rfl

theorem found_marker (entries : Nat) :
    sdoMarker <:+: ((SdoLine.found entries : SdoLine Error).line texts).text := by
  have sdo : sdoMarker <:+: ascii " CoE Object Description found, " := by decide
  simp only [SdoLine.line, SdoLine.text, List.append_assoc]
  exact sdo.trans (List.prefix_append _ _).isInfix

theorem found_opens {entries : Nat} (few : entries ≤ ecMaxOdList) (current : DumpSection) :
    AllPlaced current ((SdoLine.found entries : SdoLine Error).line texts).pieces ∧
      sectionAfter current ((SdoLine.found entries : SdoLine Error).line texts).pieces = .sdo := by
  have opens : current.next ((SdoLine.found entries : SdoLine Error).line texts).text = .sdo := by
    rw [DumpSection.next, if_pos (found_marker texts entries)]
  rw [found_pieces texts few]
  exact ⟨⟨trivial, trivial⟩, opens⟩

theorem dictionaryLines_placed {lines : List (SdoLine Error)}
    (dictionary : ∀ line ∈ lines, line.kind = .dictionary) :
    AllPlaced .sdo (dumpPieces (lines.map (·.line texts))) ↔
      ∀ line ∈ lines, Unmarked (line.text texts) := by
  have each : ∀ line ∈ lines.map (·.line texts),
      (AllPlaced .sdo line.pieces ↔ Unmarked line.text) ∧
        (Unmarked line.text → sectionAfter .sdo line.pieces = .sdo) := by
    intro line member
    obtain ⟨line, inside, rfl⟩ := List.mem_map.mp member
    have kind : (line.line texts).kind = .dictionary := dictionary line inside
    constructor
    · apply DumpLine.placed_home
      intro text
      simp [Placed, kind]
    · intro unmarked
      exact DumpLine.unmarked_stays _ unmarked .sdo
  rw [(allPlaced_lines each).1, List.forall_mem_map]
  rfl

theorem otherLines_placed {lines : List DumpLine} (other : ∀ line ∈ lines, line.kind = .other) :
    ∀ current, AllPlaced current (dumpPieces lines) := by
  induction lines with
  | nil => exact fun _ => trivial
  | cons line lines ih =>
      intro current
      rw [dumpPieces_cons, allPlaced_append]
      exact ⟨DumpLine.placed_other line (other line List.mem_cons_self) current,
        ih (fun later member => other later (List.mem_cons_of_mem _ member)) _⟩

theorem sdoLines_placed (sdo : SdoDump Error) (current : DumpSection) :
    AllPlaced current (dumpPieces (sdo.printed.map (·.line texts))) ↔ sdo.Plain texts := by
  cases sdo with
  | listed entries lines few dictionary =>
      have opens := found_opens texts few current
      rw [SdoDump.printed, List.map_cons, dumpPieces_cons, allPlaced_append,
        and_iff_right opens.1, opens.2, dictionaryLines_placed texts dictionary]
      simp only [SdoDump.Plain, SdoDump.printed, List.forall_mem_cons]
      constructor
      · exact fun plain => ⟨by simp [SdoLine.kind], fun line member _ => plain line member⟩
      · exact fun plain line member => plain.2 line member (dictionary line member)
  | notListed errors =>
      have other : ∀ line ∈ (SdoDump.notListed errors).printed.map (·.line texts),
          line.kind = .other := by
        intro line member
        simp only [SdoDump.printed, List.map_map, List.mem_map] at member
        obtain ⟨popped, -, rfl⟩ := member
        rfl
      refine iff_of_true (otherLines_placed other current) fun line member dictionary => ?_
      obtain ⟨popped, -, rfl⟩ := List.mem_map.mp member
      cases dictionary

/-! ## The mapping of a slave -/

/-- A CoE mapping leaves the PDO section open. -/
theorem coeLines_placed (sdo : SdoDump Error) (map : List MapLine) (current : DumpSection) :
    let pieces := dumpPieces ((SlaveMapping.coe sdo map).lines texts)
    (AllPlaced current pieces ↔ sdo.Plain texts ∧ PlainRows map) ∧
      (AllPlaced current pieces → sectionAfter current pieces = .pdo) := by
  have opens (current : DumpSection) := title_opens current
  have rows := mapLines_placed map
  have placed : AllPlaced current (dumpPieces ((SlaveMapping.coe sdo map).lines texts)) ↔
      sdo.Plain texts ∧ PlainRows map := by
    rw [SlaveMapping.lines, dumpPieces_append, dumpPieces_cons, allPlaced_append, allPlaced_append,
      sdoLines_placed, and_iff_right (opens _).1, (opens _).2, rows.1]
  refine ⟨placed, fun all => ?_⟩
  rw [SlaveMapping.lines, dumpPieces_append, dumpPieces_cons, sectionAfter_append,
    sectionAfter_append, (opens _).2]
  exact rows.2 (placed.mp all).2

theorem siiTitle_unmarked : Unmarked siiTitle.text := by
  intro piece member title
  have inside := fgetsAll_within member
  rcases title with sdo | pdo
  · exact absurd (sdo.trans inside) (by decide +kernel)
  · exact absurd (pdo.trans inside) (by decide +kernel)

theorem siiLine_text_ne_nil (line : Sii.SiiLine) : line.text ≠ [] := by
  have spaces : ascii "  SM" ≠ [] ∧ ascii "  " ≠ [] := by decide
  cases line with
  | heading syncM rxPdo index name => simp [Sii.SiiLine.text, spaces.1]
  | row row => simp [Sii.SiiLine.text, PdoRow.text, spaces.2]

theorem siiLine_misplaced (line : Sii.SiiLine) {current : DumpSection} (outside : current ≠ .pdo) :
    ¬ AllPlaced current line.line.pieces := by
  intro placed
  cases read : fgetsAll 1024 line.text with
  | nil =>
      have whole := fgetsAll_flatten 1024 line.text
      rw [read] at whole
      exact siiLine_text_ne_nil line whole.symm
  | cons piece pieces =>
      rw [DumpLine.pieces, Sii.SiiLine.line, read] at placed
      cases line with
      | heading syncM rxPdo index name => exact outside placed.1.1
      | row row => exact outside placed.1.1

/-- The first heading or row of an SII mapping is not copied. -/
theorem siiLines_placed (map : List Sii.SiiLine) {current : DumpSection}
    (outside : current ≠ .pdo) :
    let pieces := dumpPieces ((SlaveMapping.sii map : SlaveMapping Error).lines texts)
    (AllPlaced current pieces ↔ map = []) ∧
      (AllPlaced current pieces → sectionAfter current pieces = current) := by
  have stays := DumpLine.unmarked_stays _ siiTitle_unmarked current
  have titlePlaced := DumpLine.placed_other siiTitle rfl current
  simp only [SlaveMapping.lines]
  rw [dumpPieces_cons, allPlaced_append, and_iff_right titlePlaced, sectionAfter_append, stays]
  cases map with
  | nil => exact ⟨iff_of_true trivial rfl, fun _ => rfl⟩
  | cons line map =>
      have misplaced : ¬ AllPlaced current (dumpPieces ((line :: map).map Sii.SiiLine.line)) := by
        rw [List.map_cons, dumpPieces_cons, allPlaced_append]
        exact fun placed => siiLine_misplaced line outside placed.1
      exact ⟨iff_of_false misplaced (List.cons_ne_nil _ _), fun placed => absurd placed misplaced⟩

/-! ## The slaves one after another -/

/-- Only the last slave has a mapping that is read by CoE, and the slaves before it have none. -/
def Separable : List (SlaveDump Error) → Prop
  | [] => True
  | slave :: slaves =>
      slave.info.Nameable ∧
        match slave.mapping with
        | .coe sdo map => slaves = [] ∧ sdo.Plain texts ∧ PlainRows map
        | .sii map => map = [] ∧ Separable slaves

theorem blank_pieces : (DumpLine.mk .other [10]).pieces = [⟨.other, [10]⟩] := by
  decide

theorem blank_stays (current : DumpSection) :
    current.next [10] = current := by
  exact next_of_not_title (by decide) current

theorem dumpPieces_lines (slave : SlaveDump Error) (cnt : Nat) :
    dumpPieces (slave.lines texts cnt) = ⟨.other, [10]⟩ ::
      (dumpPieces (slave.headerLines cnt) ++ dumpPieces (slave.mapping.lines texts)) := by
  rw [SlaveDump.lines, List.cons_append, dumpPieces_cons, dumpPieces_append, blank_pieces]
  rfl

/-- A slave behind a CoE mapping has its header in `pdo.txt`. -/
theorem slaveLines_misplaced (cnt : Nat) (slave : SlaveDump Error) (slaves : List (SlaveDump Error)) :
    ¬ AllPlaced .pdo (dumpPieces (slaveLines texts cnt (slave :: slaves))) := by
  intro placed
  rw [slaveLines, dumpPieces_append, dumpPieces_lines, List.cons_append, List.append_assoc,
    AllPlaced, blank_stays, allPlaced_append] at placed
  exact slave.headerLines_pdo cnt placed.2.1

theorem slaveLines_placed (slaves : List (SlaveDump Error)) :
    ∀ cnt current, current ≠ .pdo →
      (AllPlaced current (dumpPieces (slaveLines texts cnt slaves)) ↔ Separable texts slaves) := by
  induction slaves with
  | nil => exact fun _ _ _ => Iff.rfl
  | cons slave slaves ih =>
      intro cnt current outside
      rw [slaveLines, dumpPieces_append, dumpPieces_lines, List.cons_append, List.append_assoc,
        AllPlaced, blank_stays, allPlaced_append, allPlaced_append, Separable]
      have blank : Placed current ⟨.other, [10]⟩ := trivial
      have header : AllPlaced current (dumpPieces (slave.headerLines cnt)) ↔
          slave.info.Nameable :=
        ⟨slave.nameable_of_placed cnt, fun nameable =>
          (slave.headerLines_placed cnt outside nameable).1⟩
      rw [and_iff_right blank, header]
      apply and_congr_right
      intro nameable
      have behind := (slave.headerLines_placed cnt outside nameable).2
      cases slave.mapping with
      | coe sdo map =>
          obtain ⟨placed, opens⟩ := coeLines_placed texts sdo map
            (sectionAfter current (dumpPieces (slave.headerLines cnt)))
          constructor
          · rintro ⟨mapping, later⟩
            rw [opens mapping] at later
            cases slaves with
            | nil => exact ⟨rfl, placed.mp mapping⟩
            | cons next slaves => exact absurd later (slaveLines_misplaced texts _ next slaves)
          · rintro ⟨rfl, plain⟩
            exact ⟨placed.mpr plain, trivial⟩
      | sii map =>
          obtain ⟨placed, stays⟩ := siiLines_placed texts map behind
          dsimp only
          rw [← placed]
          apply and_congr_right
          intro mapping
          rw [stays mapping]
          exact ih _ _ behind

/-! ## The lines around the slaves -/

theorem not_starts_of_absent {text : List UInt8} (absent : ¬ pdoMarker <:+: text) :
    ∀ piece ∈ fgetsAll 1024 text, ¬ StartsPdo piece :=
  fun _ member starts => absent (starts.1.trans (fgetsAll_within member))

theorem errorText_quiet (popped : Option (Raised Error)) :
    ∀ piece ∈ fgetsAll 1024 (texts.elist2string popped), ¬ StartsPdo piece := by
  cases popped with
  | none => exact fun piece member => absurd member List.not_mem_nil
  | some raised =>
      apply not_starts_of_absent
      intro inside
      have plain := texts.errorPlain raised.error pdoMarker (by simp [markers])
      exact plain (within_of_concat (by decide) inside)

/-- The title would start in the text of the status code. -/
theorem statusText_quiet (report : StateReport) :
    ∀ piece ∈ fgetsAll 1024 (report.text texts), ¬ StartsPdo piece := by
  apply not_starts_of_absent
  intro inside
  have newline : 10 ∉ pdoMarker := by decide
  obtain ⟨byte, inMarker, absent⟩ := texts.statusPlain report.statusCode
  have noP : 80 ∉ ascii "Slave " ++ decimal report.slave ++ ascii " State=" ++
      rightJustified 2 (lowerHex 1 report.state.toNat) ++ ascii " StatusCode=" ++
      rightJustified 4 (lowerHex 1 report.statusCode.toNat) ++ ascii " : " := by
    have foreign := noNumeral_letter 80 (by decide) (by decide)
    have padded (width value : Nat) :=
      absent_rightJustified (by decide) width (foreign.lowerHex 1 value)
    simp only [List.mem_append, not_or]
    exact ⟨⟨⟨⟨⟨⟨by decide, foreign.decimal _⟩, by decide⟩, padded _ _⟩, by decide⟩, padded _ _⟩,
      by decide⟩
  rw [StateReport.text, List.append_assoc] at inside
  have behind := within_of_behind noP inside
  exact absent (mem_of_within (within_of_concat newline behind) inMarker)

/-- No text before the slaves opens the PDO section. -/
theorem preamble_quiet (preamble : Preamble Error) :
    ∀ text ∈ preamble.texts texts, ∀ piece ∈ fgetsAll 1024 text, ¬ StartsPdo piece := by
  have noM (value : Int) : 109 ∉ decimal value := absent_decimal _ (by decide) value
  intro text member
  simp only [Preamble.texts, List.mem_append, List.mem_cons, List.not_mem_nil, or_false,
    List.mem_map] at member
  rcases member with (((rfl | rfl | rfl) | ⟨popped, -, rfl⟩) | rfl | rfl) | reports
  · exact not_startsPdo_of_absent (by decide)
  · exact not_startsPdo_of_absent (by decide)
  · exact not_startsPdo_of_absent (by decide)
  · exact errorText_quiet texts popped
  · apply not_startsPdo_of_absent
    left
    simp only [List.mem_append, not_or]
    exact ⟨noM _, by decide⟩
  · apply not_startsPdo_of_absent
    left
    simp only [List.mem_append, not_or]
    exact ⟨⟨by decide, noM _⟩, by decide⟩
  · split at reports
    · rcases List.mem_cons.mp reports with rfl | report
      · exact not_startsPdo_of_absent (by decide)
      · obtain ⟨slave, -, rfl⟩ := List.mem_map.mp report
        exact statusText_quiet texts slave
    · cases reports

theorem preamble_pieces (preamble : Preamble Error) :
    ∀ piece ∈ dumpPieces ((preamble.texts texts).map (⟨.other, ·⟩)),
      piece.kind = .other ∧ ¬ StartsPdo piece.text := by
  intro piece member
  obtain ⟨line, printed, read⟩ := List.mem_flatMap.mp member
  obtain ⟨text, before, rfl⟩ := List.mem_map.mp printed
  obtain ⟨part, inside, rfl⟩ := List.mem_map.mp read
  exact ⟨rfl, preamble_quiet texts preamble text before part inside⟩

theorem slaveinfo_placed (preamble : Preamble Error) (slaves : List (SlaveDump Error)) :
    AllPlaced .none (dumpPieces (slaveinfo texts preamble slaves)) ↔ Separable texts slaves := by
  obtain ⟨before, outside⟩ : AllPlaced .none
        (dumpPieces ((preamble.texts texts).map (⟨.other, ·⟩))) ∧
      sectionAfter .none (dumpPieces ((preamble.texts texts).map (⟨.other, ·⟩))) ≠ .pdo := by
    have each := preamble_pieces texts preamble
    exact quiet_placed (fun piece member => .inr (each piece member).1)
      (fun piece member => (each piece member).2) _ (by simp)
  have after (current : DumpSection) : AllPlaced current (dumpPieces [endLine]) :=
    otherLines_placed (by simp [endLine]) current
  rw [slaveinfo, dumpPieces_append, dumpPieces_append, allPlaced_append, allPlaced_append,
    and_iff_right before, and_iff_left (after _)]
  exact slaveLines_placed texts slaves 1 _ outside

/-! ## Every text ends with a line feed -/

theorem errorText_complete (popped : Option (Raised Error)) :
    Complete (texts.elist2string popped) := by
  cases popped with
  | none => exact .inl rfl
  | some raised => exact .inr ⟨_, rfl⟩

theorem preamble_complete (preamble : Preamble Error) :
    ∀ text ∈ preamble.texts texts, Complete text := by
  intro text member
  simp only [Preamble.texts, List.mem_append, List.mem_cons, List.not_mem_nil, or_false,
    List.mem_map] at member
  rcases member with (((rfl | rfl | rfl) | ⟨popped, -, rfl⟩) | rfl | rfl) | reports
  · exact complete_append [] (by decide)
  · exact complete_append [] (by decide)
  · exact complete_append [] (by decide)
  · exact errorText_complete texts popped
  · exact complete_append _ (by decide)
  · exact complete_append _ (by decide)
  · split at reports
    · rcases List.mem_cons.mp reports with rfl | report
      · exact complete_append [] (by decide)
      · obtain ⟨slave, -, rfl⟩ := List.mem_map.mp report
        exact complete_append _ (by decide)
    · cases reports

theorem sdoLine_complete (line : SdoLine Error) : Complete (line.text texts) := by
  cases line with
  | listError popped => exact errorText_complete texts popped
  | _ => exact complete_append _ (by decide)

theorem mapLine_complete (line : MapLine) : Complete line.text := by
  cases line with
  | title => exact complete_append [] (by decide)
  | workaround => exact complete_append [] (by decide)
  | heading iSM direction => exact complete_append _ (by decide)
  | row row => exact complete_append _ (by decide)

theorem siiLine_complete (line : Sii.SiiLine) : Complete line.text := by
  cases line with
  | heading syncM rxPdo index name => exact complete_append _ (by decide)
  | row row => exact complete_append _ (by decide)

theorem slave_complete (cnt : Nat) (slave : SlaveDump Error) :
    ∀ line ∈ slave.lines texts cnt, Complete line.text := by
  intro line member
  simp only [SlaveDump.lines, List.cons_append, List.mem_cons, List.mem_append] at member
  rcases member with rfl | header | mapping
  · exact .inr ⟨[], rfl⟩
  · obtain ⟨text, -, rfl⟩ := List.mem_map.mp header
    exact .inr ⟨text, rfl⟩
  · cases kind : slave.mapping with
    | coe sdo map =>
        simp only [kind, SlaveMapping.lines, List.mem_append, List.mem_cons] at mapping
        rcases mapping with dictionary | rfl | row
        · obtain ⟨line, -, rfl⟩ := List.mem_map.mp dictionary
          exact sdoLine_complete texts line
        · exact mapLine_complete .title
        · obtain ⟨line, -, rfl⟩ := List.mem_map.mp row
          exact mapLine_complete line
    | sii map =>
        simp only [kind, SlaveMapping.lines, List.mem_cons] at mapping
        rcases mapping with rfl | row
        · exact complete_append [] (by decide)
        · obtain ⟨line, -, rfl⟩ := List.mem_map.mp row
          exact siiLine_complete line

theorem slaveLines_complete (slaves : List (SlaveDump Error)) :
    ∀ cnt, ∀ line ∈ slaveLines texts cnt slaves, Complete line.text := by
  induction slaves with
  | nil => exact fun cnt line member => absurd member List.not_mem_nil
  | cons slave slaves ih =>
      intro cnt line member
      rcases List.mem_append.mp member with here | later
      · exact slave_complete texts cnt slave line here
      · exact ih _ line later

theorem slaveinfo_complete (preamble : Preamble Error) (slaves : List (SlaveDump Error)) :
    ∀ line ∈ slaveinfo texts preamble slaves, Complete line.text := by
  intro line member
  simp only [slaveinfo, List.mem_append, List.mem_map, List.mem_singleton] at member
  rcases member with (⟨text, before, rfl⟩ | slave) | rfl
  · exact preamble_complete texts preamble text before
  · exact slaveLines_complete texts slaves 1 line slave
  · exact complete_append [] (by decide)

/-- Every heading and row of a mapping comes into `pdo.txt` and every line of a dictionary into
`sdo.txt`, and nothing that does not belong there, just when the slaves are separable. -/
theorem rightly_filed_iff_separable (preamble : Preamble Error) (slaves : List (SlaveDump Error)) :
    let lines := slaveinfo texts preamble slaves
    saveSdoPdoToFile (dumpText lines) =
        ⟨dumpText (filedPieces lines).sdo, dumpText (filedPieces lines).pdo⟩ ∧
      (RightlyFiled (dumpPieces lines) (filedPieces lines) ↔ Separable texts slaves) := by
  constructor
  · exact saveSdoPdoToFile_eq (slaveinfo_complete texts preamble slaves)
  · exact (rightlyFiled_iff _ _).trans (slaveinfo_placed texts preamble slaves)

/-! ## Two drives -/

def silentTexts : MasterTexts Unit where
  errorText _ := ascii "Time:0 no error"
  statusText _ := ascii "No error"
  errorStart _ := ⟨ascii "0 no error", by decide⟩
  errorLine _ := by decide
  errorShort _ := by decide
  errorPlain _ := by decide
  statusPlain _ := by decide

def quietPreamble : Preamble Unit where
  errors := []
  slavecount := 2
  expectedWkc := 6
  notSafeOp := none

/-- A CoE slave with one output. -/
def drive : SlaveDump Unit where
  info :=
    { name := ascii "Drive"
      nameFits := by decide
      obits := 16
      ibits := 0
      state := 4
      pdelay := 0
      hasdc := false
      parentport := 0
      activeports := 1
      configadr := 0x1001
      eepMan := 0x1d
      eepId := 0x7b5a25
      eepRev := 0x10000
      sm := []
      fmmu := []
      fmmu0func := 1
      fmmu1func := 2
      fmmu2func := 3
      fmmu3func := 0
      mbxL := 512
      mbxRl := 512
      mbxProto := 4
      coeDetails := 0x0f
      foeDetails := 0
      eoeDetails := 0
      soeDetails := 0
      ebuscurrent := 0
      blockLrw := 0 }
  mapping := .coe (.listed 0 [] (by decide) (by simp))
    [.heading 2 .outputs,
      .row
        { absOffset := 0
          absBit := 0
          objIdx := 0x6040
          objSubidx := 0
          bitlen := 16
          description := some ⟨6, ascii "Controlword"⟩ }]

/-- The header of the second drive comes into `pdo.txt` behind the mapping of the first one. -/
theorem second_header_misfiled :
    let lines := slaveinfo silentTexts quietPreamble [drive, drive]
    (⟨.header, ascii "Slave:2\n"⟩ : DumpLine) ∈ (filedPieces lines).pdo ∧
      ¬ RightlyFiled (dumpPieces lines) (filedPieces lines) := by
  have misfiled : (⟨.header, ascii "Slave:2\n"⟩ : DumpLine) ∈
      (filedPieces (slaveinfo silentTexts quietPreamble [drive, drive])).pdo := by
    decide +kernel
  exact ⟨misfiled, fun right => right.noHeader _ misfiled rfl⟩

end WebserverEthercat

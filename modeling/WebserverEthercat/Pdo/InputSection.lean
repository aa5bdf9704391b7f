import WebserverEthercat.Pdo.Sections

/-!
# The section of the inputs

Behind the heading of SM3 inputs each reader takes the rows that it sees, and
skips the headings of higher sync managers and the last line of the dump.  Where
a header follows instead, the page takes its ` Man: .. ID: .. Rev: ..` for a row.
-/

set_option autoImplicit false

namespace WebserverEthercat

open CString Form WebText

variable {json : JsonC}

/-! ## Rows -/

/-- A row with a name that fits its array, without a text that a section is recognised by. -/
structure PlainRow (row : PdoRow) : Prop where
  low : 0 ≤ row.absBit
  high : row.absBit ≤ 7
  fits : ∀ description, row.description = some description → description.name.length ≤ 40
  text : PlainText row.text.dropLast
  noNul : 0 ∉ row.text

/-- A row, or the heading of a manager behind SM3. -/
def PlainLine : MapLine → Prop
  | .row row => PlainRow row
  | .heading iSM _ => 4 ≤ iSM.toNat ∧ iSM.toNat ≤ 8
  | _ => False

namespace PlainRow

variable {row : PdoRow} (plain : PlainRow row)

theorem text_concat (row : PdoRow) : row.text.dropLast ++ [10] = row.text := by
  rw [row.text_eq, List.dropLast_concat]

include plain in
theorem nameLine {description : Description} (described : row.description = some description) :
    10 ∉ description.name := by
  intro member
  obtain ⟨word, gap, behind, -⟩ := row.behind_described described
  apply plain.text.oneLine
  rw [row.text_eq, List.dropLast_concat, behind]
  simp [fromIndex, member]

include plain in
theorem server (inputValue : List UInt8 → Int) {reader : PdoReader json}
    (inside : reader.processLines = true) :
    reader.reads inputValue [row.text.dropLast] = some (if row.ServerSees then
      { reader with jsonObj := json.objectAdd reader.jsonObj row.indexSub (inputValue row.indexSub) }
    else reader) := by
  have short := row_length plain.low plain.high plain.fits
  have size := congrArg List.length (text_concat row)
  simp only [List.length_append, List.length_singleton] at size
  have holds : Holds (terminated (row.text.dropLast ++ [10])) row.text := by
    rw [text_concat]
    exact holds_terminated plain.noNul
  have within {trimmed : List UInt8}
      (trims : trimmedLine (terminated (row.text.dropLast ++ [10])) = some trimmed) :
      trimmed <:+: row.text.dropLast ++ [10] := by
    obtain ⟨other, same, inside⟩ := trimmedLine_terminated (row.text.dropLast ++ [10])
    rw [trims] at same
    rwa [Option.some.inj same]
  have noHeading {trimmed : List UInt8} (inside : trimmed <:+: row.text.dropLast ++ [10]) :
      ¬ inputsMarker <:+: trimmed := fun marked =>
    (noHeading_of_plain plain.text).inputs (within_of_concat (by decide) (marked.trans inside))
  by_cases sees : row.ServerSees
  · obtain ⟨description, described⟩ := PdoRow.described_of_serverSees sees
    have visible : ¬ ∀ byte ∈ row.named, isspace byte = true :=
      fun blank => PdoRow.not_serverSees.mpr blank sees
    obtain ⟨trimmed, trims, reads⟩ := serverReads_described described
      (plain.fits description described) (plain.nameLine described) visible holds
    have noTitle : ¬ ascii "addr b   index: sub bitl data_type    name" <:+: trimmed := by
      intro title
      have start : ascii "addr b" <:+: ascii "addr b   index: sub bitl data_type    name" := by
        decide
      exact plain.text.unmarked _ (by simp [markers])
        (within_of_concat (by decide) ((start.trans title).trans (within trims)))
    rw [PdoReader.reads_single inputValue plain.text.oneLine (by omega) trims,
      reads.line_eq inputValue (noHeading (within trims)) noTitle inside, if_pos sees]
  · obtain ⟨trimmed, trims, refuses⟩ := serverSkips sees holds
    rw [PdoReader.reads_single inputValue plain.text.oneLine (by omega) trims,
      PdoReader.line_skipped inputValue (noHeading (within trims)) (.inr (.inr refuses)),
      if_neg sees]

include plain in
theorem page {forms : PdoForms} (inside : forms.current = some .input) :
    (forms.reads [row.text.dropLast]).current = some .input ∧
      (forms.reads [row.text.dropLast]).inputs = if row.PageSees then
        forms.inputs ++ [row.indexSub.map UInt8.toNat] else forms.inputs := by
  have noHeading := noHeading_of_plain plain.text
  have noTitle : ¬ (characters "addr b" <:+: utf8Decode row.text.dropLast ∨
      characters "index: sub bitl" <:+: utf8Decode row.text.dropLast) := by
    have noAddress : ¬ ascii "addr b" <:+: row.text.dropLast :=
      plain.text.unmarked _ (by simp [markers])
    have noIndex : ¬ ascii "index: sub bitl" <:+: row.text.dropLast :=
      plain.text.unmarked _ (by simp [markers])
    rintro (title | title)
    · exact not_within_utf8Decode (by decide) noAddress title
    · exact not_within_utf8Decode (by decide) noIndex title
  rw [PdoForms.reads_single]
  by_cases sees : row.PageSees
  · obtain ⟨description, described⟩ := PdoRow.described_of_serverSees sees.serverSees
    have reads := pageReads_described described sees
    rw [if_pos sees]
    exact PdoForms.line_field noTitle noHeading.pageOutputs noHeading.pageInputs reads.field
      reads.indexSub inside
  · have few := pageSkips sees (holds_terminated plain.noNul)
    rw [if_neg sees, PdoForms.line_short noHeading.pageOutputs noHeading.pageInputs (.inr few)]
    exact ⟨inside, rfl⟩

end PlainRow

/-! ## Other lines behind the heading -/

/-- Neither reader makes anything of the line. -/
def Skipped (text : List UInt8) : Prop :=
  text.length + 1 < 256 ∧
    (∃ trimmed ∈ trimmedLine (terminated (text ++ [10])),
      ascii "addr b   index: sub bitl data_type    name" <:+: trimmed ∨ trimmed = [] ∨
        (sscanf trimmed nameFormat).result ≠ 1) ∧
    (characters "addr b" <:+: utf8Decode text ∨ ¬ 4 < (words (utf8Decode text)).length)

instance : DecidablePred Skipped := fun text =>
  inferInstanceAs (Decidable (text.length + 1 < 256 ∧
    (∃ trimmed ∈ trimmedLine (terminated (text ++ [10])),
      ascii "addr b   index: sub bitl data_type    name" <:+: trimmed ∨ trimmed = [] ∨
        (sscanf trimmed nameFormat).result ≠ 1) ∧
    (characters "addr b" <:+: utf8Decode text ∨ ¬ 4 < (words (utf8Decode text)).length)))

theorem heading_skipped {iSM : UInt8} (low : 4 ≤ iSM.toNat) (high : iSM.toNat ≤ 8)
    (direction : Direction) : ∀ text ∈ (MapLine.heading iSM direction).pdoLines, Skipped text := by
  obtain ⟨number, rfl, small⟩ : ∃ number, iSM = UInt8.ofNat number ∧ 4 ≤ number ∧ number ≤ 8 :=
    ⟨iSM.toNat, by simp, low, high⟩
  obtain ⟨low, high⟩ := small
  interval_cases number <;> cases direction <;> decide +kernel

namespace Skipped

variable {text : List UInt8} (skipped : Skipped text) (oneLine : 10 ∉ text)
  (noHeading : NoHeading text)

include skipped oneLine noHeading in
theorem server (inputValue : List UInt8 → Int) (reader : PdoReader json) :
    reader.reads inputValue [text] = some reader := by
  obtain ⟨short, ⟨trimmed, trims, passed⟩, -⟩ := skipped
  obtain ⟨other, same, inside⟩ := trimmedLine_terminated (text ++ [10])
  rw [trims] at same
  obtain rfl := Option.some.inj same
  have quiet : ¬ inputsMarker <:+: trimmed := fun marked =>
    noHeading.inputs (within_of_concat (by decide) (marked.trans inside))
  rw [PdoReader.reads_single inputValue oneLine short trims,
    PdoReader.line_skipped inputValue quiet passed]

include skipped noHeading in
theorem page (forms : PdoForms) : forms.reads [text] = forms := by
  rw [PdoForms.reads_single]
  exact PdoForms.line_short noHeading.pageOutputs noHeading.pageInputs skipped.2.2 forms

end Skipped

theorem heading_reads {iSM : UInt8} (low : 4 ≤ iSM.toNat) (high : iSM.toNat ≤ 8)
    (direction : Direction) (inputValue : List UInt8 → Int) (reader : PdoReader json) (forms : PdoForms) :
    reader.reads inputValue (MapLine.heading iSM direction).pdoLines = some reader ∧
      forms.reads (MapLine.heading iSM direction).pdoLines = forms := by
  have each := heading_skipped low high direction
  have oneLine := heading_oneLine iSM direction
  have noHeading := heading_noHeading low high direction
  generalize (MapLine.heading iSM direction).pdoLines = lines at each oneLine noHeading ⊢
  induction lines with
  | nil => exact ⟨rfl, rfl⟩
  | cons text lines ih =>
      have skipped := each text List.mem_cons_self
      have here := noHeading text List.mem_cons_self
      obtain ⟨serverLater, pageLater⟩ :=
        ih (fun other member => each other (List.mem_cons_of_mem _ member))
          (fun other member => oneLine other (List.mem_cons_of_mem _ member))
          (fun other member => noHeading other (List.mem_cons_of_mem _ member))
      have split : text :: lines = [text] ++ lines := rfl
      rw [split, PdoReader.reads_append, PdoForms.reads_append,
        skipped.server (oneLine text List.mem_cons_self) here, skipped.page here]
      exact ⟨serverLater, pageLater⟩

theorem PlainLine.noHeading {line : MapLine} (plain : PlainLine line) :
    ∀ text ∈ line.pdoLines, NoHeading text := by
  cases line with
  | title => exact plain.elim
  | workaround => exact plain.elim
  | heading iSM direction => exact heading_noHeading plain.1 plain.2 direction
  | row row =>
      intro text member
      rw [List.mem_singleton.mp member]
      exact noHeading_of_plain plain.text

/-! ## The section of the inputs -/

theorem server_line {line : MapLine} (plain : PlainLine line) (inputValue : List UInt8 → Int)
    {reader : PdoReader json} (inside : reader.processLines = true) :
    ∃ next, reader.reads inputValue line.pdoLines = some next ∧ next.processLines = true ∧
      ∀ key, key ∈ json.keys next.jsonObj ↔ key ∈ json.keys reader.jsonObj ∨
        ∃ row, line = .row row ∧ row.ServerSees ∧ row.indexSub = key := by
  cases line with
  | title => exact plain.elim
  | workaround => exact plain.elim
  | heading iSM direction =>
      have same := (heading_reads plain.1 plain.2 direction inputValue reader ⟨none, []⟩).1
      exact ⟨reader, same, inside, by simp⟩
  | row row =>
      refine ⟨_, PlainRow.server plain inputValue inside, ?_, fun key => ?_⟩
      · split <;> exact inside
      · by_cases sees : row.ServerSees
        · simp [sees, JsonC.mem_keys_objectAdd, eq_comm]
        · simp [sees]

theorem page_line {line : MapLine} (plain : PlainLine line) {forms : PdoForms}
    (inside : forms.current = some .input) :
    (forms.reads line.pdoLines).current = some .input ∧
      ∀ indexSub, indexSub ∈ (forms.reads line.pdoLines).inputs ↔ indexSub ∈ forms.inputs ∨
        ∃ row, line = .row row ∧ row.PageSees ∧ row.indexSub.map UInt8.toNat = indexSub := by
  cases line with
  | title => exact plain.elim
  | workaround => exact plain.elim
  | heading iSM direction =>
      have same := (heading_reads plain.1 plain.2 direction (fun _ => 0) ⟨false, JsonC.list.newObject⟩ forms).2
      rw [same]
      exact ⟨inside, by simp⟩
  | row row =>
      obtain ⟨stays, inputs⟩ := PlainRow.page plain inside
      refine ⟨stays, fun indexSub => ?_⟩
      rw [MapLine.pdoLines, inputs]
      by_cases sees : row.PageSees
      · simp [sees, eq_comm]
      · simp [sees]

theorem server_lines (inputValue : List UInt8 → Int) {lines : List MapLine}
    (plain : ∀ line ∈ lines, PlainLine line) :
    ∀ {reader : PdoReader json}, reader.processLines = true →
      ∃ next, reader.reads inputValue (lines.flatMap MapLine.pdoLines) = some next ∧
        next.processLines = true ∧
        ∀ key, key ∈ json.keys next.jsonObj ↔ key ∈ json.keys reader.jsonObj ∨
          ∃ row, .row row ∈ lines ∧ row.ServerSees ∧ row.indexSub = key := by
  induction lines with
  | nil => exact fun {reader} inside => ⟨reader, rfl, inside, by simp⟩
  | cons line lines ih =>
      intro reader inside
      obtain ⟨next, first, goesOn, keys⟩ :=
        server_line (plain line List.mem_cons_self) inputValue inside
      obtain ⟨last, later, ends, keysLater⟩ :=
        ih (fun other member => plain other (List.mem_cons_of_mem _ member)) goesOn
      refine ⟨last, ?_, ends, fun key => ?_⟩
      · rw [List.flatMap_cons, PdoReader.reads_append, first]
        exact later
      · rw [keysLater, keys, or_assoc]
        simp only [List.mem_cons, or_and_right, exists_or, eq_comm]

theorem page_lines {lines : List MapLine} (plain : ∀ line ∈ lines, PlainLine line) :
    ∀ {forms : PdoForms}, forms.current = some .input →
      (forms.reads (lines.flatMap MapLine.pdoLines)).current = some .input ∧
        ∀ indexSub, indexSub ∈ (forms.reads (lines.flatMap MapLine.pdoLines)).inputs ↔
          indexSub ∈ forms.inputs ∨
            ∃ row, .row row ∈ lines ∧ row.PageSees ∧ row.indexSub.map UInt8.toNat = indexSub := by
  induction lines with
  | nil => exact fun inside => ⟨inside, by simp [PdoForms.reads]⟩
  | cons line lines ih =>
      intro forms inside
      obtain ⟨stays, inputs⟩ := page_line (plain line List.mem_cons_self) inside
      obtain ⟨ends, inputsLater⟩ :=
        ih (fun other member => plain other (List.mem_cons_of_mem _ member)) stays
      rw [List.flatMap_cons, PdoForms.reads_append]
      refine ⟨ends, fun indexSub => ?_⟩
      rw [inputsLater, inputs, or_assoc]
      simp only [List.mem_cons, or_and_right, exists_or, eq_comm]

theorem inputsHeading_reads (inputValue : List UInt8 → Int) (reader : PdoReader json)
    (forms : PdoForms) :
    reader.reads inputValue inputsHeading.pdoLines = some { reader with processLines := true } ∧
      forms.reads inputsHeading.pdoLines = { forms with current := some .input } := by
  have lines : inputsHeading.pdoLines = [ascii "  SM3 inputs"] ++ [columnTitles.dropLast] := by
    decide +kernel
  have titles : Skipped columnTitles.dropLast := by decide +kernel
  have titlesLine : 10 ∉ columnTitles.dropLast := by decide
  have titlesHeading : NoHeading columnTitles.dropLast := ⟨by decide, by decide⟩
  have trims : trimmedLine (terminated (ascii "  SM3 inputs" ++ [10])) = some inputsMarker := by
    decide +kernel
  have characters : words (utf8Decode (ascii "  SM3 inputs")) ≠ [] ∧
      ¬ (characters "addr b" <:+: utf8Decode (ascii "  SM3 inputs") ∨
        characters "index: sub bitl" <:+: utf8Decode (ascii "  SM3 inputs")) ∧
      ¬ characters "SM2 outputs" <:+: utf8Decode (ascii "  SM3 inputs") ∧
      characters "SM3 inputs" <:+: utf8Decode (ascii "  SM3 inputs") := by decide +kernel
  obtain ⟨visible, noTitle, noOutputs, heading⟩ := characters
  rw [lines]
  constructor
  · rw [PdoReader.reads_append,
      PdoReader.reads_single inputValue (by decide) (by decide) trims,
      PdoReader.line_inputs inputValue (List.infix_refl _)]
    exact titles.server titlesLine titlesHeading inputValue _
  · rw [PdoForms.reads_append, titles.page titlesHeading, PdoForms.reads_single,
      PdoForms.line_inputs visible noTitle noOutputs heading]

theorem ending_reads (inputValue : List UInt8 → Int) (reader : PdoReader json) (forms : PdoForms) :
    reader.reads inputValue [ascii "End slaveinfo, close socket"] = some reader ∧
      forms.reads [ascii "End slaveinfo, close socket"] = forms := by
  have skipped : Skipped (ascii "End slaveinfo, close socket") := by decide +kernel
  have noHeading : NoHeading (ascii "End slaveinfo, close socket") :=
    ⟨by decide +kernel, by decide +kernel⟩
  exact ⟨skipped.server (by decide) noHeading inputValue reader, skipped.page noHeading forms⟩

/-- What both readers have at the end, when the heading comes once. -/
theorem readers_at_heading (inputValue : List UInt8 → Int) {before : List (List UInt8)}
    (quiet : ∀ text ∈ before, ¬ inputsMarker <:+: text) {after : List MapLine}
    (plain : ∀ line ∈ after, PlainLine line) {file : List (List UInt8)}
    (split : file = before ++ (inputsHeading.pdoLines ++ (after.flatMap MapLine.pdoLines ++
      [ascii "End slaveinfo, close socket"]))) :
    ∃ reader, PdoReader.reads inputValue ⟨false, json.newObject⟩ file = some reader ∧
      (∀ key, key ∈ json.keys reader.jsonObj ↔
        ∃ row, .row row ∈ after ∧ row.ServerSees ∧ row.indexSub = key) ∧
      ∀ indexSub, indexSub ∈ (PdoForms.reads ⟨none, []⟩ file).inputs ↔
        ∃ row, .row row ∈ after ∧ row.PageSees ∧ row.indexSub.map UInt8.toNat = indexSub := by
  obtain ⟨reader, run, -, keys⟩ := server_lines inputValue plain
    (show (PdoReader.mk true json.newObject).processLines = true from rfl)
  refine ⟨reader, ?_, fun key => ?_, fun indexSub => ?_⟩
  · rw [split, PdoReader.reads_append, PdoReader.reads_before inputValue quiet rfl,
      Option.bind_some, PdoReader.reads_append,
      (inputsHeading_reads inputValue _ ⟨none, []⟩).1, Option.bind_some, PdoReader.reads_append,
      run, Option.bind_some, (ending_reads inputValue reader ⟨none, []⟩).1]
  · rw [keys]
    simp
  · obtain ⟨-, nothing⟩ := PdoForms.reads_outside quiet
      (show (PdoForms.mk none []).current ≠ some .input by simp)
    rw [split, PdoForms.reads_append]
    generalize PdoForms.reads ⟨none, []⟩ before = forms at nothing ⊢
    obtain ⟨-, inputs⟩ := @page_lines after plain { forms with current := some .input } rfl
    have same : PdoForms.inputs { forms with current := some .input } = forms.inputs := rfl
    rw [PdoForms.reads_append, (inputsHeading_reads inputValue ⟨false, JsonC.list.newObject⟩ _).2,
      PdoForms.reads_append, (ending_reads inputValue ⟨false, JsonC.list.newObject⟩ _).2, inputs, same, nothing]
    simp [PdoForms.inputs]

/-! ## The header of the next slave -/

namespace SlaveInfo

variable (info : SlaveInfo)

end SlaveInfo

end WebserverEthercat

import WebserverEthercat.Dump.Slaveinfo

/-!
# `sdo.txt` and `pdo.txt`

`save_sdo_pdo_to_file` reads the dump in pieces of at most 1023 bytes and copies
them into one of two files, or none.  Only the titles of a CoE slave change the
file: a header and the title of an SII mapping do not, so that a dump is taken
apart rightly only when its first CoE slave is the last slave, and no SII slave
before it has a PDO.
-/

set_option autoImplicit false

namespace WebserverEthercat

open CString

/-- `in_sdo_section` and `in_pdo_section`, of which at most one is true. -/
inductive DumpSection where
  | none
  | sdo
  | pdo
deriving DecidableEq, Repr

namespace DumpSection

/-- The line is a title, and is not copied. -/
def IsTitle (line : List UInt8) : Prop := sdoMarker <:+: line ∨ pdoMarker <:+: line

instance (line : List UInt8) : Decidable (IsTitle line) := inferInstanceAs (Decidable (_ ∨ _))

/-- The third test of the loop repeats the second one and is never reached. -/
def next (current : DumpSection) (line : List UInt8) : DumpSection :=
  if sdoMarker <:+: line then sdo else if pdoMarker <:+: line then pdo else current

end DumpSection

structure Filed (Line : Type) where
  sdo : List Line
  pdo : List Line

/-- The loop over the lines, each of which has a text. -/
def fileLines {Line : Type} (text : Line → List UInt8) : DumpSection → List Line → Filed Line
  | _, [] => ⟨[], []⟩
  | current, line :: lines =>
      let later := fileLines text (current.next (text line)) lines
      if DumpSection.IsTitle (text line) then later
      else
        ⟨if current = .sdo then line :: later.sdo else later.sdo,
          if current = .pdo then line :: later.pdo else later.pdo⟩

def saveSdoPdoToFile (input : List UInt8) : Filed UInt8 :=
  let filed := fileLines id .none (fgetsAll 1024 input)
  ⟨filed.sdo.flatten, filed.pdo.flatten⟩

/-! ## Following the lines of a dump -/

namespace DumpLine

def pieces (line : DumpLine) : List DumpLine := (fgetsAll 1024 line.text).map (⟨line.kind, ·⟩)

def isMapping (piece : DumpLine) : Bool := piece.kind = .heading ∨ piece.kind = .row

def isDictionary (piece : DumpLine) : Bool := piece.kind = .dictionary

end DumpLine

def dumpText (lines : List DumpLine) : List UInt8 := (lines.map (·.text)).flatten

def dumpPieces (lines : List DumpLine) : List DumpLine := lines.flatMap DumpLine.pieces

def filedPieces (lines : List DumpLine) : Filed DumpLine :=
  fileLines DumpLine.text .none (dumpPieces lines)

theorem fileLines_map {Line Other : Type} (text : Other → List UInt8) (view : Line → Other)
    (lines : List Line) :
    ∀ current, fileLines text current (lines.map view) =
      ⟨(fileLines (text ∘ view) current lines).sdo.map view,
        (fileLines (text ∘ view) current lines).pdo.map view⟩ := by
  induction lines with
  | nil => exact fun _ => rfl
  | cons line lines ih =>
      intro current
      simp only [List.map_cons, fileLines, ih, Function.comp_apply]
      split
      · rfl
      · split <;> split <;> rfl

theorem dumpPieces_texts {lines : List DumpLine} (complete : ∀ line ∈ lines, Complete line.text) :
    (dumpPieces lines).map (·.text) = fgetsAll 1024 (dumpText lines) := by
  rw [dumpText, fgetsAll_flatMap (by simpa using complete), dumpPieces, List.map_flatMap,
    List.flatMap_map]
  simp [DumpLine.pieces, Function.comp_def]

/-- The files hold the texts of the filed pieces. -/
theorem saveSdoPdoToFile_eq {lines : List DumpLine}
    (complete : ∀ line ∈ lines, Complete line.text) :
    saveSdoPdoToFile (dumpText lines) =
      ⟨dumpText (filedPieces lines).sdo, dumpText (filedPieces lines).pdo⟩ := by
  rw [saveSdoPdoToFile, ← dumpPieces_texts complete, fileLines_map]
  rfl

/-- Every heading and row of a mapping is in `pdo.txt`, in order, and no header line; every line
of an object dictionary is in `sdo.txt`, and no row. -/
structure RightlyFiled (pieces : List DumpLine) (filed : Filed DumpLine) : Prop where
  mapping : filed.pdo.filter DumpLine.isMapping = pieces.filter DumpLine.isMapping
  noHeader : ∀ piece ∈ filed.pdo, piece.kind ≠ .header
  dictionary : filed.sdo.filter DumpLine.isDictionary = pieces.filter DumpLine.isDictionary
  noRow : ∀ piece ∈ filed.sdo, piece.kind ≠ .row

/-- A piece that is read in a section comes where it belongs. -/
def Placed (current : DumpSection) (piece : DumpLine) : Prop :=
  match piece.kind with
  | .header => current = .pdo → DumpSection.IsTitle piece.text
  | .dictionary => current = .sdo ∧ ¬ DumpSection.IsTitle piece.text
  | .heading | .row => current = .pdo ∧ ¬ DumpSection.IsTitle piece.text
  | .other => True

def AllPlaced : DumpSection → List DumpLine → Prop
  | _, [] => True
  | current, piece :: pieces =>
      Placed current piece ∧ AllPlaced (current.next piece.text) pieces

def sectionAfter (current : DumpSection) (pieces : List DumpLine) : DumpSection :=
  pieces.foldl (fun current piece => current.next piece.text) current

theorem allPlaced_append (pieces later : List DumpLine) :
    ∀ current, AllPlaced current (pieces ++ later) ↔
      AllPlaced current pieces ∧ AllPlaced (sectionAfter current pieces) later := by
  induction pieces with
  | nil => simp [AllPlaced, sectionAfter]
  | cons piece pieces ih =>
      intro current
      simp only [List.cons_append, AllPlaced, ih, sectionAfter, List.foldl_cons, and_assoc]

theorem sectionAfter_append (current : DumpSection) (pieces later : List DumpLine) :
    sectionAfter current (pieces ++ later) = sectionAfter (sectionAfter current pieces) later :=
  List.foldl_append

theorem fileLines_sublist (pieces : List DumpLine) :
    ∀ current, (fileLines DumpLine.text current pieces).sdo.Sublist pieces ∧
      (fileLines DumpLine.text current pieces).pdo.Sublist pieces := by
  induction pieces with
  | nil => exact fun _ => ⟨.slnil, .slnil⟩
  | cons piece pieces ih =>
      intro current
      obtain ⟨sdo, pdo⟩ := ih (current.next piece.text)
      rw [fileLines]
      split
      · exact ⟨sdo.cons _, pdo.cons _⟩
      · constructor
        · dsimp only
          split
          · exact sdo.cons_cons _
          · exact sdo.cons _
        · dsimp only
          split
          · exact pdo.cons_cons _
          · exact pdo.cons _

theorem fileLines_cons (current : DumpSection) (piece : DumpLine) (pieces : List DumpLine) :
    let later := fileLines DumpLine.text (current.next piece.text) pieces
    (fileLines DumpLine.text current (piece :: pieces)).sdo =
        (if current = .sdo ∧ ¬ DumpSection.IsTitle piece.text then piece :: later.sdo
        else later.sdo) ∧
      (fileLines DumpLine.text current (piece :: pieces)).pdo =
        if current = .pdo ∧ ¬ DumpSection.IsTitle piece.text then piece :: later.pdo
        else later.pdo := by
  by_cases title : DumpSection.IsTitle piece.text <;> simp [fileLines, title]

theorem filter_kept_iff {Line : Type} {kind : Line → Bool} {line : Line} {kept all : List Line}
    {copied : Prop} [Decidable copied] (sublist : kept.Sublist all) :
    (if copied then line :: kept else kept).filter kind = (line :: all).filter kind ↔
      (kind line = true → copied) ∧ kept.filter kind = all.filter kind := by
  by_cases copies : copied
  · by_cases matching : kind line <;> simp [copies, matching]
  · by_cases matching : kind line
    · have shorter := (sublist.filter kind).length_le
      have differ : kept.filter kind ≠ line :: all.filter kind := by
        intro same
        rw [same, List.length_cons] at shorter
        omega
      simp [copies, matching, differ]
    · simp [copies, matching]

theorem forall_kept_iff {Line : Type} {holds : Line → Prop} {line : Line} {kept : List Line}
    {copied : Prop} [Decidable copied] :
    (∀ other ∈ if copied then line :: kept else kept, holds other) ↔
      (copied → holds line) ∧ ∀ other ∈ kept, holds other := by
  by_cases copies : copied <;> simp [copies]

theorem placed_iff (current : DumpSection) (piece : DumpLine) :
    Placed current piece ↔
      (piece.isMapping = true → current = .pdo ∧ ¬ DumpSection.IsTitle piece.text) ∧
      (current = .pdo ∧ ¬ DumpSection.IsTitle piece.text → piece.kind ≠ .header) ∧
      (piece.isDictionary = true → current = .sdo ∧ ¬ DumpSection.IsTitle piece.text) ∧
      (current = .sdo ∧ ¬ DumpSection.IsTitle piece.text → piece.kind ≠ .row) := by
  cases kind : piece.kind with
  | header => simp [Placed, DumpLine.isMapping, DumpLine.isDictionary, kind]
  | dictionary => simp [Placed, DumpLine.isMapping, DumpLine.isDictionary, kind]
  | heading => simp [Placed, DumpLine.isMapping, DumpLine.isDictionary, kind]
  | row =>
      simp only [Placed, DumpLine.isMapping, DumpLine.isDictionary, kind]
      cases current <;> simp
  | other => simp [Placed, DumpLine.isMapping, DumpLine.isDictionary, kind]

theorem rightlyFiled_iff (pieces : List DumpLine) :
    ∀ current, RightlyFiled pieces (fileLines DumpLine.text current pieces) ↔
      AllPlaced current pieces := by
  induction pieces with
  | nil =>
      intro current
      exact ⟨fun _ => trivial, fun _ => ⟨rfl, by simp [fileLines], rfl, by simp [fileLines]⟩⟩
  | cons piece pieces ih =>
      intro current
      obtain ⟨sdo, pdo⟩ := fileLines_cons current piece pieces
      obtain ⟨sdoSublist, pdoSublist⟩ := fileLines_sublist pieces (current.next piece.text)
      rw [AllPlaced, ← ih, placed_iff]
      constructor
      · intro ⟨mapping, noHeader, dictionary, noRow⟩
        rw [pdo] at mapping noHeader
        rw [sdo] at dictionary noRow
        obtain ⟨mappingHere, mappingLater⟩ := (filter_kept_iff pdoSublist).mp mapping
        obtain ⟨headerHere, headerLater⟩ := forall_kept_iff.mp noHeader
        obtain ⟨dictionaryHere, dictionaryLater⟩ := (filter_kept_iff sdoSublist).mp dictionary
        obtain ⟨rowHere, rowLater⟩ := forall_kept_iff.mp noRow
        exact ⟨⟨mappingHere, headerHere, dictionaryHere, rowHere⟩,
          ⟨mappingLater, headerLater, dictionaryLater, rowLater⟩⟩
      · intro ⟨⟨mappingHere, headerHere, dictionaryHere, rowHere⟩,
          ⟨mappingLater, headerLater, dictionaryLater, rowLater⟩⟩
        refine ⟨?_, ?_, ?_, ?_⟩
        · rw [pdo]
          exact (filter_kept_iff pdoSublist).mpr ⟨mappingHere, mappingLater⟩
        · rw [pdo]
          exact forall_kept_iff.mpr ⟨headerHere, headerLater⟩
        · rw [sdo]
          exact (filter_kept_iff sdoSublist).mpr ⟨dictionaryHere, dictionaryLater⟩
        · rw [sdo]
          exact forall_kept_iff.mpr ⟨rowHere, rowLater⟩

end WebserverEthercat

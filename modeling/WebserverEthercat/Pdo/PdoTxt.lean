import WebserverEthercat.Dump.CoeLines
import WebserverEthercat.Dump.RightlyFiled

/-!
# `pdo.txt` of a network of CoE slaves

The mapping of the first slave opens the PDO section.  From there on everything
but the titles and the dictionaries is copied, and so are the headers of the
other slaves and the last line of the dump.
-/

set_option autoImplicit false

namespace WebserverEthercat

open CString

/-! ## Following the copied text -/

/-- What some lines leave in `pdo.txt`, and the section behind them. -/
structure Copies (current : DumpSection) (lines : List DumpLine) (text : List UInt8)
    (next : DumpSection) : Prop where
  copied : dumpText (fileLines DumpLine.text current (dumpPieces lines)).pdo = text
  behind : sectionAfter current (dumpPieces lines) = next

theorem fileLines_append (pieces later : List DumpLine) :
    ∀ current, (fileLines DumpLine.text current (pieces ++ later)).pdo =
      (fileLines DumpLine.text current pieces).pdo ++
        (fileLines DumpLine.text (sectionAfter current pieces) later).pdo := by
  induction pieces with
  | nil => exact fun _ => rfl
  | cons piece pieces ih =>
      intro current
      have after : sectionAfter current (piece :: pieces) =
          sectionAfter (current.next piece.text) pieces := rfl
      rw [List.cons_append, (fileLines_cons ..).2, (fileLines_cons ..).2, ih, after]
      split <;> rfl

theorem dumpText_append (lines later : List DumpLine) :
    dumpText (lines ++ later) = dumpText lines ++ dumpText later := by
  simp [dumpText]

namespace Copies

variable {current next last : DumpSection} {lines later : List DumpLine} {text more : List UInt8}

theorem nil (current : DumpSection) : Copies current [] [] current := ⟨rfl, rfl⟩

theorem append (first : Copies current lines text next) (second : Copies next later more last) :
    Copies current (lines ++ later) (text ++ more) last := by
  constructor
  · rw [dumpPieces_append, fileLines_append, dumpText_append, first.behind, first.copied,
      second.copied]
  · rw [dumpPieces_append, sectionAfter_append, first.behind, second.behind]

theorem cons {line : DumpLine} (first : Copies current [line] text next)
    (second : Copies next later more last) : Copies current (line :: later) (text ++ more) last :=
  first.append second

theorem unmarked {line : DumpLine} (plain : Unmarked line.text) (current : DumpSection) :
    Copies current [line] (if current = .pdo then line.text else []) current := by
  have pieces : dumpPieces [line] = line.pieces := by simp [dumpPieces]
  have each (texts : List (List UInt8)) (plain : ∀ text ∈ texts, ¬ DumpSection.IsTitle text) :
      dumpText (fileLines DumpLine.text current (texts.map fun text => ⟨line.kind, text⟩)).pdo =
        if current = .pdo then texts.flatten else [] := by
    induction texts with
    | nil => simp [fileLines, dumpText]
    | cons text texts ih =>
        have here := plain text List.mem_cons_self
        have later := ih fun other member => plain other (List.mem_cons_of_mem _ member)
        rw [List.map_cons, (fileLines_cons ..).2, next_of_not_title here]
        by_cases inside : current = .pdo
        · simp only [inside, if_true] at later
          simp [inside, here, dumpText] at later ⊢
          exact later
        · simpa [inside] using later
  constructor
  · rw [pieces, DumpLine.pieces, each _ plain, fgetsAll_flatten]
  · rw [pieces]
    exact line.unmarked_stays plain current

/-- A title that is read in one piece is not copied. -/
theorem marked {line : DumpLine} (single : line.pieces = [line])
    (title : DumpSection.IsTitle line.text) (opens : sectionAfter current line.pieces = next) :
    Copies current [line] [] next := by
  have pieces : dumpPieces [line] = [line] := by simp [dumpPieces, single]
  constructor
  · rw [pieces, (fileLines_cons ..).2]
    simp [title, fileLines, dumpText]
  · rw [pieces, ← single]
    exact opens

theorem title (current : DumpSection) : Copies current [MapLine.title.line] [] .pdo := by
  apply marked title_pieces _ (title_opens current).2
  right
  exact ⟨[], ascii " :\n", by decide⟩

theorem found {Error : Type} (texts : MasterTexts Error) {entries : Nat}
    (few : entries ≤ ecMaxOdList) (current : DumpSection) :
    Copies current [(SdoLine.found entries : SdoLine Error).line texts] [] .sdo := by
  apply marked (found_pieces texts few) _ (found_opens texts few current).2
  left
  exact found_marker texts entries

end Copies

/-! ## The slaves -/

/-- A slave whose PDOs are read by CoE.  The names of its objects are in arrays of
`EC_MAXNAME + 1` bytes. -/
structure CoeRun (Error : Type) where
  info : SlaveInfo
  sdo : SdoDump Error
  slave : CoeSlave
  placement : Placement
  namesFit : ∀ index subindex description,
    slave.objectEntry index subindex = some description → description.name.length ≤ 40
  mapped : MapWalk
  returned : siMapSdo slave placement = some mapped

/-- A text on one line in which no section is recognised. -/
structure PlainText (text : List UInt8) : Prop where
  oneLine : 10 ∉ text
  unmarked : ∀ marker ∈ markers, ¬ marker <:+: text

def joined (lines : List (List UInt8)) : List UInt8 := lines.flatMap (· ++ [10])

theorem joined_append (lines later : List (List UInt8)) :
    joined (lines ++ later) = joined lines ++ joined later :=
  List.flatMap_append

def MapLine.pdoLines : MapLine → List (List UInt8)
  | title => []
  | workaround => [ascii "Activated SM type workaround, possible incorrect mapping."]
  | heading iSM .outputs =>
      [ascii "  SM" ++ decimal iSM.toNat ++ ascii " outputs", columnTitles.dropLast]
  | heading iSM .inputs =>
      [ascii "  SM" ++ decimal iSM.toNat ++ ascii " inputs", columnTitles.dropLast]
  | row printed => [printed.text.dropLast]

namespace CoeRun

variable {Error : Type} (texts : MasterTexts Error)

/-- The mapping behind its title. -/
def map (run : CoeRun Error) : List MapLine := run.mapped.printed.tail

def dump (run : CoeRun Error) : SlaveDump Error := ⟨run.info, .coe run.sdo run.map⟩

/-- No name or value of the slave has a line feed or a text that a section is recognised by. -/
structure Plain (run : CoeRun Error) : Prop where
  name : PlainText run.info.nameLine
  dictionary : run.sdo.Plain texts
  rows : ∀ row, .row row ∈ run.map → PlainText row.text.dropLast ∧ 0 ∉ row.text

def mapLines (run : CoeRun Error) : List (List UInt8) := run.map.flatMap MapLine.pdoLines

def errorLines (run : CoeRun Error) : List (List UInt8) :=
  match run.sdo with
  | .listed .. => []
  | .notListed errors => errors.flatMap fun popped => (popped.map (texts.errorText ·.error)).toList

/-- The lines that the slaves behind the first one leave, and the last line of the dump. -/
def laterLines : Nat → List (CoeRun Error) → List (List UInt8)
  | _, [] => [ascii "End slaveinfo, close socket"]
  | cnt, run :: runs =>
      [] :: run.info.header cnt ++ run.errorLines texts ++ run.mapLines ++ laterLines (cnt + 1) runs

def pdoLines : List (CoeRun Error) → List (List UInt8)
  | [] => []
  | run :: runs => run.mapLines ++ laterLines texts 2 runs

theorem map_eq (run : CoeRun Error) :
    run.map = dumpLines run.slave run.placement (fun _ => 0) (dumpedManagers run.slave) := by
  rw [map, siMapSdo_returned run.returned]
  rfl

theorem printed (run : CoeRun Error) :
    ∀ line ∈ run.map, ∃ iSM : UInt8, 2 ≤ iSM.toNat ∧ iSM.toNat ≤ 8 ∧
      PrintedFor run.slave iSM line := by
  rw [map_eq]
  intro line member
  obtain ⟨iSM, inside, printed⟩ := dumpLines_printed _ _ _ (fun _ => le_refl 0) line member
  rw [dumpedManagers_eq, mem_syncManagers (Nat.min_le_right _ _)] at inside
  exact ⟨iSM, inside.1, inside.2.trans (Nat.min_le_right _ _), printed⟩

end CoeRun

/-! ## The file -/

theorem MapLine.text_eq {line : MapLine} (noTitle : line ≠ .title) :
    line.text = joined line.pdoLines := by
  have newline : ascii "\n" = [10] := by decide
  have columns : columnTitles.dropLast ++ [10] = columnTitles := by decide
  cases line with
  | title => exact absurd rfl noTitle
  | workaround => decide +kernel
  | heading iSM direction =>
      cases direction with
      | outputs =>
          have ending : ascii " outputs\n" = ascii " outputs" ++ [10] := by decide
          simp [MapLine.text, MapLine.pdoLines, joined, ending, columns]
      | inputs =>
          have ending : ascii " inputs\n" = ascii " inputs" ++ [10] := by decide
          simp [MapLine.text, MapLine.pdoLines, joined, ending, columns]
  | row row =>
      simp only [MapLine.text, MapLine.pdoLines, joined, List.flatMap_cons, List.flatMap_nil,
        List.append_nil, PdoRow.text, newline, List.dropLast_concat]

namespace CoeRun

variable {Error : Type} {texts : MasterTexts Error} {run : CoeRun Error} {runs : List (CoeRun Error)}

end CoeRun

namespace CoeRun

variable {Error : Type} {texts : MasterTexts Error} {run : CoeRun Error} {runs : List (CoeRun Error)}

end CoeRun

end WebserverEthercat

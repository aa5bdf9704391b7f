import WebserverEthercat.Lib.Fgets
import WebserverEthercat.Pdo.RowRoundTrip

/-!
# The answer to `/pdo.json`

The server reads `pdo.txt` line by line and reports a value for each row that it
can read behind the heading of SM3.  The flag that this heading sets is never
cleared.
-/

set_option autoImplicit false

namespace WebserverEthercat

open CString Form

def inputsMarker : List UInt8 := ascii "SM3 inputs"

/-- What the server uses of json-c: `json_object_new_object`, `json_object_object_add` with an `int`,
and the keys and values that an object shows in the end. -/
structure JsonC where
  Object : Type
  newObject : Object
  objectAdd : Object → List UInt8 → Int → Object
  entries : Object → List (List UInt8 × Int)
  entries_newObject : entries newObject = []
  /-- A key that is there gets the new value. -/
  mem_entries_objectAdd : ∀ jsonObj key value entry,
    entry ∈ entries (objectAdd jsonObj key value) ↔
      entry = (key, value) ∨ entry.1 ≠ key ∧ entry ∈ entries jsonObj

namespace JsonC

variable {json : JsonC}

def keys (json : JsonC) (jsonObj : json.Object) : List (List UInt8) :=
  (json.entries jsonObj).map Prod.fst

@[simp] theorem keys_newObject : json.keys json.newObject = [] := by
  simp [keys, json.entries_newObject]

theorem mem_keys_objectAdd (jsonObj : json.Object) (key : List UInt8) (value : Int)
    (other : List UInt8) :
    other ∈ json.keys (json.objectAdd jsonObj key value) ↔ other ∈ json.keys jsonObj ∨ other = key := by
  simp only [keys, List.mem_map, json.mem_entries_objectAdd]
  constructor
  · rintro ⟨entry, rfl | ⟨-, inside⟩, rfl⟩
    · exact .inr rfl
    · exact .inl ⟨entry, inside, rfl⟩
  · by_cases same : other = key
    · exact fun _ => ⟨(key, value), .inl rfl, same.symm⟩
    · rintro (⟨entry, inside, rfl⟩ | equal)
      · exact ⟨entry, .inr ⟨same, inside⟩, rfl⟩
      · exact absurd equal same

/-- An object as the list of its keys and values. -/
def list : JsonC where
  Object := List (List UInt8 × Int)
  newObject := []
  objectAdd jsonObj key value := jsonObj.filter (·.1 ≠ key) ++ [(key, value)]
  entries := id
  entries_newObject := rfl
  mem_entries_objectAdd jsonObj key value entry := by
    simp [or_comm, and_comm]

end JsonC

/-- What the server makes of a line behind the heading. -/
inductive RowRead where
  | skipped
  /-- `data_type` or `index_sub` is too short for it -/
  | overflow
  | row (indexSub : List UInt8)
deriving DecidableEq, Repr

def rowRead (trimmed : List UInt8) : RowRead :=
  if ascii "addr b   index: sub bitl data_type    name" <:+: trimmed ∨ trimmed = [] then .skipped
  else if (sscanf trimmed nameFormat).result ≠ 1 then .skipped
  else if trimmed.head? = some 91 then
    match sscanf trimmed rowFormat with
    | ⟨4, [.number index, .number subindex, .text dataType, .text _]⟩ =>
        let indexSub := indexSubText index subindex
        if dataType.length < 32 ∧ indexSub.length < 16 then .row indexSub else .overflow
    | _ => .skipped
  else .skipped

structure PdoReader (json : JsonC) where
  processLines : Bool
  jsonObj : json.Object

namespace PdoReader

variable {json : JsonC}

/-- The body of the loop behind `trim_whitespace`; `none` is a text that leaves its array or an
input that cannot be read. -/
def lineThrough (inputValue : List UInt8 → Option Int) (reader : PdoReader json)
    (trimmed : List UInt8) : Option (PdoReader json) :=
  if inputsMarker <:+: trimmed then some { reader with processLines := true }
  else if reader.processLines = false then some reader
  else
    match rowRead trimmed with
    | .skipped => some reader
    | .overflow => none
    | .row indexSub => do
        let value ← inputValue indexSub
        some { reader with jsonObj := json.objectAdd reader.jsonObj indexSub value }

/-- The loop over the pieces that `fgets` reads. -/
def runThrough (inputValue : List UInt8 → Option Int) :
    List (List UInt8) → PdoReader json → Option (PdoReader json)
  | [], reader => some reader
  | piece :: pieces, reader => do
      let trimmed ← trimmedLine (terminated piece)
      let next ← reader.lineThrough inputValue trimmed
      runThrough inputValue pieces next

/-! With the inputs at hand every key has a value. -/

def line (inputValue : List UInt8 → Int) : PdoReader json → List UInt8 → Option (PdoReader json) :=
  lineThrough fun indexSub => some (inputValue indexSub)

def run (inputValue : List UInt8 → Int) :
    List (List UInt8) → PdoReader json → Option (PdoReader json) :=
  runThrough fun indexSub => some (inputValue indexSub)

end PdoReader

/-- `inputValue` is `get_pdo_input_value_festo_motor`, converted to `int`. -/
def pdoJson (json : JsonC) (inputValue : List UInt8 → Int) (pdoTxt : List UInt8) :
    Option json.Object :=
  (PdoReader.run inputValue (fgetsAll 256 pdoTxt) ⟨false, json.newObject⟩).map (·.jsonObj)

/-! ## One line -/

namespace PdoReader

variable {json : JsonC} (inputValue : List UInt8 → Int)

@[simp] theorem run_nil (reader : PdoReader json) : run inputValue [] reader = some reader := rfl

@[simp] theorem run_cons (piece : List UInt8) (pieces : List (List UInt8)) (reader : PdoReader json) :
    run inputValue (piece :: pieces) reader =
      (trimmedLine (terminated piece)).bind fun trimmed =>
        (reader.line inputValue trimmed).bind (run inputValue pieces) := rfl

theorem line_inputs {trimmed : List UInt8} (heading : inputsMarker <:+: trimmed)
    (reader : PdoReader json) :
    reader.line inputValue trimmed = some { reader with processLines := true } :=
  if_pos heading

theorem line_before {trimmed : List UInt8} (other : ¬ inputsMarker <:+: trimmed)
    {reader : PdoReader json} (waits : reader.processLines = false) :
    reader.line inputValue trimmed = some reader := by
  rw [line, lineThrough, if_neg other, if_pos waits]

theorem rowRead_skipped {trimmed : List UInt8}
    (skipped : ascii "addr b   index: sub bitl data_type    name" <:+: trimmed ∨ trimmed = [] ∨
      (sscanf trimmed nameFormat).result ≠ 1) : rowRead trimmed = .skipped := by
  rw [rowRead]
  rcases skipped with title | blank | unnamed
  · rw [if_pos (.inl title)]
  · rw [if_pos (.inr blank)]
  · rw [if_pos unnamed]
    split <;> rfl

theorem line_skipped {trimmed : List UInt8} (other : ¬ inputsMarker <:+: trimmed)
    (skipped : ascii "addr b   index: sub bitl data_type    name" <:+: trimmed ∨ trimmed = [] ∨
      (sscanf trimmed nameFormat).result ≠ 1) (reader : PdoReader json) :
    reader.line inputValue trimmed = some reader := by
  rw [line, lineThrough, if_neg other, rowRead_skipped skipped]
  split <;> rfl

/-- All keys are written by the same format. -/
theorem rowRead_row {trimmed indexSub : List UInt8} (read : rowRead trimmed = .row indexSub) :
    ∃ index subindex, indexSub = indexSubText index subindex := by
  simp only [rowRead] at read
  split at read
  · cases read
  · split at read
    · cases read
    · split at read
      · split at read
        · rename_i index subindex dataType name items
          split at read
          · exact ⟨index, subindex, (RowRead.row.inj read).symm⟩
          · cases read
        · cases read
      · cases read

/-- A line adds nothing, or the value of a key in the one format. -/
theorem line_jsonObj {reader next : PdoReader json} {trimmed : List UInt8}
    (read : reader.line inputValue trimmed = some next) :
    next.jsonObj = reader.jsonObj ∨ ∃ index subindex, next.jsonObj =
      json.objectAdd reader.jsonObj (indexSubText index subindex)
        (inputValue (indexSubText index subindex)) := by
  have same (unchanged : some reader = some next) : next.jsonObj = reader.jsonObj := by
    rw [Option.some.inj unchanged]
  simp only [line, lineThrough] at read
  split at read
  · obtain rfl := Option.some.inj read
    exact .inl rfl
  · split at read
    · exact .inl (same read)
    · split at read
      · exact .inl (same read)
      · cases read
      · rename_i indexSub row
        obtain ⟨index, subindex, rfl⟩ := rowRead_row row
        obtain rfl := Option.some.inj read
        exact .inr ⟨index, subindex, rfl⟩

theorem run_invariant {Keeps : json.Object → Prop}
    (step : ∀ jsonObj index subindex, Keeps jsonObj → Keeps (json.objectAdd jsonObj
      (indexSubText index subindex) (inputValue (indexSubText index subindex))))
    (pieces : List (List UInt8)) :
    ∀ {reader last : PdoReader json}, run inputValue pieces reader = some last →
      Keeps reader.jsonObj → Keeps last.jsonObj := by
  induction pieces with
  | nil =>
      intro reader last returned keeps
      rwa [← Option.some.inj returned]
  | cons piece pieces ih =>
      intro reader last returned keeps
      simp only [run_cons, Option.bind_eq_some_iff] at returned
      obtain ⟨trimmed, -, next, read, rest⟩ := returned
      apply ih rest
      rcases line_jsonObj inputValue read with same | ⟨index, subindex, added⟩
      · rwa [same]
      · rw [added]
        exact step _ index subindex keeps

theorem run_values (pieces : List (List UInt8)) {reader last : PdoReader json}
    (returned : run inputValue pieces reader = some last)
    (start : ∀ entry ∈ json.entries reader.jsonObj, entry.2 = inputValue entry.1) :
    ∀ entry ∈ json.entries last.jsonObj, entry.2 = inputValue entry.1 := by
  refine @run_invariant json inputValue
    (fun jsonObj => ∀ entry ∈ json.entries jsonObj, entry.2 = inputValue entry.1) ?_ pieces
    reader last returned start
  intro jsonObj index subindex keeps entry member
  rcases (json.mem_entries_objectAdd ..).mp member with rfl | ⟨-, before⟩
  · rfl
  · exact keeps entry before

theorem run_append (pieces later : List (List UInt8)) :
    ∀ reader : PdoReader json, run inputValue (pieces ++ later) reader =
      (run inputValue pieces reader).bind (run inputValue later) := by
  induction pieces with
  | nil => exact fun _ => rfl
  | cons piece pieces ih =>
      intro reader
      simp only [List.cons_append, run_cons, ih, Option.bind_assoc]

end PdoReader

/-! ## Trimming -/

theorem trimmedLine_blank {line : Block} {text : List UInt8}
    (blank : ∀ byte ∈ text, isspace byte = true) (holds : Holds line text) :
    trimmedLine line = some [] := by
  have rest : Holds (line.drop text.length) [] := by
    apply Holds.drop
    simpa using holds
  simp [trimmedLine, trimWhitespace_blank blank holds, cstring_of_holds [] _ rest]

theorem trimmedLine_total {line : Block} {text : List UInt8} (holds : Holds line text) :
    ∃ trimmed, trimmedLine line = some trimmed ∧ trimmed <:+: text := by
  by_cases blank : ∀ byte ∈ text, isspace byte = true
  · exact ⟨[], trimmedLine_blank blank holds, List.nil_infix⟩
  · obtain ⟨lead, core, trail, rfl, leadBlank, solid, trailBlank⟩ := exists_solid blank
    exact ⟨core, trimmedLine_of_holds lead trail leadBlank solid trailBlank holds, ⟨lead, trail, rfl⟩⟩

theorem trimmedLine_terminated (piece : List UInt8) :
    ∃ trimmed, trimmedLine (terminated piece) = some trimmed ∧ trimmed <:+: piece := by
  obtain ⟨trimmed, trims, inside⟩ := trimmedLine_total (holds_takeWhile piece)
  exact ⟨trimmed, trims, inside.trans (List.takeWhile_prefix _).isInfix⟩

end WebserverEthercat

import WebserverEthercat.Pdo.PdoTxt
import WebserverEthercat.Pdo.RowSeen

/-!
# The sections of `pdo.txt`

Where the headings of SM2 and SM3 stand in the file, and what both readers do
with the lines that are no headings.
-/

set_option autoImplicit false

namespace WebserverEthercat

open CString WebText

/-! ## Many lines -/

theorem complete_joined (texts : List (List UInt8)) : Complete (joined texts) := by
  induction texts with
  | nil => exact .inl rfl
  | cons text texts ih =>
      right
      rcases ih with empty | ⟨line, ends⟩
      · exact ⟨text, by simp [joined] at empty ⊢; simp [empty]⟩
      · refine ⟨text ++ 10 :: line, ?_⟩
        rw [joined] at ends
        simp [joined, ends]

namespace PdoReader

variable {json : JsonC} (inputValue : List UInt8 → Int)

def reads (reader : PdoReader json) (texts : List (List UInt8)) : Option (PdoReader json) :=
  run inputValue (fgetsAll 256 (joined texts)) reader

theorem reads_append (reader : PdoReader json) (texts later : List (List UInt8)) :
    reader.reads inputValue (texts ++ later) =
      (reader.reads inputValue texts).bind fun next => next.reads inputValue later := by
  rw [reads, joined_append, fgetsAll_append (complete_joined texts), run_append]
  rfl

theorem reads_single {text : List UInt8} (oneLine : 10 ∉ text) (fits : text.length + 1 < 256)
    {trimmed : List UInt8} (trims : trimmedLine (terminated (text ++ [10])) = some trimmed)
    (reader : PdoReader json) : reader.reads inputValue [text] = reader.line inputValue trimmed := by
  have single : joined [text] = text ++ [10] := by simp [joined]
  rw [reads, single, fgetsAll_short 256 oneLine fits, run_cons, trims, Option.bind_some]
  exact Option.bind_fun_some (reader.line inputValue trimmed)

theorem reads_before {texts : List (List UInt8)} (before : ∀ text ∈ texts, ¬ inputsMarker <:+: text)
    {reader : PdoReader json} (waits : reader.processLines = false) :
    reader.reads inputValue texts = some reader := by
  have newline : 10 ∉ inputsMarker := by decide
  have pieces (pieces : List (List UInt8)) (quiet : ∀ piece ∈ pieces, ¬ inputsMarker <:+: piece) :
      run inputValue pieces reader = some reader := by
    induction pieces with
    | nil => rfl
    | cons piece pieces ih =>
        obtain ⟨trimmed, trims, inside⟩ := trimmedLine_terminated piece
        have other : ¬ inputsMarker <:+: trimmed :=
          fun marked => quiet piece List.mem_cons_self (marked.trans inside)
        simp [trims, line_before inputValue other waits,
          ih fun later member => quiet later (List.mem_cons_of_mem _ member)]
  apply pieces
  intro piece member marked
  have whole : joined texts = (texts.map (· ++ [10])).flatten := by rw [joined, List.flatMap_def]
  rw [whole, fgetsAll_flatMap (by simp [Complete])] at member
  obtain ⟨line, inside, read⟩ := List.mem_flatMap.mp member
  obtain ⟨text, here, rfl⟩ := List.mem_map.mp inside
  exact before text here (within_of_concat newline (marked.trans (fgetsAll_within read)))

end PdoReader

namespace PdoForms

def reads (forms : PdoForms) (texts : List (List UInt8)) : PdoForms :=
  (texts.map utf8Decode).foldl line forms

theorem reads_single (forms : PdoForms) (text : List UInt8) :
    forms.reads [text] = forms.line (utf8Decode text) := by
  simp [reads]

theorem reads_append (forms : PdoForms) (texts later : List (List UInt8)) :
    forms.reads (texts ++ later) = (forms.reads texts).reads later := by
  rw [reads, List.map_append, List.foldl_append]
  rfl

end PdoForms

/-- A marker of ASCII in the characters of a line is one of its bytes. -/
theorem not_within_utf8Decode {text : String} (plain : (ascii text).all (· < 0x80))
    {line : List UInt8} (absent : ¬ ascii text <:+: line) :
    ¬ characters text <:+: utf8Decode line := by
  simp only [List.all_eq_true, decide_eq_true_eq] at plain
  exact fun inside => absent (within_of_utf8Decode plain inside)

namespace PdoForms

theorem reads_outside {texts : List (List UInt8)}
    (before : ∀ text ∈ texts, ¬ inputsMarker <:+: text) {forms : PdoForms}
    (outside : forms.current ≠ some .input) :
    (forms.reads texts).current ≠ some .input ∧ (forms.reads texts).inputs = forms.inputs := by
  apply foldl_outside _ outside
  intro characters member
  obtain ⟨text, inside, rfl⟩ := List.mem_map.mp member
  exact not_within_utf8Decode (by decide) (before text inside)

end PdoForms

/-- A line that is no heading of SM2 outputs or SM3 inputs. -/
structure NoHeading (text : List UInt8) : Prop where
  outputs : ¬ ascii "SM2 outputs" <:+: text
  inputs : ¬ inputsMarker <:+: text

namespace NoHeading

variable {text : List UInt8}

theorem pageOutputs (noHeading : NoHeading text) :
    ¬ characters "SM2 outputs" <:+: utf8Decode text :=
  not_within_utf8Decode (by decide) noHeading.outputs

theorem pageInputs (noHeading : NoHeading text) :
    ¬ characters "SM3 inputs" <:+: utf8Decode text :=
  not_within_utf8Decode (by decide) noHeading.inputs

end NoHeading

namespace PdoForms

end PdoForms

theorem noHeading_of_plain {text : List UInt8} (plain : PlainText text) : NoHeading text :=
  ⟨plain.unmarked _ (by simp [markers]), plain.unmarked _ (by simp [markers, inputsMarker])⟩

theorem heading_noHeading {iSM : UInt8} (low : 4 ≤ iSM.toNat) (high : iSM.toNat ≤ 8)
    (direction : Direction) :
    ∀ text ∈ (MapLine.heading iSM direction).pdoLines, NoHeading text := by
  have each : ∀ text ∈ (MapLine.heading iSM direction).pdoLines,
      ¬ ascii "SM2 outputs" <:+: text ∧ ¬ inputsMarker <:+: text := by
    obtain ⟨number, rfl, small⟩ : ∃ number, iSM = UInt8.ofNat number ∧ 4 ≤ number ∧ number ≤ 8 :=
      ⟨iSM.toNat, by simp, low, high⟩
    obtain ⟨low, high⟩ := small
    interval_cases number <;> cases direction <;> decide
  exact fun text member => ⟨(each text member).1, (each text member).2⟩

theorem heading_oneLine (iSM : UInt8) (direction : Direction) :
    ∀ text ∈ (MapLine.heading iSM direction).pdoLines, 10 ∉ text := by
  have number : 10 ∉ decimal (iSM.toNat : Int) := noNumeral_newline.decimal _
  have literals : 10 ∉ ascii "  SM" ∧ 10 ∉ ascii " outputs" ∧ 10 ∉ ascii " inputs" ∧
      10 ∉ columnTitles.dropLast := by decide
  obtain ⟨start, outputs, inputs, titles⟩ := literals
  cases direction <;> simp [MapLine.pdoLines, start, number, outputs, inputs, titles]

namespace CoeRun

variable {Error : Type} {texts : MasterTexts Error} {run : CoeRun Error} {runs : List (CoeRun Error)}

end CoeRun

end WebserverEthercat

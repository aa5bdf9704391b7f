import WebserverEthercat.Pdo.RowReading

/-!
# The forms of the page

`parsePDOText` makes a field of every line of more than four words below the
heading of SM2 or SM3, and each of these headings ends the section of the other.
-/

set_option autoImplicit false

namespace WebserverEthercat

open CString WebText

inductive PdoForm where
  | output
  | input
deriving DecidableEq, Repr

/-- An `input` element with its label. -/
structure PdoField where
  form : PdoForm
  distinctName : List Nat
  /-- `min` and `max` of a number -/
  range : Option (Int × Int)
  dataIndexSub : List Nat
deriving DecidableEq, Repr

/-- The sections that are open (at most one of `inOutputSection` and `inInputSection`), and the
fields in the order in which they are made. -/
structure PdoForms where
  current : Option PdoForm
  fields : List PdoField
deriving DecidableEq, Repr

def characters (text : String) : List Nat := (ascii text).map UInt8.toNat

def inputRange (dataType : List Nat) : Option (Int × Int) :=
  if dataType = characters "UNSIGNED8" then some (0, 255)
  else if dataType = characters "UNSIGNED16" then some (0, 65535)
  else if dataType = characters "UNSIGNED32" then some (0, 4294967295)
  else if dataType = characters "INTEGER8" then some (-128, 127)
  else if dataType = characters "INTEGER16" then some (-32768, 32767)
  else if dataType = characters "INTEGER32" then some (-2147483648, 2147483647)
  else none

/-- The field of a line's parts; `dataTypeIndex` is the first part that is equal to the type. -/
def pdoField (form : PdoForm) (parts : List (List Nat)) (indexSub dataType : List Nat) : PdoField :=
  let index := indexSub.takeWhile (· ≠ 58)
  let nameParts := parts.drop (parts.idxOf dataType + 1)
  let name := List.intercalate [32] nameParts
  ⟨form, name ++ 95 :: index, inputRange dataType, indexSub⟩

namespace PdoForms

/-- The body of `lines.forEach`. -/
def line (forms : PdoForms) (text : List Nat) : PdoForms :=
  if words text = [] ∨ characters "addr b" <:+: text ∨ characters "index: sub bitl" <:+: text then
    forms
  else if characters "SM2 outputs" <:+: text then { forms with current := some .output }
  else if characters "SM3 inputs" <:+: text then { forms with current := some .input }
  else
    match forms.current, words text with
    | some form, first :: indexSub :: third :: dataType :: fifth :: rest =>
        let parts := first :: indexSub :: third :: dataType :: fifth :: rest
        { forms with fields := forms.fields ++ [pdoField form parts indexSub dataType] }
    | _, _ => forms

/-- `data_index_sub` of the fields of `pdoInputForm`. -/
def inputs (forms : PdoForms) : List (List Nat) :=
  (forms.fields.filter (·.form = .input)).map (·.dataIndexSub)

end PdoForms

/-- `response.text()`, which drops a byte order mark. -/
def responseText : List UInt8 → List Nat
  | 0xef :: 0xbb :: 0xbf :: rest => utf8Decode rest
  | body => utf8Decode body

namespace PdoForms

theorem line_current {text : List Nat} (noOutputs : ¬ characters "SM2 outputs" <:+: text)
    (noInputs : ¬ characters "SM3 inputs" <:+: text) (forms : PdoForms) :
    (forms.line text).current = forms.current := by
  rw [line, if_neg noOutputs, if_neg noInputs]
  split
  · rfl
  · split <;> rfl

/-- Outside of the input section no input is made, and only the heading of SM3 opens it. -/
theorem line_outside {text : List Nat} (noInputs : ¬ characters "SM3 inputs" <:+: text)
    {forms : PdoForms} (outside : forms.current ≠ some .input) :
    (forms.line text).current ≠ some .input ∧ (forms.line text).inputs = forms.inputs := by
  rw [line, if_neg noInputs]
  split
  · exact ⟨outside, rfl⟩
  · split
    · simp [inputs]
    · split
      · rename_i form _ _ _ _ _ _ current _
        have output : form = .output := by
          cases form with
          | output => rfl
          | input => exact absurd current outside
        refine ⟨outside, ?_⟩
        simp [inputs, pdoField, output]
      · exact ⟨outside, rfl⟩

theorem line_inputs {text : List Nat} (visible : words text ≠ [])
    (noTitle : ¬ (characters "addr b" <:+: text ∨ characters "index: sub bitl" <:+: text))
    (noOutputs : ¬ characters "SM2 outputs" <:+: text) (heading : characters "SM3 inputs" <:+: text)
    (forms : PdoForms) : forms.line text = { forms with current := some .input } := by
  rw [line, if_neg (by simp [visible, noTitle]), if_neg noOutputs, if_pos heading]

theorem five_parts {parts : List (List Nat)} (long : 4 < parts.length) :
    ∃ first second third fourth fifth rest,
      parts = first :: second :: third :: fourth :: fifth :: rest := by
  match parts, long with
  | first :: second :: third :: fourth :: fifth :: rest, _ =>
      exact ⟨first, second, third, fourth, fifth, rest, rfl⟩

theorem line_field {text : List Nat} (noTitle : ¬ (characters "addr b" <:+: text ∨
      characters "index: sub bitl" <:+: text))
    (noOutputs : ¬ characters "SM2 outputs" <:+: text)
    (noInputs : ¬ characters "SM3 inputs" <:+: text) (long : 4 < (words text).length)
    {indexSub : List Nat} (second : (words text)[1]? = some indexSub)
    {forms : PdoForms} (inside : forms.current = some .input) :
    (forms.line text).current = some .input ∧
      (forms.line text).inputs = forms.inputs ++ [indexSub] := by
  obtain ⟨first, same, third, fourth, fifth, rest, parts⟩ := five_parts long
  rw [parts] at second
  obtain rfl : same = indexSub := by simpa using second
  refine ⟨(line_current noOutputs noInputs forms).trans inside, ?_⟩
  rw [line, if_neg (by simp [parts, noTitle]), if_neg noOutputs, if_neg noInputs, inside, parts]
  simp [inputs, pdoField]

theorem line_short {text : List Nat} (noOutputs : ¬ characters "SM2 outputs" <:+: text)
    (noInputs : ¬ characters "SM3 inputs" <:+: text)
    (few : characters "addr b" <:+: text ∨ ¬ 4 < (words text).length) (forms : PdoForms) :
    forms.line text = forms := by
  rw [line, if_neg noOutputs, if_neg noInputs]
  split
  · rfl
  · rename_i shown
    split
    · rename_i parts
      rcases few with title | few
      · exact absurd (.inr (.inl title)) shown
      · simp [parts] at few
    · rfl

theorem foldl_outside {texts : List (List Nat)}
    (noInputs : ∀ text ∈ texts, ¬ characters "SM3 inputs" <:+: text) :
    ∀ {forms : PdoForms}, forms.current ≠ some .input →
      (texts.foldl line forms).current ≠ some .input ∧
        (texts.foldl line forms).inputs = forms.inputs := by
  induction texts with
  | nil => exact fun outside => ⟨outside, rfl⟩
  | cons text texts ih =>
      intro forms outside
      obtain ⟨stays, same⟩ := line_outside (noInputs text List.mem_cons_self) outside
      obtain ⟨outsideLater, sameLater⟩ :=
        ih (fun other member => noInputs other (List.mem_cons_of_mem _ member)) stays
      exact ⟨outsideLater, sameLater.trans same⟩

end PdoForms

end WebserverEthercat

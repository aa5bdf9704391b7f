import WebserverEthercat.Form.KeyValue
import WebserverEthercat.Form.PostData
import WebserverEthercat.Lib.Decimal

/-!
# The form round trip

What the browser submits for a list of fields and values is applied as that
list: the last value of a field wins, and the other fields are left alone.
-/

set_option autoImplicit false

namespace WebserverEthercat.Form

open CString

/-! ## The encoding -/

def encodeKey (field : OutputField) : List UInt8 :=
  (keyText field).map fun byte => if byte = 32 then plusSign else byte

def encodePair (pair : OutputField × Int) : List UInt8 :=
  encodeKey pair.1 ++ equalsSign :: decimal pair.2

def encodeForm : List (OutputField × Int) → List UInt8
  | [] => []
  | [pair] => encodePair pair
  | pair :: next :: rest => encodePair pair ++ ampersand :: encodeForm (next :: rest)

theorem plusToSpace_encodeKey (field : OutputField) :
    plusToSpace (encodeKey field) = keyText field := by
  cases field <;> decide

theorem equalsSign_not_in_key (field : OutputField) : equalsSign ∉ encodeKey field := by
  cases field <;> decide

theorem ampersand_not_in_decimal (value : Int) : ampersand ∉ decimal value := by
  intro member
  rcases mem_decimal member with minus | digit
  · exact absurd minus (by decide)
  · exact absurd digit (by decide)

theorem scanPairs_encodeForm (pairs : List (OutputField × Int)) :
    scanPairs (encodeForm pairs) = pairs.map fun pair => (keyText pair.1, decimal pair.2) := by
  induction pairs with
  | nil => exact scanPairs_absent (by simp [encodeForm])
  | cons pair rest ih =>
      have keyEnds := equalsSign_not_in_key pair.1
      have valueEnds := ampersand_not_in_decimal pair.2
      cases rest with
      | nil =>
          simp only [encodeForm, encodePair, scanPairs_last keyEnds valueEnds,
            plusToSpace_encodeKey, List.map_cons, List.map_nil]
      | cons next rest =>
          simp only [encodeForm, encodePair, List.append_assoc, List.cons_append,
            scanPairs_cons keyEnds valueEnds, plusToSpace_encodeKey, List.map_cons]
          simpa only [List.map_cons, List.cons.injEq, true_and] using ih

/-! ## One pair -/

theorem inRange_bounds {field : OutputField} {value : Int} (inRange : field.InRange value) :
    -2 ^ 31 ≤ value ∧ value < 2 ^ 32 := by
  cases field <;> simp only [OutputField.InRange] at inRange <;> omega

theorem converted_int (field : OutputField) (value : Int) :
    field.converted (Int32.ofInt value).toInt = field.converted value := by
  rw [Int32.toInt_ofInt]
  cases field <;> simp only [OutputField.converted]
  all_goals
    simp only [Int.bmod_def, Int32.size]
    omega

theorem keyText_solid (field : OutputField) : Solid (keyText field) := by
  refine ⟨by cases field <;> decide, ?_, ?_⟩
  · intro byte rest same
    have head : (keyText field).head? = some byte := by rw [same]; rfl
    revert head
    cases field <;> simp [keyText, ascii] <;> rintro rfl <;> decide
  · intro front byte same
    have last : (keyText field).getLast? = some byte := by rw [same]; simp
    revert last
    cases field <;> simp [keyText, ascii] <;> rintro rfl <;> decide

theorem decimal_solid (value : Int) : Solid (decimal value) :=
  .of_visible (decimal_ne_nil value) fun _ => decimal_not_isspace

theorem parseKeyValue_number (outputs : FestoMotorOutputs) (field : OutputField)
    {text : List UInt8} (solid : Solid text) (noNul : 0 ∉ text) (short : text.length < 256)
    {number : Int32} (read : ∀ block, Holds block text → atoi block = some number) :
    parseKeyValueFestoMotor outputs (terminated (keyText field)) (terminated text) =
      some (outputs.store field number.toInt) := by
  have keyShort : (keyText field).length < 256 := by
    cases field <;> decide
  obtain ⟨key, keyCopied, keyHolds, -⟩ := strncpy_holds (keyText field) 256 (uninitialised 256)
    (terminated (keyText field)) (holds_terminated (keyText_noNul field)) keyShort
    (length_uninitialised 256).ge
  obtain ⟨value, valueCopied, valueHolds, -⟩ := strncpy_holds text 256 (uninitialised 256)
    (terminated text) (holds_terminated noNul) short (length_uninitialised 256).ge
  obtain ⟨trimmedKey, keyTrimmed, trimmedKeyHolds⟩ :=
    trimWhitespace_solid (keyText_solid field) keyHolds
  obtain ⟨trimmedValue, valueTrimmed, trimmedValueHolds⟩ := trimWhitespace_solid solid valueHolds
  have parsed : parseValueOrDefault trimmedValue 0 = some number := by
    obtain ⟨byte, rest, same⟩ := List.exists_cons_of_ne_nil solid.nonempty
    have first : load trimmedValue 0 = some byte :=
      load_of_holds [] rest (by rw [← same]; exact trimmedValueHolds)
    have visible : byte ≠ 0 := by
      rintro rfl
      exact noNul (by rw [same]; simp)
    simp [parseValueOrDefault, first, visible, read trimmedValue trimmedValueHolds]
  have assigned := assignByKey_of_mem outputs trimmedKeyHolds parsed comparedFields
    (mem_comparedFields field)
  simp [parseKeyValueFestoMotor, keyCopied, valueCopied, keyTrimmed, valueTrimmed, assigned]

theorem parseKeyValue_stores (outputs : FestoMotorOutputs) {field : OutputField} {value : Int}
    (inRange : field.InRange value) :
    parseKeyValueFestoMotor outputs (terminated (keyText field)) (terminated (decimal value)) =
      some (outputs.store field (Int32.ofInt value).toInt) := by
  obtain ⟨low, high⟩ := inRange_bounds inRange
  have length := length_decimal_le value 10 (by omega) (by omega)
  exact parseKeyValue_number outputs field (decimal_solid value) (zero_not_mem_decimal value)
    (by omega) fun block holds => atoi_decimal holds (by omega) (by omega)

/-! ## All pairs -/

def applyPairs (outputs : FestoMotorOutputs) (pairs : List (OutputField × Int)) :
    FestoMotorOutputs :=
  pairs.foldl (fun outputs pair => outputs.store pair.1 (Int32.ofInt pair.2).toInt) outputs

theorem applyPairs_untouched (field : OutputField) (pairs : List (OutputField × Int)) :
    ∀ outputs : FestoMotorOutputs, (∀ value, (field, value) ∉ pairs) →
      (applyPairs outputs pairs).load field = outputs.load field := by
  induction pairs with
  | nil => intro outputs _; rfl
  | cons pair rest ih =>
      intro outputs absent
      have different : field ≠ pair.1 := fun same => absent pair.2 (by simp [same])
      have later := ih (outputs.store pair.1 (Int32.ofInt pair.2).toInt)
        fun value member => absent value (List.mem_cons_of_mem _ member)
      rw [← outputs.load_store_other pair.1 field _ different]
      exact later

theorem applyPairs_last (outputs : FestoMotorOutputs) {field : OutputField} {value : Int}
    (inRange : field.InRange value) (before later : List (OutputField × Int))
    (last : ∀ other, (field, other) ∉ later) :
    (applyPairs outputs (before ++ (field, value) :: later)).load field = value := by
  have split : applyPairs outputs (before ++ (field, value) :: later) =
      applyPairs ((applyPairs outputs before).store field (Int32.ofInt value).toInt) later := by
    simp [applyPairs]
  rw [split, applyPairs_untouched field later _ last, FestoMotorOutputs.load_store_same,
    converted_int, field.converted_of_inRange value inRange]

theorem foldlM_stores (pairs : List (OutputField × Int))
    (inRange : ∀ pair ∈ pairs, pair.1.InRange pair.2) :
    ∀ outputs : FestoMotorOutputs,
      (pairs.map fun pair => (keyText pair.1, decimal pair.2)).foldlM
          (fun outputs texts =>
            parseKeyValueFestoMotor outputs (terminated texts.1) (terminated texts.2)) outputs =
        some (applyPairs outputs pairs) := by
  induction pairs with
  | nil => intro outputs; rfl
  | cons pair rest ih =>
      intro outputs
      have stored := parseKeyValue_stores outputs (inRange pair List.mem_cons_self)
      have later := ih (fun other member => inRange other (List.mem_cons_of_mem _ member))
        (outputs.store pair.1 (Int32.ofInt pair.2).toInt)
      rw [List.map_cons, List.foldlM_cons, stored, Option.bind_eq_bind, Option.bind_some, later]
      rfl

theorem parseKeyValueFestoMotor_reads :
    Reads parseKeyValueFestoMotor fun outputs texts =>
      parseKeyValueFestoMotor outputs (terminated texts.1) (terminated texts.2) :=
  fun outputs _ _ _ _ keyHolds valueHolds =>
    parseKeyValueFestoMotor_congr outputs keyHolds valueHolds

theorem parsePostData_encodeForm (outputs : FestoMotorOutputs)
    (pairs : List (OutputField × Int)) (inRange : ∀ pair ∈ pairs, pair.1.InRange pair.2)
    {postData : Block} (holds : Holds postData (encodeForm pairs)) (strdupOk : Bool) :
    parsePostData parseKeyValueFestoMotor strdupOk postData outputs =
      some (if strdupOk then applyPairs outputs pairs else outputs) := by
  rw [parsePostData_eq_scanPairs parseKeyValueFestoMotor_reads strdupOk holds, scanPairs_encodeForm,
    foldlM_stores pairs inRange outputs]
  cases strdupOk <;> rfl

/-- For every image and every list of fields and values in their ranges, the
parser runs without a fault; each field named ends up with its last value and
every other field as it was.  When the copy of the body cannot be made, nothing
is applied. -/
theorem form_round_trip (outputs : FestoMotorOutputs) (pairs : List (OutputField × Int))
    (inRange : ∀ pair ∈ pairs, pair.1.InRange pair.2) (postData : Block)
    (holds : Holds postData (encodeForm pairs)) (strdupOk : Bool) :
    ∃ after, parsePostData parseKeyValueFestoMotor strdupOk postData outputs = some after ∧
      (strdupOk = true → ∀ field,
        (∀ before value later, pairs = before ++ (field, value) :: later →
          (∀ other, (field, other) ∉ later) → after.load field = value) ∧
        ((∀ value, (field, value) ∉ pairs) → after.load field = outputs.load field)) ∧
      (strdupOk = false → after = outputs) := by
  refine ⟨_, parsePostData_encodeForm outputs pairs inRange holds strdupOk, ?_, ?_⟩
  · rintro rfl field
    simp only [if_true]
    refine ⟨?_, applyPairs_untouched field pairs outputs⟩
    intro before value later split last
    have here : field.InRange value := inRange (field, value) (by rw [split]; simp)
    rw [split]
    exact applyPairs_last outputs here before later last
  · rintro rfl
    rfl

/-- A velocity above `INT_MAX` arrives, and the second torque wins. -/
def submitted : List (OutputField × Int) :=
  [(.targetTorque, -5), (.profileVelocity, 4000000000), (.targetTorque, 12)]

theorem form_round_trip_submitted :
    ∃ after, parsePostData parseKeyValueFestoMotor true (terminated (encodeForm submitted))
        .zero = some after ∧ after.load .targetTorque = 12 ∧
      after.load .profileVelocity = 4000000000 ∧ after.load .controlWord = 0 := by
  have noNul : 0 ∉ encodeForm submitted := by
    decide
  obtain ⟨after, parsed, applied, -⟩ := form_round_trip .zero submitted (by decide)
    (terminated (encodeForm submitted)) (holds_terminated noNul) true
  refine ⟨after, parsed, (applied rfl .targetTorque).1
    [(.targetTorque, -5), (.profileVelocity, 4000000000)] 12 [] rfl (by simp), ?_, ?_⟩
  · exact (applied rfl .profileVelocity).1 [(.targetTorque, -5)] 4000000000
      [(.targetTorque, 12)] rfl (by simp)
  · exact (applied rfl .controlWord).2 (by simp [submitted])

end WebserverEthercat.Form

import WebserverEthercat.Form.RoundTrip

/-!
# Numbers outside of the range of a field

The page has limits for its number inputs, the server has none: a number goes
through `long` and `int` into the field.
-/

set_option autoImplicit false

namespace WebserverEthercat.Form

open CString

def width : OutputField → Nat
  | .modesOfOperation => 8
  | .controlWord | .targetTorque | .torqueOffset => 16
  | .targetPosition | .profileVelocity | .targetVelocity | .velocityOffset => 32

/-- The `long` that `strtol` makes of an integer. -/
def clampLong (value : Int) : Int := max (-2 ^ 63) (min (2 ^ 63 - 1) value)

/-- After the call the field holds the integer of the text, or what it held before. -/
def AppliedExactly (outputs : FestoMotorOutputs) (field : OutputField) (number : DecimalText) :
    Prop :=
  ∃ after, parseKeyValueFestoMotor outputs (terminated (keyText field)) (terminated number.text) =
      some after ∧
    (after.load field = number.value ∨ after.load field = outputs.load field)

theorem load_inRange (outputs : FestoMotorOutputs) (field : OutputField) :
    field.InRange (outputs.load field) := by
  cases field
  case controlWord => exact ⟨Int.natCast_nonneg _, Int.ofNat_lt.mpr outputs.controlWord.toNat_lt⟩
  case modesOfOperation =>
    exact ⟨outputs.modesOfOperation.le_toInt, outputs.modesOfOperation.toInt_lt⟩
  case targetPosition => exact ⟨outputs.targetPosition.le_toInt, outputs.targetPosition.toInt_lt⟩
  case profileVelocity =>
    exact ⟨Int.natCast_nonneg _, Int.ofNat_lt.mpr outputs.profileVelocity.toNat_lt⟩
  case targetVelocity => exact ⟨outputs.targetVelocity.le_toInt, outputs.targetVelocity.toInt_lt⟩
  case targetTorque => exact ⟨outputs.targetTorque.le_toInt, outputs.targetTorque.toInt_lt⟩
  case velocityOffset => exact ⟨outputs.velocityOffset.le_toInt, outputs.velocityOffset.toInt_lt⟩
  case torqueOffset => exact ⟨outputs.torqueOffset.le_toInt, outputs.torqueOffset.toInt_lt⟩

/-- The conversion to a field keeps the integer modulo the size of the field, and the result is
the one in the range. -/
theorem converted_eq_iff (field : OutputField) {value held : Int} (inRange : field.InRange held) :
    field.converted value = held ↔ (2 ^ width field : Int) ∣ value - held := by
  cases field <;> simp only [OutputField.InRange] at inRange <;>
    simp only [OutputField.converted, width, Int.bmod_def] <;> omega

theorem clampLong_of_inRange {field : OutputField} {value : Int} (inRange : field.InRange value) :
    clampLong value = value := by
  obtain ⟨low, high⟩ := inRange_bounds inRange
  rw [clampLong]
  omega

/-- A field gets the integer itself only when it is in the range. -/
theorem converted_clampLong_iff (field : OutputField) (value : Int) :
    field.converted (clampLong value) = value ↔ field.InRange value := by
  constructor
  · intro same
    have held := load_inRange (FestoMotorOutputs.zero.store field (clampLong value)) field
    rwa [FestoMotorOutputs.load_store_same, same] at held
  · intro inRange
    rw [clampLong_of_inRange inRange, OutputField.converted_of_inRange field value inRange]

theorem decimalText_solid (number : DecimalText) : Solid number.text :=
  .of_visible number.text_ne_nil fun _ => DecimalText.not_isspace

/-- The server applies a number exactly, or leaves the field as it is, when the field can hold it,
or when what is left of it in the field is what the field held before. -/
theorem applied_exactly_iff (outputs : FestoMotorOutputs) (field : OutputField)
    (number : DecimalText) (short : number.text.length ≤ 255) :
    AppliedExactly outputs field number ↔
      field.InRange number.value ∨
        (2 ^ width field : Int) ∣ clampLong number.value - outputs.load field := by
  have read : ∀ block, Holds block number.text →
      atoi block = some (Int32.ofInt (clampLong number.value)) := by
    intro block holds
    rw [atoi, DecimalText.strtol_text holds]
    rfl
  have parsed := parseKeyValue_number outputs field (decimalText_solid number) number.noNul
    (Nat.lt_succ_of_le short) read
  have held : (outputs.store field (Int32.ofInt (clampLong number.value)).toInt).load field =
      field.converted (clampLong number.value) := by
    rw [FestoMotorOutputs.load_store_same, converted_int]
  rw [AppliedExactly, parsed]
  simp only [Option.some.injEq, exists_eq_left', held, converted_clampLong_iff,
    converted_eq_iff field (load_inRange outputs field)]

theorem applied_exactly_zero :
    AppliedExactly .zero .targetTorque ⟨.minus, [0, 7], by decide, by decide⟩ ↔
      OutputField.targetTorque.InRange (-7) ∨
        (2 ^ width .targetTorque : Int) ∣ clampLong (-7) - FestoMotorOutputs.zero.load .targetTorque :=
  applied_exactly_iff .zero .targetTorque ⟨.minus, [0, 7], by decide, by decide⟩ (by decide)

/-- 65551 as a control word is applied as 15, which enables the drive. -/
def wrappedControlword : DecimalText := ⟨.none, [6, 5, 5, 5, 1], by decide, by decide⟩

theorem wrapped_controlword_enables :
    parseKeyValueFestoMotor .zero (terminated (keyText .controlWord))
        (terminated wrappedControlword.text) =
      some (FestoMotorOutputs.zero.store .controlWord 15) ∧
    ¬ AppliedExactly .zero .controlWord wrappedControlword := by
  have parsed : parseKeyValueFestoMotor .zero (terminated (keyText .controlWord))
        (terminated wrappedControlword.text) =
      some (FestoMotorOutputs.zero.store .controlWord 15) := by decide +kernel
  refine ⟨parsed, ?_⟩
  rintro ⟨after, returned, exactly⟩
  obtain rfl := Option.some.inj (parsed.symm.trans returned)
  revert exactly
  decide

end WebserverEthercat.Form

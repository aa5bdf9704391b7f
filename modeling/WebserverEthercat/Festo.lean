import Mathlib.Algebra.Ring.Int.Defs
import Mathlib.Algebra.Ring.Nat

/-!
# The process data of the Festo drive

The packed records of `festo_motor.h`.  The C code assigns an `int` to a field
of any of the eight output types; `store` is that assignment, with the
conversion to the width and sign of the field, and `load` reads the field back
as an integer.
-/

set_option autoImplicit false

namespace WebserverEthercat

structure FestoMotorOutputs where
  controlWord : UInt16
  modesOfOperation : Int8
  targetPosition : Int32
  profileVelocity : UInt32
  targetVelocity : Int32
  targetTorque : Int16
  velocityOffset : Int32
  torqueOffset : Int16
deriving DecidableEq, Repr

structure FestoMotorInputs where
  statusWord : UInt16
  modesOfOperationDispaly : Int8
  positionActualValue : Int32
  velocityActualValue : Int32
  torqueActualValue : Int16
deriving DecidableEq, Repr

inductive OutputField where
  | controlWord
  | modesOfOperation
  | targetPosition
  | profileVelocity
  | targetVelocity
  | targetTorque
  | velocityOffset
  | torqueOffset
deriving DecidableEq, Repr

def FestoMotorOutputs.zero : FestoMotorOutputs := ⟨0, 0, 0, 0, 0, 0, 0, 0⟩

def FestoMotorInputs.zero : FestoMotorInputs := ⟨0, 0, 0, 0, 0⟩

namespace FestoMotorOutputs

def load (outputs : FestoMotorOutputs) : OutputField → Int
  | .controlWord => outputs.controlWord.toNat
  | .modesOfOperation => outputs.modesOfOperation.toInt
  | .targetPosition => outputs.targetPosition.toInt
  | .profileVelocity => outputs.profileVelocity.toNat
  | .targetVelocity => outputs.targetVelocity.toInt
  | .targetTorque => outputs.targetTorque.toInt
  | .velocityOffset => outputs.velocityOffset.toInt
  | .torqueOffset => outputs.torqueOffset.toInt

def store (outputs : FestoMotorOutputs) (field : OutputField) (value : Int) :
    FestoMotorOutputs :=
  match field with
  | .controlWord => { outputs with controlWord := UInt16.ofInt value }
  | .modesOfOperation => { outputs with modesOfOperation := Int8.ofInt value }
  | .targetPosition => { outputs with targetPosition := Int32.ofInt value }
  | .profileVelocity => { outputs with profileVelocity := UInt32.ofInt value }
  | .targetVelocity => { outputs with targetVelocity := Int32.ofInt value }
  | .targetTorque => { outputs with targetTorque := Int16.ofInt value }
  | .velocityOffset => { outputs with velocityOffset := Int32.ofInt value }
  | .torqueOffset => { outputs with torqueOffset := Int16.ofInt value }

end FestoMotorOutputs

/-! ## The range of a field and the conversion to it -/

namespace OutputField

def InRange : OutputField → Int → Prop
  | .controlWord, value => 0 ≤ value ∧ value < 2 ^ 16
  | .modesOfOperation, value => -2 ^ 7 ≤ value ∧ value < 2 ^ 7
  | .targetPosition, value => -2 ^ 31 ≤ value ∧ value < 2 ^ 31
  | .profileVelocity, value => 0 ≤ value ∧ value < 2 ^ 32
  | .targetVelocity, value => -2 ^ 31 ≤ value ∧ value < 2 ^ 31
  | .targetTorque, value => -2 ^ 15 ≤ value ∧ value < 2 ^ 15
  | .velocityOffset, value => -2 ^ 31 ≤ value ∧ value < 2 ^ 31
  | .torqueOffset, value => -2 ^ 15 ≤ value ∧ value < 2 ^ 15

instance (field : OutputField) (value : Int) : Decidable (field.InRange value) :=
  match field with
  | .controlWord | .modesOfOperation | .targetPosition | .profileVelocity
  | .targetVelocity | .targetTorque | .velocityOffset | .torqueOffset =>
      inferInstanceAs (Decidable (_ ∧ _))

/-- The value a field holds after the assignment of `value` to it. -/
def converted : OutputField → Int → Int
  | .controlWord, value => value % 2 ^ 16
  | .modesOfOperation, value => value.bmod (2 ^ 8)
  | .targetPosition, value => value.bmod (2 ^ 32)
  | .profileVelocity, value => value % 2 ^ 32
  | .targetVelocity, value => value.bmod (2 ^ 32)
  | .targetTorque, value => value.bmod (2 ^ 16)
  | .velocityOffset, value => value.bmod (2 ^ 32)
  | .torqueOffset, value => value.bmod (2 ^ 16)

theorem converted_of_inRange (field : OutputField) (value : Int)
    (inRange : field.InRange value) : field.converted value = value := by
  cases field <;> simp only [InRange] at inRange <;> simp only [converted]
  case controlWord => exact Int.emod_eq_of_lt inRange.1 inRange.2
  case profileVelocity => exact Int.emod_eq_of_lt inRange.1 inRange.2
  all_goals exact Int.bmod_eq_of_le (by omega) (by omega)

end OutputField

theorem uint16_toNat_ofInt (value : Int) :
    ((UInt16.ofInt value).toNat : Int) = value % 2 ^ 16 := by
  unfold UInt16.ofInt
  rw [UInt16.toNat_ofNat']
  omega

theorem uint32_toNat_ofInt (value : Int) :
    ((UInt32.ofInt value).toNat : Int) = value % 2 ^ 32 := by
  unfold UInt32.ofInt
  rw [UInt32.toNat_ofNat']
  omega

namespace FestoMotorOutputs

@[simp] theorem load_store_same (outputs : FestoMotorOutputs) (field : OutputField)
    (value : Int) : (outputs.store field value).load field = field.converted value := by
  cases field <;> simp only [load, store, OutputField.converted]
  case controlWord => exact uint16_toNat_ofInt value
  case profileVelocity => exact uint32_toNat_ofInt value
  case modesOfOperation => exact Int8.toInt_ofInt
  case targetTorque => exact Int16.toInt_ofInt
  case torqueOffset => exact Int16.toInt_ofInt
  all_goals exact Int32.toInt_ofInt

theorem load_store_other (outputs : FestoMotorOutputs) (field other : OutputField)
    (value : Int) (different : other ≠ field) :
    (outputs.store field value).load other = outputs.load other := by
  cases field <;> cases other <;> first | rfl | exact absurd rfl different

end FestoMotorOutputs

end WebserverEthercat

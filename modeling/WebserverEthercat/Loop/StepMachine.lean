import WebserverEthercat.Festo

/-!
# The step machine of `ethercat_loop`

One evaluation of `switch (step)`.  It reads the input image and, in the steps
5 to 8, whether the time limit has passed; it yields the assignments to the
output image in the order of the source, and the new `step` and
`loop_counter`.  Only progress messages are left out.
-/

set_option autoImplicit false

namespace WebserverEthercat

def readyToSwitchOn : Int := 6
def enableOperationContrilWord : Int := 15
def homingOperationMode : Int := 6
def homingControlWord : Int := 31
def enableOperationMode : Int := 1
def homingStatusWord : UInt16 := 38455
def movingControlWord : Int := 63
def target1 : Int := 0
def target2 : Int := -43000
def profileVelocity : Int := 1500
def targetVelocity : Int := 1500
def targetMargin : Int := 10

/-- The end of a run, in milliseconds after the start of the cyclic loop.  The
difference is taken in `uint64_t`. -/
def timeLimitPassed (start now : UInt64) : Bool := decide (60000 ≤ now - start)

structure SwitchResult where
  writes : List (OutputField × Int)
  step : Int
  loopCounter : Int
  timeLimitReached : Bool
deriving DecidableEq, Repr

def positionReached (inputs : FestoMotorInputs) (target : Int) : Bool :=
  decide (inputs.positionActualValue.toInt ≥ target - targetMargin ∧
    inputs.positionActualValue.toInt ≤ target + targetMargin)

/-- The assignments of steps 5 and 7, which differ in the target only. -/
def configureTarget (target : Int) : List (OutputField × Int) :=
  [(.controlWord, enableOperationContrilWord),
    (.modesOfOperation, enableOperationMode),
    (.targetPosition, target),
    (.profileVelocity, profileVelocity),
    (.targetVelocity, targetVelocity)]

def evaluateSwitch (step loopCounter : Int) (inputs : FestoMotorInputs)
    (expired : Bool) : SwitchResult :=
  match step with
  | 0 => ⟨[(.controlWord, readyToSwitchOn)], 1, loopCounter, false⟩
  | 1 => ⟨[(.controlWord, enableOperationContrilWord),
      (.modesOfOperation, enableOperationMode)], 2, loopCounter, false⟩
  | 2 => ⟨[(.controlWord, enableOperationContrilWord),
      (.modesOfOperation, homingOperationMode)], 3, loopCounter, false⟩
  | 3 => ⟨[(.controlWord, homingControlWord)], 4, loopCounter, false⟩
  | 4 =>
      if inputs.statusWord = homingStatusWord then
        ⟨[(.controlWord, enableOperationContrilWord),
          (.modesOfOperation, enableOperationMode)], 5, loopCounter, false⟩
      else ⟨[], 3, loopCounter, false⟩
  | 5 =>
      if expired then ⟨[], 5, loopCounter, true⟩
      else ⟨configureTarget target1, 6, loopCounter, false⟩
  | 6 =>
      if expired then ⟨[], 6, loopCounter, true⟩
      else ⟨[(.controlWord, movingControlWord)],
        if positionReached inputs target1 then 7 else 6, loopCounter, false⟩
  | 7 =>
      if expired then ⟨[], 7, loopCounter, true⟩
      else ⟨configureTarget target2, 8, loopCounter, false⟩
  | 8 =>
      if expired then ⟨[], 8, loopCounter, true⟩
      else if positionReached inputs target2 then
        ⟨[(.controlWord, movingControlWord)], 5, loopCounter + 1, false⟩
      else ⟨[(.controlWord, movingControlWord)], 8, loopCounter, false⟩
  -- "INVALID STATE VALUE."
  | _ => ⟨[], step, loopCounter, false⟩

/-- Whether the step reads through `festo_motor_inputs_ptr`. -/
def readsInputs (step : Int) (expired : Bool) : Bool :=
  step = 4 ∨ (step = 6 ∨ step = 8) ∧ expired = false

end WebserverEthercat

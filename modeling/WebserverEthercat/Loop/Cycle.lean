import WebserverEthercat.Lib.EventMachine
import WebserverEthercat.Loop.ProcessImage
import WebserverEthercat.Loop.StepMachine

/-!
# The run of `ethercat_loop`

`LoopPc` names the places where the function waits for the bus or the clock.
An event carries what the environment answers there: what becomes of the frame
in flight, the AL states, the readings of the clock.  The first exchange and
the wait for OPERATIONAL are `start`, `waitOp` and `enter`; one turn of
`while (1)` is a `cycle`, any number of `recover` rounds and a `body`.

`ethercat_loop_counter` is a natural number here: its overflow after 2^31 - 1
turns is undefined in C.
-/

set_option autoImplicit false

namespace WebserverEthercat

open EventMachine

inductive LoopPc where
  | start
  | waitOp
  | enter
  | head
  | recover
  | body
  /-- `return` without the bus being operational -/
  | givenUp
  | closed
deriving DecidableEq, Repr

structure LoopState where
  pc : LoopPc
  image : ProcessImage
  outputsWKC : UInt16
  inputsWKC : UInt16
  expectedWKC : Int
  wkc : Int
  chk : Int
  inOP : Bool
  ethercatLoopCounter : Nat
  step : Int
  loopCounter : Int
  startTimeMs : UInt64
  timeLimitReached : Bool
deriving DecidableEq, Repr

inductive LoopEvent where
  | start (answer : FrameReturn)
  /-- `state` is `ec_slave[0].state` after `ec_statecheck` -/
  | waitOp (answer : FrameReturn) (state : UInt16)
  | enter (now : UInt64)
  | cycle (answer : FrameReturn)
  /-- `states` are the AL states of the slaves 1, 2, ... that `ec_readstate` finds -/
  | recover (answer : FrameReturn) (states : List UInt16)
  /-- `again` is the second reading of the clock, in the steps 5 to 8 -/
  | body (now again : UInt64)
deriving DecidableEq, Repr

namespace LoopState

/-- The call of `ethercat_loop` by `main`: the statics `step` and
`loop_counter` are 0, and the mapping has set the group's work counters. -/
def initial (image : ProcessImage) (outputsWKC inputsWKC : UInt16) : LoopState :=
  { pc := .start, image, outputsWKC, inputsWKC, expectedWKC := 0, wkc := 0, chk := 0,
    inOP := false, ethercatLoopCounter := 0, step := 0, loopCounter := 0,
    startTimeMs := 0, timeLimitReached := false }

/-- `(ec_group[0].outputsWKC * 2) + ec_group[0].inputsWKC` -/
def groupWKC (state : LoopState) : Int :=
  (state.outputsWKC.toNat : Int) * 2 + state.inputsWKC.toNat

def startUp (state : LoopState) (answer : FrameReturn) : LoopState :=
  { state with
    pc := .waitOp
    inOP := false
    expectedWKC := state.groupWKC
    image := (state.image.exchange answer).2
    chk := 40 }

/-- One round of `do ... while (chk-- && (ec_slave[0].state != EC_STATE_OPERATIONAL))`
and, after the last one, the test that gives up. -/
def waitOperational (state : LoopState) (answer : FrameReturn) (slaveState : UInt16) :
    LoopState :=
  let again := state.chk ≠ 0 ∧ slaveState ≠ ecStateOperational
  { state with
    image := (state.image.exchange answer).2
    chk := state.chk - 1
    pc := if again then .waitOp
      else if slaveState ≠ ecStateOperational then .givenUp
      else .enter }

def enterCyclic (state : LoopState) (now : UInt64) : LoopState :=
  { state with
    pc := .head
    inOP := true
    ethercatLoopCounter := 0
    startTimeMs := now
    timeLimitReached := false }

/-- The unbraced `if (ethercat_loop_counter % 200 == 10)` in front of
`ec_send_processdata()`. -/
def sendsAt (counter : Nat) : Bool := counter % 200 == 10

def cycleHead (state : LoopState) (answer : FrameReturn) : LoopState :=
  let counter := state.ethercatLoopCounter + 1
  let received :=
    if sendsAt counter then state.image.exchange answer
    else state.image.ecReceiveProcessdata answer
  { state with
    ethercatLoopCounter := counter
    image := received.2
    wkc := received.1
    pc := if received.1 < state.expectedWKC then .recover else .body }

def recoverRound (state : LoopState) (answer : FrameReturn) : LoopState :=
  let received := state.image.exchange answer
  { state with
    image := received.2
    wkc := received.1
    expectedWKC := state.groupWKC
    pc := if received.1 < state.groupWKC then .recover else .body }

def stopsAt (state : LoopState) (now : UInt64) : Bool :=
  state.timeLimitReached || timeLimitPassed state.startTimeMs now

def switchResult (state : LoopState) (again : UInt64) : SwitchResult :=
  evaluateSwitch state.step state.loopCounter state.image.inputs
    (timeLimitPassed state.startTimeMs again)

def cycleBody (state : LoopState) (now again : UInt64) : LoopState :=
  if state.stopsAt now then { state with pc := .closed, timeLimitReached := true }
  else
    let result := state.switchResult again
    { state with
      pc := .head
      image := state.image.writeAll result.writes
      step := result.step
      loopCounter := result.loopCounter
      timeLimitReached := result.timeLimitReached }

def next (state : LoopState) (event : LoopEvent) : Option LoopState :=
  match state.pc, event with
  | .start, .start answer => some (state.startUp answer)
  | .waitOp, .waitOp answer slaveState => some (state.waitOperational answer slaveState)
  | .enter, .enter now => some (state.enterCyclic now)
  | .head, .cycle answer => some (state.cycleHead answer)
  | .recover, .recover answer _ => some (state.recoverRound answer)
  | .body, .body now again => some (state.cycleBody now again)
  | _, _ => none

theorem next_eq_some {state after : LoopState} {event : LoopEvent}
    (step : state.next event = some after) :
    (∃ answer, event = .start answer ∧ state.pc = .start ∧ after = state.startUp answer) ∨
    (∃ answer slaveState, event = .waitOp answer slaveState ∧ state.pc = .waitOp ∧
      after = state.waitOperational answer slaveState) ∨
    (∃ now, event = .enter now ∧ state.pc = .enter ∧ after = state.enterCyclic now) ∨
    (∃ answer, event = .cycle answer ∧ state.pc = .head ∧ after = state.cycleHead answer) ∨
    (∃ answer states, event = .recover answer states ∧ state.pc = .recover ∧
      after = state.recoverRound answer) ∨
    (∃ now again, event = .body now again ∧ state.pc = .body ∧
      after = state.cycleBody now again) := by
  unfold next at step
  split at step <;> cases step
  case h_1 answer pcIs => exact .inl ⟨answer, rfl, pcIs, rfl⟩
  case h_2 answer slaveState pcIs =>
    exact .inr (.inl ⟨answer, slaveState, rfl, pcIs, rfl⟩)
  case h_3 now pcIs => exact .inr (.inr (.inl ⟨now, rfl, pcIs, rfl⟩))
  case h_4 answer pcIs => exact .inr (.inr (.inr (.inl ⟨answer, rfl, pcIs, rfl⟩)))
  case h_5 answer states pcIs =>
    exact .inr (.inr (.inr (.inr (.inl ⟨answer, states, rfl, pcIs, rfl⟩))))
  case h_6 now again pcIs =>
    exact .inr (.inr (.inr (.inr (.inr ⟨now, again, rfl, pcIs, rfl⟩))))

theorem next_at_head {state after : LoopState} {event : LoopEvent} (atHead : state.pc = .head)
    (step : state.next event = some after) :
    ∃ answer, event = .cycle answer ∧ after = state.cycleHead answer := by
  cases event <;> simp only [next, atHead, reduceCtorEq, Option.some.injEq] at step
  case cycle answer => exact ⟨answer, rfl, step.symm⟩

theorem next_at_recover {state after : LoopState} {event : LoopEvent}
    (atRecover : state.pc = .recover) (step : state.next event = some after) :
    ∃ answer states, event = .recover answer states ∧ after = state.recoverRound answer := by
  cases event <;> simp only [next, atRecover, reduceCtorEq, Option.some.injEq] at step
  case recover answer states => exact ⟨answer, states, rfl, step.symm⟩

theorem next_at_body {state after : LoopState} {event : LoopEvent} (atBody : state.pc = .body)
    (step : state.next event = some after) :
    ∃ now again, event = .body now again ∧ after = state.cycleBody now again := by
  cases event <;> simp only [next, atBody, reduceCtorEq, Option.some.injEq] at step
  case body now again => exact ⟨now, again, rfl, step.symm⟩

theorem next_at_closed (state : LoopState) (event : LoopEvent) (atClosed : state.pc = .closed) :
    state.next event = none := by
  cases event <;> simp [next, atClosed]

/-! ## What an event does to the process image -/

def actions (state : LoopState) : LoopEvent → List LoopAction
  | .start answer => [.send, .receive answer]
  | .waitOp answer _ => [.send, .receive answer]
  | .enter _ => []
  | .cycle answer =>
      if sendsAt (state.ethercatLoopCounter + 1) then [.send, .receive answer]
      else [.receive answer]
  | .recover answer _ => [.send, .receive answer]
  | .body now again =>
      if state.stopsAt now then []
      else (state.switchResult again).writes.map fun assignment =>
        .write assignment.1 assignment.2

/-- The image moves by the listed actions and in no other way. -/
theorem next_image {state after : LoopState} {event : LoopEvent}
    (step : state.next event = some after) :
    after.image = state.image.performAll (state.actions event) := by
  rcases next_eq_some step with ⟨answer, rfl, -, rfl⟩ | ⟨answer, slaveState, rfl, -, rfl⟩ |
    ⟨now, rfl, -, rfl⟩ | ⟨answer, rfl, -, rfl⟩ | ⟨answer, states, rfl, -, rfl⟩ |
    ⟨now, again, rfl, -, rfl⟩
  · rfl
  · rfl
  · rfl
  · by_cases sends : sendsAt (state.ethercatLoopCounter + 1) = true
    · simp only [cycleHead, actions, if_pos sends]
      rfl
    · simp only [cycleHead, actions, if_neg sends]
      rfl
  · rfl
  · by_cases stops : state.stopsAt now = true
    · simp only [cycleBody, actions, if_pos stops]
      rfl
    · simp only [cycleBody, actions, if_neg stops]
      rw [ProcessImage.performAll_writes]

theorem run_image :
    ∀ (events : List LoopEvent) (state final : LoopState), run next events state = some final →
      final.image = state.image.performAll (record next actions events state) := by
  intro events
  induction events with
  | nil =>
      intro state final success
      cases Option.some.inj success
      rfl
  | cons event rest ih =>
      intro state final success
      obtain ⟨middle, step, restRun⟩ := (run_cons_eq_some ..).mp success
      have later := ih middle final restRun
      rw [next_image step, ← ProcessImage.performAll_append] at later
      simpa only [record, step, Option.elim_some] using later

/-! ## Evaluations of the switch -/

structure Evaluation where
  step : Int
  inputs : FestoMotorInputs
  result : SwitchResult
  /-- the output image that the evaluation leaves -/
  left : FestoMotorOutputs
deriving DecidableEq, Repr

def evaluations (state : LoopState) : LoopEvent → List Evaluation
  | .body now again =>
      if state.stopsAt now then []
      else [⟨state.step, state.image.inputs, state.switchResult again,
        (state.cycleBody now again).image.outputs⟩]
  | _ => []

theorem cycleHead_keeps (state : LoopState) (answer : FrameReturn)
    (idle : state.image.frame = none) :
    (state.cycleHead answer).image.outputs = state.image.outputs ∧
      (state.cycleHead answer).image.frame = none := by
  by_cases sends : sendsAt (state.ethercatLoopCounter + 1) = true
  · simp [cycleHead, if_pos sends]
  · simp [cycleHead, if_neg sends, idle]

/-- With no frame in flight an event either evaluates the switch or keeps the
step and the output image; none leaves a frame in flight. -/
theorem next_evaluates_or_keeps {state after : LoopState} {event : LoopEvent}
    (idle : state.image.frame = none) (step : state.next event = some after) :
    after.image.frame = none ∧
      ((∃ now again, event = .body now again ∧ state.pc = .body ∧
          state.stopsAt now = false ∧
          after = state.cycleBody now again ∧
          after.step = (state.switchResult again).step ∧
          after.image = state.image.writeAll (state.switchResult again).writes ∧
          state.evaluations event = [⟨state.step, state.image.inputs,
            state.switchResult again, after.image.outputs⟩]) ∨
        (state.evaluations event = [] ∧ after.step = state.step ∧
          after.image.outputs = state.image.outputs)) := by
  rcases next_eq_some step with ⟨answer, rfl, -, rfl⟩ | ⟨answer, slaveState, rfl, -, rfl⟩ |
    ⟨now, rfl, -, rfl⟩ | ⟨answer, rfl, -, rfl⟩ | ⟨answer, states, rfl, -, rfl⟩ |
    ⟨now, again, rfl, atBody, rfl⟩
  · exact ⟨state.image.exchange_frame answer, .inr ⟨rfl, rfl, state.image.exchange_outputs answer⟩⟩
  · exact ⟨state.image.exchange_frame answer, .inr ⟨rfl, rfl, state.image.exchange_outputs answer⟩⟩
  · exact ⟨idle, .inr ⟨rfl, rfl, rfl⟩⟩
  · obtain ⟨outputs, frame⟩ := state.cycleHead_keeps answer idle
    exact ⟨frame, .inr ⟨rfl, rfl, outputs⟩⟩
  · exact ⟨state.image.exchange_frame answer, .inr ⟨rfl, rfl, state.image.exchange_outputs answer⟩⟩
  · cases stops : state.stopsAt now with
    | true =>
        have closes : state.cycleBody now again =
            { state with pc := .closed, timeLimitReached := true } := by
          simp [cycleBody, stops]
        rw [closes]
        exact ⟨idle, .inr ⟨by simp [evaluations, stops], rfl, rfl⟩⟩
    | false =>
        have stepIs : (state.cycleBody now again).step = (state.switchResult again).step := by
          simp [cycleBody, stops]
        have imageIs : (state.cycleBody now again).image =
            state.image.writeAll (state.switchResult again).writes := by
          simp [cycleBody, stops]
        refine ⟨?_, .inl ⟨now, again, rfl, atBody, stops, rfl, stepIs, imageIs, ?_⟩⟩
        · rw [imageIs, ProcessImage.writeAll_frame]
          exact idle
        · simp [evaluations, stops]

/-! ## The calls of an event -/

/-- The state writes for the slaves that are not OPERATIONAL, numbered from `slave` on. -/
def reconnect : Nat → List UInt16 → List BusCall
  | _, [] => []
  | slave, state :: rest =>
      (if state ≠ ecStateOperational then
        [.writestate slave ecStatePreOp, .writestate slave ecStateSafeOp,
          .writestate slave ecStateOperational]
      else []) ++ reconnect (slave + 1) rest

def busCalls (state : LoopState) : LoopEvent → List BusCall
  | .start _ => [.sendProcessdata, .receiveProcessdata, .writestate 0 ecStateOperational]
  | .waitOp answer slaveState =>
      [.sendProcessdata, .receiveProcessdata, .statecheck 0 ecStateOperational] ++
        if (state.waitOperational answer slaveState).pc = .givenUp then [.readstate] else []
  | .enter _ => [.sdoWrite, .sdoWrite, .sdoWrite]
  | .cycle _ =>
      if sendsAt (state.ethercatLoopCounter + 1) then [.sendProcessdata, .receiveProcessdata]
      else [.receiveProcessdata]
  | .recover _ states =>
      [.sendProcessdata, .receiveProcessdata, .readstate] ++ reconnect 1 states
  | .body now _ => if state.stopsAt now then [.close] else []

end LoopState

end WebserverEthercat

import WebserverEthercat.Lib.Alternation
import WebserverEthercat.Loop.Cycle

/-!
# The number of completed loops

The steps 6 and 8 of the switch observe the position of the drive, unless the
time limit leaves the step before.  `loop_counter` counts the round trips in
what was observed: an arrival at `TARGET_1` in step 6 and then one at
`TARGET_2` in step 8.
-/

set_option autoImplicit false

namespace WebserverEthercat.RoundTrips

open EventMachine LoopState Alternation

/-- A position that an evaluation has read, with the step it was in. -/
structure Observation where
  step : Int
  position : Int
deriving DecidableEq, Repr

def observations (state : LoopState) : LoopEvent → List Observation
  | .body now again =>
      if state.stopsAt now = false ∧
          readsInputs state.step (timeLimitPassed state.startTimeMs again) = true then
        [⟨state.step, state.image.inputs.positionActualValue.toInt⟩]
      else []
  | _ => []

def within (target : Int) (position : Int) : Bool :=
  decide ((position - target).natAbs ≤ targetMargin)

def arrivesAt1 (observation : Observation) : Bool :=
  observation.step = 6 ∧ within target1 observation.position = true

def arrivesAt2 (observation : Observation) : Bool :=
  observation.step = 8 ∧ within target2 observation.position = true

/-- The drive has arrived at `TARGET_1` and not yet at `TARGET_2`. -/
def returning (step : Int) : Bool := step = 7 ∨ step = 8

/-! ## One evaluation -/

theorem positionReached_eq_within (inputs : FestoMotorInputs) (target : Int) :
    positionReached inputs target = within target inputs.positionActualValue.toInt := by
  rw [positionReached, within, targetMargin, decide_eq_decide]
  omega

/-- The arrivals alone drive the phase and `loop_counter`. -/
theorem evaluateSwitch_observed {step : Int} {expired : Bool}
    (reads : readsInputs step expired = true) (loopCounter : Int) (inputs : FestoMotorInputs) :
    let result := evaluateSwitch step loopCounter inputs expired
    let observed : Observation := ⟨step, inputs.positionActualValue.toInt⟩
    returning result.step = (if returning step then !arrivesAt2 observed
        else arrivesAt1 observed) ∧
      result.loopCounter = loopCounter +
        if returning step && arrivesAt2 observed then 1 else 0 := by
  intro result observed
  have cases : step = 4 ∨ (step = 6 ∨ step = 8) ∧ expired = false := by
    simpa [readsInputs] using reads
  rcases cases with rfl | ⟨rfl | rfl, rfl⟩
  · by_cases homed : inputs.statusWord = homingStatusWord <;>
      simp [result, observed, evaluateSwitch, homed, returning, arrivesAt1]
  · cases reached : positionReached inputs target1 <;>
      simp [result, observed, evaluateSwitch, reached, returning, arrivesAt1,
        ← positionReached_eq_within]
  · cases reached : positionReached inputs target2 <;>
      simp [result, observed, evaluateSwitch, reached, returning, arrivesAt2,
        ← positionReached_eq_within]

/-- Where no input is read, also because the time limit leaves the step, both are kept. -/
theorem evaluateSwitch_unobserved {step : Int} {expired : Bool}
    (unread : readsInputs step expired = false) (loopCounter : Int)
    (inputs : FestoMotorInputs) :
    let result := evaluateSwitch step loopCounter inputs expired
    returning result.step = returning step ∧ result.loopCounter = loopCounter := by
  intro result
  simp only [result]
  unfold evaluateSwitch
  split
  case h_5 => simp [readsInputs] at unread
  case h_6 | h_8 => cases expired <;> simp [returning]
  case h_7 | h_9 =>
    have late : expired = true := by simpa [readsInputs] using unread
    simp [late, returning]
  all_goals simp [returning]

/-! ## The run -/

/-- What the phase and the counter owe to the observations so far. -/
structure CountInvariant (history : List Observation) (state : LoopState) : Prop where
  phase : awayAfter arrivesAt1 arrivesAt2 false history = returning state.step
  counted : state.loopCounter = completed arrivesAt1 arrivesAt2 false history
  outward : history.countP arrivesAt1 =
    completed arrivesAt1 arrivesAt2 false history + if returning state.step then 1 else 0

theorem next_counts {state after : LoopState} {event : LoopEvent}
    (step : state.next event = some after) :
    (∃ expired, readsInputs state.step expired = true ∧
        observations state event =
          [⟨state.step, state.image.inputs.positionActualValue.toInt⟩] ∧
        after.step = (evaluateSwitch state.step state.loopCounter state.image.inputs
          expired).step ∧
        after.loopCounter = (evaluateSwitch state.step state.loopCounter state.image.inputs
          expired).loopCounter) ∨
      observations state event = [] ∧ returning after.step = returning state.step ∧
        after.loopCounter = state.loopCounter := by
  rcases next_eq_some step with ⟨answer, rfl, -, rfl⟩ | ⟨answer, slaveState, rfl, -, rfl⟩ |
    ⟨now, rfl, -, rfl⟩ | ⟨answer, rfl, -, rfl⟩ | ⟨answer, states, rfl, -, rfl⟩ |
    ⟨now, again, rfl, -, rfl⟩
  case inr.inr.inr.inr.inr =>
    cases stops : state.stopsAt now with
    | true => exact .inr (by simp [observations, cycleBody, stops])
    | false =>
        cases reads : readsInputs state.step (timeLimitPassed state.startTimeMs again) with
        | true =>
            exact .inl ⟨_, reads, by simp [observations, stops, reads],
              by simp [cycleBody, stops, switchResult], by simp [cycleBody, stops, switchResult]⟩
        | false =>
            obtain ⟨phase, counter⟩ :=
              evaluateSwitch_unobserved reads state.loopCounter state.image.inputs
            exact .inr ⟨by simp [observations, reads],
              by simpa [cycleBody, stops, switchResult] using phase,
              by simpa [cycleBody, stops, switchResult] using counter⟩
  all_goals exact .inr ⟨rfl, rfl, rfl⟩

theorem not_arrivesAt1_of_returning {observation : Observation}
    (away : returning observation.step = true) : arrivesAt1 observation = false := by
  have late : observation.step ≠ 6 := by
    intro at6
    rw [at6] at away
    cases away
  simp [arrivesAt1, late]

theorem CountInvariant.observe {history : List Observation} {state after : LoopState}
    (holds : CountInvariant history state) {observation : Observation}
    (here : observation.step = state.step)
    (phase : returning after.step = if returning state.step then !arrivesAt2 observation
      else arrivesAt1 observation)
    (counter : after.loopCounter = state.loopCounter +
      if returning state.step && arrivesAt2 observation then 1 else 0) :
    CountInvariant (history ++ [observation]) after := by
  have counted := completed_snoc arrivesAt1 arrivesAt2 history observation false
  rw [holds.phase] at counted
  refine ⟨?_, ?_, ?_⟩
  · rw [awayAfter_snoc, holds.phase, phase]
  · rw [counter, holds.counted, counted]
    push_cast
    rfl
  · rw [counted, List.countP_append, List.countP_singleton, holds.outward, phase]
    cases away : returning state.step with
    | true =>
        have notHere := not_arrivesAt1_of_returning (here ▸ away)
        cases arrivesAt2 observation <;> simp [notHere]
    | false => simp

theorem run_countInvariant (image : ProcessImage) (outputsWKC inputsWKC : UInt16) :
    let start := LoopState.initial image outputsWKC inputsWKC
    ∀ (events : List LoopEvent) (final : LoopState), run next events start = some final →
      CountInvariant (record next observations events start) final := by
  intro start
  refine run_history_invariant ⟨rfl, rfl, rfl⟩ ?_
  intro events state event after reached holds step
  rw [record_snoc next observations events event start state reached]
  rcases next_counts step with ⟨expired, reads, observed, stepIs, counterIs⟩ |
    ⟨unobserved, phase, counter⟩
  · obtain ⟨phase, counter⟩ :=
      evaluateSwitch_observed reads state.loopCounter state.image.inputs
    rw [observed]
    exact holds.observe rfl (stepIs ▸ phase) (counterIs ▸ counter)
  · rw [unobserved, List.append_nil]
    exact ⟨phase ▸ holds.phase, counter ▸ holds.counted, phase ▸ holds.outward⟩

/-! ## The range of the counter -/

/-- A turn in progress has been counted by `ethercat_loop_counter` only. -/
def BoundedByTurns (state : LoopState) : Prop :=
  match state.pc with
  | .start | .waitOp | .enter | .givenUp => state.loopCounter = 0
  | .recover | .body => state.loopCounter + 1 ≤ state.ethercatLoopCounter
  | .head | .closed => state.loopCounter ≤ state.ethercatLoopCounter

theorem evaluateSwitch_counter_le (step loopCounter : Int) (inputs : FestoMotorInputs)
    (expired : Bool) :
    (evaluateSwitch step loopCounter inputs expired).loopCounter ≤ loopCounter + 1 := by
  cases reads : readsInputs step expired with
  | true =>
      rw [(evaluateSwitch_observed reads loopCounter inputs).2]
      split <;> omega
  | false =>
      rw [(evaluateSwitch_unobserved reads loopCounter inputs).2]
      omega

theorem next_boundedByTurns {state after : LoopState} {event : LoopEvent}
    (bounded : BoundedByTurns state) (step : state.next event = some after) :
    BoundedByTurns after := by
  rcases next_eq_some step with ⟨answer, rfl, pc, rfl⟩ | ⟨answer, slaveState, rfl, pc, rfl⟩ |
    ⟨now, rfl, pc, rfl⟩ | ⟨answer, rfl, pc, rfl⟩ | ⟨answer, states, rfl, pc, rfl⟩ |
    ⟨now, again, rfl, pc, rfl⟩ <;> simp only [BoundedByTurns, pc] at bounded
  · exact bounded
  · simp only [BoundedByTurns, waitOperational]
    split_ifs <;> exact bounded
  · simp [BoundedByTurns, enterCyclic, bounded]
  · simp only [BoundedByTurns, cycleHead]
    split_ifs <;> push_cast <;> omega
  · simp only [BoundedByTurns, recoverRound]
    split_ifs <;> exact bounded
  · have counted := evaluateSwitch_counter_le state.step state.loopCounter state.image.inputs
      (timeLimitPassed state.startTimeMs again)
    cases stops : state.stopsAt now with
    | true =>
        simp only [BoundedByTurns, cycleBody, stops, if_true]
        omega
    | false =>
        simp only [BoundedByTurns, cycleBody, stops, switchResult]
        simp only [Bool.false_eq_true, if_false]
        omega

/-- Both are `int`: `loop_counter` does not overflow before `ethercat_loop_counter` does. -/
theorem loopCounter_le_turns (image : ProcessImage) (outputsWKC inputsWKC : UInt16)
    (events : List LoopEvent) (final : LoopState)
    (success : run next events (LoopState.initial image outputsWKC inputsWKC) = some final) :
    final.loopCounter ≤ final.ethercatLoopCounter := by
  have start : BoundedByTurns (LoopState.initial image outputsWKC inputsWKC) := rfl
  have bounded : BoundedByTurns final :=
    run_invariant (fun _ _ _ holds step => next_boundedByTurns holds step) events _ final start
      success
  simp only [BoundedByTurns] at bounded
  split at bounded <;> omega

/-- In every state of a run `loop_counter` is the greatest number of round trips in the
positions observed so far, and at most one more arrival at `TARGET_1` was observed. -/
theorem loop_counter_counts_round_trips (image : ProcessImage) (outputsWKC inputsWKC : UInt16)
    (events : List LoopEvent) (final : LoopState)
    (success : run next events (LoopState.initial image outputsWKC inputsWKC) = some final) :
    let history := record next observations events
      (LoopState.initial image outputsWKC inputsWKC)
    ∃ trips : Nat, final.loopCounter = trips ∧
      IsGreatest {count | Contains arrivesAt1 arrivesAt2 history count} trips ∧
      (history.countP arrivesAt1 = trips ∨ history.countP arrivesAt1 = trips + 1) := by
  intro history
  have holds := run_countInvariant image outputsWKC inputsWKC events final success
  refine ⟨_, holds.counted, completed_isGreatest history, ?_⟩
  have outward := holds.outward
  split at outward
  · exact .inr outward
  · exact .inl outward

/-- Nine turns with a drive that is at `TARGET_1` up to the last of them. -/
def oneTrip : List LoopEvent :=
  let home : FestoMotorInputs := { FestoMotorInputs.zero with statusWord := 38455 }
  let turn (inputs : FestoMotorInputs) : List LoopEvent :=
    [.cycle .lost, .recover (.returned 3 inputs) [8], .body 5 6]
  .start .lost :: .waitOp (.returned 3 home) 8 :: .enter 5 ::
    ((List.replicate 8 (turn home)).flatten ++ turn { home with positionActualValue := -42995 })

theorem loop_counter_counts_round_trips_oneTrip :
    ∃ final, run next oneTrip (LoopState.initial ⟨.zero, .zero, none⟩ 1 1) = some final ∧
      final.loopCounter = 1 ∧
      IsGreatest {count | Contains arrivesAt1 arrivesAt2 (record next observations oneTrip
        (LoopState.initial ⟨.zero, .zero, none⟩ 1 1)) count} 1 := by
  refine ⟨_, rfl, rfl, ?_⟩
  obtain ⟨trips, counter, greatest, -⟩ :=
    loop_counter_counts_round_trips ⟨.zero, .zero, none⟩ 1 1 oneTrip _ rfl
  have once : trips = 1 := by
    have cast : (1 : Int) = trips := counter
    omega
  rwa [once] at greatest

end WebserverEthercat.RoundTrips

import WebserverEthercat.Loop.Cycle

/-!
# Motion safety of the step machine

Without requests that write the outputs, MOVING_CONTROL_WORD is in the output
image only after homing was seen, with the configured mode and velocities and
with the target that the latest evaluation of step 5 or 7 has set.
-/

set_option autoImplicit false

namespace WebserverEthercat.MotionSafety

open EventMachine LoopState

/-! ## What one evaluation can do -/

/-- The five kinds of evaluations that start in one of the steps 0 to 8. -/
inductive SwitchEffect (state : LoopState) (result : SwitchResult)
    (outputs : FestoMotorOutputs) : Prop where
  | starting (from4 : state.step ≤ 4) (range : 0 ≤ result.step ∧ result.step ≤ 4)
      (word : outputs.load .controlWord ≠ movingControlWord ∨ outputs = state.image.outputs)
      (target : outputs.load .targetPosition = state.image.outputs.load .targetPosition)
  | homed (at4 : state.step = 4) (status : state.image.inputs.statusWord = homingStatusWord)
      (to5 : result.step = 5)
      (word : outputs.load .controlWord = enableOperationContrilWord)
      (target : outputs.load .targetPosition = state.image.outputs.load .targetPosition)
  | cut (from5 : 5 ≤ state.step) (stays : result.step = state.step)
      (reached : result.timeLimitReached = true) (same : outputs = state.image.outputs)
  | configure (goal : Int)
      (atGoal : state.step = 5 ∧ goal = target1 ∧ result.step = 6 ∨
        state.step = 7 ∧ goal = target2 ∧ result.step = 8)
      (uncut : result.timeLimitReached = false)
      (word : outputs.load .controlWord = enableOperationContrilWord)
      (mode : outputs.load .modesOfOperation = enableOperationMode)
      (target : outputs.load .targetPosition = goal)
      (profile : outputs.load .profileVelocity = profileVelocity)
      (velocity : outputs.load .targetVelocity = targetVelocity)
  | moving (from6 : state.step = 6 ∧ (result.step = 6 ∨ result.step = 7) ∨
        state.step = 8 ∧ (result.step = 8 ∨ result.step = 5))
      (word : outputs.load .controlWord = movingControlWord)
      (others : ∀ field, field ≠ .controlWord →
        outputs.load field = state.image.outputs.load field)

theorem configureTarget_loads (image : ProcessImage) (goal : Int)
    (inRange : OutputField.InRange .targetPosition goal) :
    let outputs := (image.writeAll (configureTarget goal)).outputs
    outputs.load .controlWord = enableOperationContrilWord ∧
      outputs.load .modesOfOperation = enableOperationMode ∧
      outputs.load .targetPosition = goal ∧
      outputs.load .profileVelocity = profileVelocity ∧
      outputs.load .targetVelocity = targetVelocity := by
  have goalKept := OutputField.converted_of_inRange .targetPosition goal inRange
  simp only [configureTarget, ProcessImage.writeAll_cons, ProcessImage.writeAll_nil, ne_eq,
    reduceCtorEq, not_false_eq_true, ProcessImage.load_write_other, ProcessImage.load_write_same]
  exact ⟨rfl, rfl, goalKept, rfl, rfl⟩

/-- A switch result that only sets the control word, and perhaps the mode. -/
theorem word_mode_loads (image : ProcessImage) (word mode : Int) :
    let outputs := (image.writeAll [(.controlWord, word), (.modesOfOperation, mode)]).outputs
    outputs.load .controlWord = OutputField.converted .controlWord word ∧
      outputs.load .targetPosition = image.outputs.load .targetPosition := by
  simp

theorem word_loads (image : ProcessImage) (word : Int) :
    let outputs := (image.writeAll [(.controlWord, word)]).outputs
    outputs.load .controlWord = OutputField.converted .controlWord word ∧
      ∀ field, field ≠ .controlWord → outputs.load field = image.outputs.load field :=
  ⟨image.load_write_same .controlWord word, fun field different =>
    image.load_write_other .controlWord field word different⟩

theorem switch_effect (state : LoopState) (again : UInt64)
    (range : 0 ≤ state.step ∧ state.step ≤ 8) :
    SwitchEffect state (state.switchResult again)
      (state.image.writeAll (state.switchResult again).writes).outputs := by
  have steps : state.step = 0 ∨ state.step = 1 ∨ state.step = 2 ∨ state.step = 3 ∨
      state.step = 4 ∨ state.step = 5 ∨ state.step = 6 ∨ state.step = 7 ∨
      state.step = 8 := by omega
  unfold switchResult
  generalize timeLimitPassed state.startTimeMs again = expired
  rcases steps with at0 | at1 | at2 | at3 | at4 | at5 | at6 | at7 | at8
  · rw [at0]
    obtain ⟨word, others⟩ := word_loads state.image readyToSwitchOn
    refine .starting (by omega) ⟨by simp [evaluateSwitch], by simp [evaluateSwitch]⟩ (.inl ?_)
      (others .targetPosition (by decide))
    exact word.symm ▸ by decide
  · rw [at1]
    obtain ⟨word, target⟩ :=
      word_mode_loads state.image enableOperationContrilWord enableOperationMode
    refine .starting (by omega) ⟨by simp [evaluateSwitch], by simp [evaluateSwitch]⟩ (.inl ?_)
      target
    exact word.symm ▸ by decide
  · rw [at2]
    obtain ⟨word, target⟩ :=
      word_mode_loads state.image enableOperationContrilWord homingOperationMode
    refine .starting (by omega) ⟨by simp [evaluateSwitch], by simp [evaluateSwitch]⟩ (.inl ?_)
      target
    exact word.symm ▸ by decide
  · rw [at3]
    obtain ⟨word, others⟩ := word_loads state.image homingControlWord
    refine .starting (by omega) ⟨by simp [evaluateSwitch], by simp [evaluateSwitch]⟩ (.inl ?_)
      (others .targetPosition (by decide))
    exact word.symm ▸ by decide
  · rw [at4]
    by_cases status : state.image.inputs.statusWord = homingStatusWord
    · obtain ⟨word, target⟩ :=
        word_mode_loads state.image enableOperationContrilWord enableOperationMode
      simp only [evaluateSwitch, if_pos status]
      exact .homed at4 status rfl word target
    · simp only [evaluateSwitch, if_neg status]
      exact .starting (by omega) ⟨by simp, by simp⟩ (.inr rfl) rfl
  · rw [at5]
    cases expired with
    | true => exact .cut (by omega) at5.symm rfl rfl
    | false =>
        obtain ⟨word, mode, target, profile, velocity⟩ :=
          configureTarget_loads state.image target1 (by decide)
        exact .configure target1 (.inl ⟨at5, rfl, rfl⟩) rfl word mode target profile velocity
  · rw [at6]
    cases expired with
    | true => exact .cut (by omega) at6.symm rfl rfl
    | false =>
        obtain ⟨word, others⟩ := word_loads state.image movingControlWord
        refine .moving (.inl ⟨at6, ?_⟩) word others
        cases reached : positionReached state.image.inputs target1 with
        | true => exact .inr (by simp [evaluateSwitch, reached])
        | false => exact .inl (by simp [evaluateSwitch, reached])
  · rw [at7]
    cases expired with
    | true => exact .cut (by omega) at7.symm rfl rfl
    | false =>
        obtain ⟨word, mode, target, profile, velocity⟩ :=
          configureTarget_loads state.image target2 (by decide)
        exact .configure target2 (.inr ⟨at7, rfl, rfl⟩) rfl word mode target profile velocity
  · rw [at8]
    cases expired with
    | true => exact .cut (by omega) at8.symm rfl rfl
    | false =>
        obtain ⟨word, others⟩ := word_loads state.image movingControlWord
        cases reached : positionReached state.image.inputs target2 with
        | true =>
            simp only [evaluateSwitch, reached, if_true]
            exact .moving (.inr ⟨at8, .inr rfl⟩) word others
        | false =>
            simp only [evaluateSwitch, reached]
            exact .moving (.inr ⟨at8, .inl rfl⟩) word others

/-! ## The history that matters -/

def Homed (evaluations : List Evaluation) : Prop :=
  ∃ evaluation ∈ evaluations,
    evaluation.step = 4 ∧ evaluation.inputs.statusWord = homingStatusWord

/-- An evaluation of step 5 or 7 that the time limit has not cut short. -/
def SetsTarget (evaluation : Evaluation) (target : Int) : Prop :=
  evaluation.result.timeLimitReached = false ∧
    (evaluation.step = 5 ∧ target = target1 ∨ evaluation.step = 7 ∧ target = target2) ∧
    evaluation.left.load .targetPosition = target

/-- The latest evaluation of step 5 or 7 has set `target`: those after it, if
any, were left by the time limit before their assignments. -/
def LatestTarget (evaluations : List Evaluation) (target : Int) : Prop :=
  ∃ before evaluation after, evaluations = before ++ evaluation :: after ∧
    SetsTarget evaluation target ∧
    ∀ later ∈ after, later.step = 5 ∨ later.step = 7 → later.result.timeLimitReached = true

structure Configured (evaluations : List Evaluation) (outputs : FestoMotorOutputs) : Prop where
  mode : outputs.load .modesOfOperation = enableOperationMode
  profile : outputs.load .profileVelocity = profileVelocity
  velocity : outputs.load .targetVelocity = targetVelocity
  target : LatestTarget evaluations (outputs.load .targetPosition)

theorem Homed.append {evaluations : List Evaluation} (homed : Homed evaluations)
    (more : List Evaluation) : Homed (evaluations ++ more) := by
  obtain ⟨evaluation, member, facts⟩ := homed
  exact ⟨evaluation, List.mem_append_left more member, facts⟩

theorem LatestTarget.snoc {evaluations : List Evaluation} {target : Int}
    (latest : LatestTarget evaluations target) (evaluation : Evaluation)
    (cut : evaluation.step = 5 ∨ evaluation.step = 7 →
      evaluation.result.timeLimitReached = true) :
    LatestTarget (evaluations ++ [evaluation]) target := by
  obtain ⟨before, setter, after, rfl, sets, later⟩ := latest
  refine ⟨before, setter, after ++ [evaluation], by simp, sets, ?_⟩
  intro other member
  rcases List.mem_append.mp member with early | last
  · exact later other early
  · rw [List.mem_singleton.mp last]
    exact cut

theorem LatestTarget.set (evaluations : List Evaluation) {evaluation : Evaluation}
    {target : Int} (sets : SetsTarget evaluation target) :
    LatestTarget (evaluations ++ [evaluation]) target :=
  ⟨evaluations, evaluation, [], rfl, sets, by simp⟩

/-- The invariant of the run: what the fields that `step` has not yet
rewritten still owe to the evaluations before. -/
structure StepInvariant (evaluations : List Evaluation) (state : LoopState) : Prop where
  idle : state.image.frame = none
  range : 0 ≤ state.step ∧ state.step ≤ 8
  resting : state.step ≤ 4 → state.image.outputs.load .controlWord ≠ movingControlWord
  homed : 5 ≤ state.step → Homed evaluations
  configured : 6 ≤ state.step ∨ state.image.outputs.load .controlWord = movingControlWord →
    Configured evaluations state.image.outputs

theorem initial_invariant (inputs : FestoMotorInputs) (outputsWKC inputsWKC : UInt16) :
    StepInvariant [] (LoopState.initial ⟨.zero, inputs, none⟩ outputsWKC inputsWKC) := by
  have stepIs : (LoopState.initial ⟨.zero, inputs, none⟩ outputsWKC inputsWKC).step = 0 := rfl
  have rests : FestoMotorOutputs.zero.load .controlWord ≠ movingControlWord := by decide
  refine ⟨rfl, by omega, fun _ => rests, by omega, ?_⟩
  rintro (late | moving)
  · omega
  · exact absurd moving rests

theorem evaluation_invariant {evaluations : List Evaluation} {state after : LoopState}
    {again : UInt64} (holds : StepInvariant evaluations state)
    (idle : after.image.frame = none)
    (stepIs : after.step = (state.switchResult again).step)
    (imageIs : after.image = state.image.writeAll (state.switchResult again).writes) :
    StepInvariant (evaluations ++ [⟨state.step, state.image.inputs,
      state.switchResult again, after.image.outputs⟩]) after := by
  have effect := switch_effect state again holds.range
  rw [← imageIs] at effect
  set evaluation : Evaluation :=
    ⟨state.step, state.image.inputs, state.switchResult again, after.image.outputs⟩
  cases effect with
  | starting from4 range word target =>
      have rests : after.image.outputs.load .controlWord ≠ movingControlWord := by
        rcases word with word | same
        · exact word
        · rw [same]
          exact holds.resting from4
      refine ⟨idle, by omega, fun _ => rests, fun late => by omega, ?_⟩
      rintro (late | moving)
      · omega
      · exact absurd moving rests
  | homed at4 status to5 word target =>
      have rests : after.image.outputs.load .controlWord ≠ movingControlWord := by
        rw [word]
        decide
      refine ⟨idle, by omega, fun _ => rests, fun _ => ?_, ?_⟩
      · exact ⟨evaluation, List.mem_append_right _ (List.mem_singleton.mpr rfl), at4, status⟩
      · rintro (late | moving)
        · omega
        · exact absurd moving rests
  | cut from5 stays reached same =>
      refine ⟨idle, by rw [stepIs, stays]; exact holds.range, by omega,
        fun _ => (holds.homed from5).append _, ?_⟩
      intro late
      have before : Configured evaluations state.image.outputs := by
        apply holds.configured
        rw [← same, ← stays, ← stepIs]
        exact late
      rw [same]
      exact ⟨before.mode, before.profile, before.velocity,
        before.target.snoc evaluation fun _ => reached⟩
  | configure goal atGoal uncut word mode target profile velocity =>
      have from5 : 5 ≤ state.step := by omega
      refine ⟨idle, by omega, by omega, fun _ => (holds.homed from5).append _, fun _ => ?_⟩
      refine ⟨mode, profile, velocity, LatestTarget.set evaluations ⟨uncut, ?_, rfl⟩⟩
      rw [target]
      rcases atGoal with ⟨at5, goalIs, -⟩ | ⟨at7, goalIs, -⟩
      · exact .inl ⟨at5, goalIs⟩
      · exact .inr ⟨at7, goalIs⟩
  | moving from6 word others =>
      have late : 6 ≤ state.step := by omega
      have before := holds.configured (.inl late)
      refine ⟨idle, by omega, by omega, fun _ => (holds.homed (by omega)).append _, fun _ => ?_⟩
      refine ⟨?_, ?_, ?_, ?_⟩
      · rw [others _ (by decide)]
        exact before.mode
      · rw [others _ (by decide)]
        exact before.profile
      · rw [others _ (by decide)]
        exact before.velocity
      · rw [others _ (by decide)]
        apply before.target.snoc evaluation
        intro configures
        have notHere : state.step = 5 ∨ state.step = 7 := configures
        omega

theorem run_stepInvariant (inputs : FestoMotorInputs) (outputsWKC inputsWKC : UInt16) :
    let start := LoopState.initial ⟨.zero, inputs, none⟩ outputsWKC inputsWKC
    ∀ (events : List LoopEvent) (final : LoopState), run next events start = some final →
      StepInvariant (record next evaluations events start) final := by
  intro start
  refine run_history_invariant (initial_invariant inputs outputsWKC inputsWKC) ?_
  intro events state event after reached holds step
  rw [record_snoc next evaluations events event start state reached]
  obtain ⟨idle, ⟨now, again, -, -, -, -, stepIs, imageIs, evaluated⟩ | ⟨none, stepIs, same⟩⟩ :=
    next_evaluates_or_keeps holds.idle step
  · rw [evaluated]
    exact evaluation_invariant holds idle stepIs imageIs
  · rw [none, List.append_nil]
    exact ⟨idle, stepIs ▸ holds.range, by rw [stepIs, same]; exact holds.resting,
      by rw [stepIs]; exact holds.homed, by rw [stepIs, same]; exact holds.configured⟩

/-- No evaluation is one of the default branch. -/
theorem evaluated_steps (inputs : FestoMotorInputs) (outputsWKC inputsWKC : UInt16) :
    let start := LoopState.initial ⟨.zero, inputs, none⟩ outputsWKC inputsWKC
    ∀ (events : List LoopEvent) (final : LoopState), run next events start = some final →
      ∀ evaluation ∈ record next evaluations events start,
        0 ≤ evaluation.step ∧ evaluation.step ≤ 8 := by
  intro start
  refine run_history_invariant (by simp [record]) ?_
  intro events state event after reached bounded step evaluation member
  rw [record_snoc next evaluations events event start state reached] at member
  rcases List.mem_append.mp member with early | last
  · exact bounded evaluation early
  · have holds := run_stepInvariant inputs outputsWKC inputsWKC events state reached
    obtain ⟨-, ⟨now, again, -, -, -, -, -, -, evaluated⟩ | ⟨none, -, -⟩⟩ :=
      next_evaluates_or_keeps holds.idle step
    · rw [evaluated] at last
      rw [List.mem_singleton.mp last]
      exact holds.range
    · rw [none] at last
      exact absurd last List.not_mem_nil

/-! ## Changes of the target -/

/-- The target only changes in an evaluation that leaves the control word at 15. -/
theorem target_changes_resting {evaluations : List Evaluation} {state after : LoopState}
    {event : LoopEvent} (holds : StepInvariant evaluations state)
    (step : state.next event = some after)
    (changed : after.image.outputs.load .targetPosition ≠
      state.image.outputs.load .targetPosition) :
    (∃ evaluation, state.evaluations event = [evaluation] ∧
      evaluation.left = after.image.outputs) ∧
      after.image.outputs.load .controlWord = enableOperationContrilWord := by
  obtain ⟨-, ⟨now, again, -, -, -, -, -, imageIs, evaluated⟩ | ⟨-, -, same⟩⟩ :=
    next_evaluates_or_keeps holds.idle step
  · refine ⟨⟨_, evaluated, rfl⟩, ?_⟩
    have effect := switch_effect state again holds.range
    rw [← imageIs] at effect
    cases effect with
    | starting from4 range word target => exact absurd target changed
    | homed at4 status to5 word target => exact word
    | cut from5 stays reached same =>
        rw [same] at changed
        exact absurd rfl changed
    | configure goal atGoal uncut word mode target profile velocity => exact word
    | moving from6 word others => exact absurd (others .targetPosition (by decide)) changed
  · rw [same] at changed
    exact absurd rfl changed

/-- Between two images with different targets lies one that carries the new
target with the control word at 15. -/
theorem targets_separated (start : LoopState) (before : List LoopEvent) (first : LoopState)
    (reached : run next before start = some first)
    (invariant : ∀ events final, run next events start = some final →
      StepInvariant (record next evaluations events start) final) :
    ∀ (middle : List LoopEvent) (second : LoopState), run next middle first = some second →
      first.image.outputs.load .targetPosition ≠ second.image.outputs.load .targetPosition →
      ∃ early late between, middle = early ++ late ∧ run next early first = some between ∧
        between.image.outputs.load .controlWord = enableOperationContrilWord ∧
        between.image.outputs.load .targetPosition =
          second.image.outputs.load .targetPosition := by
  intro middle
  induction middle using List.reverseRecOn with
  | nil =>
      intro second success different
      cases Option.some.inj success
      exact absurd rfl different
  | append_singleton middle event ih =>
      intro second success different
      obtain ⟨penultimate, middleRun, step⟩ := (run_snoc_eq_some ..).mp success
      by_cases changed : second.image.outputs.load .targetPosition =
          penultimate.image.outputs.load .targetPosition
      · obtain ⟨early, late, between, split, earlyRun, word, target⟩ :=
          ih penultimate middleRun (changed ▸ different)
        refine ⟨early, late ++ [event], between, ?_, earlyRun, word, target.trans changed.symm⟩
        rw [split, List.append_assoc]
      · have holds := invariant (before ++ middle) penultimate
          ((run_append_eq_some ..).mpr ⟨first, reached, middleRun⟩)
        exact ⟨middle ++ [event], [], second, by simp, success,
          (target_changes_resting holds step changed).2, rfl⟩

/-- Motion safety of the run: where MOVING_CONTROL_WORD can be seen, when the
target may change, and that the default branch of the switch is not reached. -/
theorem motion_safety (inputs : FestoMotorInputs) (outputsWKC inputsWKC : UInt16)
    (events : List LoopEvent) (final : LoopState)
    (success : run next events
      (LoopState.initial ⟨.zero, inputs, none⟩ outputsWKC inputsWKC) = some final) :
    let start := LoopState.initial ⟨.zero, inputs, none⟩ outputsWKC inputsWKC
    let history := record next evaluations events start
    (final.image.outputs.load .controlWord = movingControlWord →
      Homed history ∧
        final.image.outputs.load .modesOfOperation = enableOperationMode ∧
        final.image.outputs.load .profileVelocity = profileVelocity ∧
        final.image.outputs.load .targetVelocity = targetVelocity ∧
        LatestTarget history (final.image.outputs.load .targetPosition)) ∧
    (∀ before event after first second, events = before ++ event :: after →
      run next before start = some first → first.next event = some second →
      second.image.outputs.load .targetPosition ≠ first.image.outputs.load .targetPosition →
      ∃ evaluation, first.evaluations event = [evaluation] ∧
        evaluation.left = second.image.outputs ∧
        evaluation.left.load .controlWord = enableOperationContrilWord) ∧
    (∀ before middle after first second, events = before ++ middle ++ after →
      run next before start = some first → run next middle first = some second →
      first.image.outputs.load .controlWord = movingControlWord →
      second.image.outputs.load .controlWord = movingControlWord →
      first.image.outputs.load .targetPosition ≠ second.image.outputs.load .targetPosition →
      ∃ early late between, middle = early ++ late ∧ run next early first = some between ∧
        between.image.outputs.load .controlWord = enableOperationContrilWord ∧
        between.image.outputs.load .targetPosition =
          second.image.outputs.load .targetPosition) ∧
    (∀ evaluation ∈ history, 0 ≤ evaluation.step ∧ evaluation.step ≤ 8) := by
  intro start history
  have invariant := run_stepInvariant inputs outputsWKC inputsWKC
  have holds : StepInvariant history final := invariant events final success
  refine ⟨?_, ?_, ?_, ?_⟩
  · intro moving
    have late : 5 ≤ final.step := by
      by_contra early
      exact holds.resting (by omega) moving
    have configured := holds.configured (.inr moving)
    exact ⟨holds.homed late, configured.mode, configured.profile, configured.velocity,
      configured.target⟩
  · intro before event after first second _ reached step changed
    obtain ⟨⟨evaluation, evaluated, left⟩, word⟩ :=
      target_changes_resting (invariant before first reached) step changed
    exact ⟨evaluation, evaluated, left, left ▸ word⟩
  · intro before middle after first second _ reached middleRun _ _ different
    exact targets_separated start before first reached invariant middle second middleRun
      different
  · exact evaluated_steps inputs outputsWKC inputsWKC events final success

/-- Seven turns with a drive that reports the homing status at once. -/
def sevenTurns : List LoopEvent :=
  let referenced : FestoMotorInputs := { FestoMotorInputs.zero with statusWord := 38455 }
  let turn : List LoopEvent := [.cycle .lost, .recover (.returned 3 referenced) [8], .body 5 6]
  .start .lost :: .waitOp (.returned 3 referenced) 8 :: .enter 5 ::
    (List.replicate 7 turn).flatten

theorem motion_safety_sevenTurns :
    ∃ final, run next sevenTurns (LoopState.initial ⟨.zero, .zero, none⟩ 1 1) = some final ∧
      final.image.outputs.load .controlWord = movingControlWord ∧
      Homed (record next evaluations sevenTurns
        (LoopState.initial ⟨.zero, .zero, none⟩ 1 1)) ∧
      LatestTarget (record next evaluations sevenTurns
        (LoopState.initial ⟨.zero, .zero, none⟩ 1 1)) target1 := by
  refine ⟨_, rfl, rfl, ?_⟩
  have moved := (motion_safety .zero 1 1 sevenTurns _ rfl).1 rfl
  exact ⟨moved.1, moved.2.2.2.2⟩

end WebserverEthercat.MotionSafety

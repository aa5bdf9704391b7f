import WebserverEthercat.Startup.Server

/-!
# The process-data pointers

`main` copies the addresses of slave 1 once, behind `initialize_ethercat`.
Requests are served before that, and `slaveinfo` maps the slaves again after
it.  What the two mappings gave slave 1, and when the requests come, says
exactly which uses of the pointers are in order.
-/

set_option autoImplicit false

namespace WebserverEthercat.Startup

open EventMachine ServerState Form

/-! ## Uses of the pointers -/

/-- The rows that `get_pdo_input_value_festo_motor` knows. -/
def inputIndexSubs : List String :=
  ["0x6041:0x00", "0x6061:0x00", "0x6064:0x00", "0x606C:0x00", "0x6077:0x00"]

/-- The turn of the loop that an event makes, with its second clock reading,
when it gets as far as the switch. -/
def evaluation (state : ServerState) : ServerEvent → Option (LoopState × UInt64)
  | .loop (.body now again) =>
      match state.pc with
      | .loop loop =>
          if loop.pc = .body ∧ loop.stopsAt now = false then some (loop, again) else none
      | _ => none
  | _ => none

/-- Whether an event dereferences `festo_motor_outputs_ptr`. -/
def usesOutputs (state : ServerState) (event : ServerEvent) : Bool :=
  match event with
  | .parseKeyValue key => state.daemon && decide (key ∈ comparedFields.map keyText)
  | _ => match evaluation state event with
    | some (loop, again) => (loop.switchResult again).writes ≠ []
    | none => false

/-- Whether an event dereferences `festo_motor_inputs_ptr`. -/
def usesInputs (state : ServerState) (event : ServerEvent) : Bool :=
  match event with
  | .getInputValue indexSub => state.daemon && decide (indexSub ∈ inputIndexSubs)
  | _ => match evaluation state event with
    | some (loop, again) => readsInputs loop.step (timeLimitPassed loop.startTimeMs again)
    | none => false

/-- No null pointer is used, and at the switch both are those of the current mapping. -/
structure PointersSafe (state : ServerState) (event : ServerEvent) : Prop where
  outputs : usesOutputs state event = true → state.festoMotorOutputsPtr ≠ none
  inputs : usesInputs state event = true → state.festoMotorInputsPtr ≠ none
  current : (evaluation state event).isSome →
    state.festoMotorOutputsPtr = state.mapping.outputs ∧
      state.festoMotorInputsPtr = state.mapping.inputs

/-! ## The condition -/

/-- How far `main` is: 1 behind `initialize_ethercat`, 2 behind the assignment
of `festo_motor_outputs_ptr`, 3 behind that of `festo_motor_inputs_ptr`. -/
def progress : MainPc → Nat
  | .startDaemon | .createMonitor | .initializeEthercat _ => 0
  | .assignOutputsPtr => 1
  | .assignInputsPtr => 2
  | .redirect | .slaveinfo _ | .saveFiles | .loop _ | .returned | .ended => 3

/-- A pointer is used only after its assignment and where the mapping that
`initialize_ethercat` left gave slave 1 data, and the switch is evaluated only
if the scan of `slaveinfo`, if any, has mapped slave 1 to the same addresses. -/
structure PointerCondition (state : ServerState) (event : ServerEvent) : Prop where
  outputs : usesOutputs state event = true →
    2 ≤ progress state.pc ∧ state.initialMapping.outputs ≠ none
  inputs : usesInputs state event = true →
    3 ≤ progress state.pc ∧ state.initialMapping.inputs ≠ none
  rescanned : (evaluation state event).isSome →
    ∀ mapping, state.rescanned = some mapping → mapping = state.initialMapping

/-! ## Where the pointers come from -/

structure PointerInvariant (state : ServerState) : Prop where
  outputs : state.festoMotorOutputsPtr =
    if 2 ≤ progress state.pc then state.initialMapping.outputs else none
  inputs : state.festoMotorInputsPtr =
    if 3 ≤ progress state.pc then state.initialMapping.inputs else none
  mapping : 1 ≤ progress state.pc → state.mapping = state.rescanned.getD state.initialMapping
  fresh : progress state.pc < 3 → state.rescanned = none

theorem start_pointers : PointerInvariant .start :=
  ⟨rfl, rfl, by simp [ServerState.start, progress], fun _ => rfl⟩

theorem evaluation_place {state : ServerState} {event : ServerEvent}
    (evaluates : (evaluation state event).isSome) : ∃ loop, state.pc = .loop loop := by
  unfold evaluation at evaluates
  split at evaluates
  · split at evaluates
    case h_1 loop place => exact ⟨loop, place⟩
    case h_2 => cases evaluates
  · cases evaluates

theorem assigned_iff {pointer given : Option Nat} {needed reached : Nat}
    (copied : pointer = if needed ≤ reached then given else none) :
    pointer ≠ none ↔ needed ≤ reached ∧ given ≠ none := by
  by_cases passed : needed ≤ reached
  · simp [copied, passed]
  · simp [copied, passed]

/-- At the switch the pointers are those of the table if no other scan has changed it. -/
theorem current_iff {state : ServerState} (invariant : PointerInvariant state)
    (passed : progress state.pc = 3) :
    (state.festoMotorOutputsPtr = state.mapping.outputs ∧
        state.festoMotorInputsPtr = state.mapping.inputs) ↔
      ∀ mapping, state.rescanned = some mapping → mapping = state.initialMapping := by
  rw [invariant.outputs, invariant.inputs, invariant.mapping (by omega), if_pos (by omega),
    if_pos (by omega)]
  cases scanned : state.rescanned with
  | none => simp
  | some rescan =>
      simp only [Option.getD_some, Option.some.injEq, forall_eq']
      constructor
      · rintro ⟨outputs, inputs⟩
        exact SlaveMapping.ext outputs.symm inputs.symm
      · rintro rfl
        exact ⟨rfl, rfl⟩

theorem pointers_agree (state : ServerState) (event : ServerEvent)
    (invariant : PointerInvariant state) :
    PointersSafe state event ↔ PointerCondition state event := by
  have outputs := assigned_iff invariant.outputs
  have inputs := assigned_iff invariant.inputs
  have current : (evaluation state event).isSome →
      ((state.festoMotorOutputsPtr = state.mapping.outputs ∧
          state.festoMotorInputsPtr = state.mapping.inputs) ↔
        ∀ mapping, state.rescanned = some mapping → mapping = state.initialMapping) := by
    intro evaluates
    obtain ⟨loop, place⟩ := evaluation_place evaluates
    exact current_iff invariant (by rw [place]; rfl)
  constructor
  · intro safe
    exact ⟨fun use => outputs.mp (safe.outputs use), fun use => inputs.mp (safe.inputs use),
      fun use => (current use).mp (safe.current use)⟩
  · intro condition
    exact ⟨fun use => outputs.mpr (condition.outputs use),
      fun use => inputs.mpr (condition.inputs use),
      fun use => (current use).mpr (condition.rescanned use)⟩

/-! ## Steps -/

theorem initialize_pointers {state : ServerState} {site : InitializeSite} (answer : Answer)
    (place : state.pc = .initializeEthercat site) (invariant : PointerInvariant state) :
    PointerInvariant (state.initializeStep site answer) := by
  obtain ⟨-, -, -, rescannedKept, outputsKept, inputsKept⟩ :=
    state.initializeStep_frame site answer
  have outputs := outputsKept.trans invariant.outputs
  have inputs := inputsKept.trans invariant.inputs
  have fresh := rescannedKept.trans (invariant.fresh (by simp [place, progress]))
  rw [place] at outputs inputs
  cases jump : site.next state.slavecount answer with
  | goto after =>
      have pc := initializeStep_goto jump
      refine ⟨by rw [pc]; exact outputs, by rw [pc]; exact inputs, ?_, fun _ => fresh⟩
      simp [pc, progress]
  | done ret =>
      obtain ⟨pc, -, left⟩ := initializeStep_done jump
      refine ⟨by rw [pc]; exact outputs, by rw [pc]; exact inputs, ?_, fun _ => fresh⟩
      intro _
      rw [fresh, left]
      rfl

theorem slaveinfo_pointers {state : ServerState} {site : SlaveinfoSite} (answer : Answer)
    (place : state.pc = .slaveinfo site) (invariant : PointerInvariant state) :
    PointerInvariant (state.slaveinfoStep site answer) := by
  have passed : progress (state.slaveinfoStep site answer).pc = progress state.pc := by
    cases jump : site.next answer <;> simp [slaveinfoStep, jump, place, progress]
  have mapping := invariant.mapping (by simp [place, progress])
  obtain ⟨-, -, -, initialMapping, outputsKept, inputsKept⟩ :=
    state.slaveinfoStep_frame site answer
  refine ⟨?_, ?_, ?_, ?_⟩
  · rw [outputsKept, passed, initialMapping]
    exact invariant.outputs
  · rw [inputsKept, passed, initialMapping]
    exact invariant.inputs
  · intro _
    rw [initialMapping]
    cases jump : site.next answer <;> cases site <;> simp [slaveinfoStep, jump, mapping]
  · intro early
    rw [passed, place] at early
    exact absurd early (by simp [progress])

theorem PointerInvariant.move {state after : ServerState} (invariant : PointerInvariant state)
    (moved : progress after.pc = progress state.pc)
    (outputs : after.festoMotorOutputsPtr = state.festoMotorOutputsPtr)
    (inputs : after.festoMotorInputsPtr = state.festoMotorInputsPtr)
    (mapping : after.mapping = state.mapping)
    (initialMapping : after.initialMapping = state.initialMapping)
    (rescanned : after.rescanned = state.rescanned) : PointerInvariant after := by
  refine ⟨?_, ?_, ?_, ?_⟩
  · rw [outputs, moved, initialMapping]
    exact invariant.outputs
  · rw [inputs, moved, initialMapping]
    exact invariant.inputs
  · rw [moved, mapping, initialMapping, rescanned]
    exact invariant.mapping
  · rw [moved, rescanned]
    exact invariant.fresh

theorem main_pointers {state after : ServerState} {answer : Answer}
    (invariant : PointerInvariant state) (success : state.next (.main answer) = some after) :
    PointerInvariant after := by
  obtain ⟨taken, stepped, rfl⟩ := next_eq_some success
  have relink : ∀ link, PointerInvariant taken → PointerInvariant { taken with link } :=
    fun _ kept => ⟨kept.outputs, kept.inputs, kept.mapping, kept.fresh⟩
  apply relink
  simp only [step, mainStep] at stepped
  cases place : state.pc with
  | initializeEthercat site =>
      simp only [place, Option.some.injEq, Prod.mk.injEq] at stepped
      rw [← stepped.1]
      exact initialize_pointers answer place invariant
  | slaveinfo site =>
      simp only [place, Option.some.injEq, Prod.mk.injEq] at stepped
      rw [← stepped.1]
      exact slaveinfo_pointers answer place invariant
  | assignOutputsPtr =>
      simp only [place, Option.some.injEq, Prod.mk.injEq] at stepped
      have mapping := invariant.mapping (by simp [place, progress])
      have fresh := invariant.fresh (by simp [place, progress])
      have inputs := invariant.inputs
      rw [place] at inputs
      rw [← stepped.1]
      refine ⟨?_, inputs, fun _ => mapping, fun _ => fresh⟩
      simp [mapping, fresh, progress]
  | assignInputsPtr =>
      simp only [place, Option.some.injEq, Prod.mk.injEq] at stepped
      have mapping := invariant.mapping (by simp [place, progress])
      have fresh := invariant.fresh (by simp [place, progress])
      have outputs := invariant.outputs
      rw [place] at outputs
      rw [← stepped.1]
      refine ⟨outputs, ?_, fun _ => mapping, fun _ => fresh⟩
      simp [mapping, fresh, progress]
  | startDaemon | createMonitor =>
      simp only [place, Option.some.injEq, Prod.mk.injEq] at stepped
      rw [← stepped.1]
      exact invariant.move (by simp [place, progress]) rfl rfl rfl rfl rfl
  | redirect =>
      simp only [place, Option.some.injEq, Prod.mk.injEq] at stepped
      rw [← stepped.1]
      refine invariant.move ?_ rfl rfl rfl rfl rfl
      by_cases runs : answer.ret = 0 <;> simp [place, progress, runs]
  | returned =>
      simp only [place, Option.some.injEq, Prod.mk.injEq] at stepped
      rw [← stepped.1]
      exact invariant.move (by simp [place, progress]) rfl rfl rfl rfl rfl
  | saveFiles => simp [place] at stepped
  | loop loop => simp [place] at stepped
  | ended => simp [place] at stepped

theorem pointers_step (state : ServerState) (event : ServerEvent) (after : ServerState)
    (invariant : PointerInvariant state) (success : state.next event = some after) :
    PointerInvariant after := by
  cases event with
  | main answer => exact main_pointers invariant success
  | getInputValue indexSub =>
      rw [next_handler (.inl ⟨indexSub, rfl⟩) success]
      exact invariant
  | parseKeyValue key =>
      rw [next_handler (.inr ⟨key, rfl⟩) success]
      exact invariant
  | enterLoop image outputsWKC inputsWKC =>
      obtain ⟨place, rfl⟩ := next_enterLoop success
      exact invariant.move (by simp [place, progress]) rfl rfl rfl rfl rfl
  | loop event =>
      obtain ⟨taken, stepped, rfl⟩ := next_eq_some success
      obtain ⟨loop, next, place, -, -, rfl⟩ := loopStep_eq_some stepped
      refine invariant.move ?_ rfl rfl rfl rfl rfl
      by_cases finished : next.pc = .closed ∨ next.pc = .givenUp <;>
        simp [place, progress, finished]
  | monitor event =>
      obtain ⟨taken, stepped, rfl⟩ := next_eq_some success
      obtain ⟨moved, -, rfl⟩ := monitorStep_eq_some stepped
      exact ⟨invariant.outputs, invariant.inputs, invariant.mapping, invariant.fresh⟩

/-- For every interleaving of the requests with the start-up and every outcome
of each call, the pointers are valid in all steps exactly when all steps meet
the condition. -/
theorem pointers_valid_iff (events : List ServerEvent) :
    EachStep ServerState.next PointersSafe events .start ↔
      EachStep ServerState.next PointerCondition events .start :=
  eachStep_congr pointers_agree
    (fun state event after invariant _ => pointers_step state event after invariant)
    events .start start_pointers

/-- A row of an old `pdo.txt` is asked for as soon as the daemon runs. -/
def earlyRequest : List ServerEvent :=
  [.main ⟨1, 0, 0, 0, .cleared⟩, .getInputValue "0x6041:0x00"]

theorem early_request_reads_null :
    (∃ final, run ServerState.next earlyRequest .start = some final) ∧
      ¬ EachStep ServerState.next PointersSafe earlyRequest .start := by
  refine ⟨⟨_, rfl⟩, ?_⟩
  intro safe
  have last := (eachStep_iff_split ..).mp safe [.main ⟨1, 0, 0, 0, .cleared⟩]
    (.getInputValue "0x6041:0x00") [] _ rfl rfl
  exact last.inputs (by decide) rfl

end WebserverEthercat.Startup

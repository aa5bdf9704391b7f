import WebserverEthercat.Loop.Cycle

/-!
# Which images reach the bus, and when the loop recovers

The head of a turn sends in one turn out of 200 only.  In the others
`ec_receive_processdata` returns EC_NOFRAME, and the recovery branch sends in
its place.  Hence no image is skipped, and a healthy network is recovered
again and again.
-/

set_option autoImplicit false

namespace WebserverEthercat.Exchange

open EventMachine LoopState

def isTurn : LoopEvent → Bool
  | .cycle _ => true
  | _ => false

/-- The number of turns of `while (1)` that a run has begun. -/
def turns (events : List LoopEvent) : Nat := events.countP isTurn

theorem turns_snoc (events : List LoopEvent) (event : LoopEvent) :
    turns (events ++ [event]) = turns events + if isTurn event then 1 else 0 := by
  simp [turns, List.countP_append, List.countP_cons]

structure CyclicInvariant (start : LoopState) (events : List LoopEvent) (state : LoopState) :
    Prop where
  idle : state.image.frame = none
  group : state.groupWKC = start.groupWKC
  expected : state.pc ≠ .start → state.expectedWKC = start.groupWKC
  before : state.pc = .start ∨ state.pc = .waitOp ∨ state.pc = .enter → turns events = 0
  counted : state.pc = .head ∨ state.pc = .recover ∨ state.pc = .body →
    state.ethercatLoopCounter = turns events

theorem cyclic_step {start state after : LoopState} {events : List LoopEvent}
    {event : LoopEvent} (holds : CyclicInvariant start events state)
    (step : state.next event = some after) :
    CyclicInvariant start (events ++ [event]) after := by
  have idle := (next_evaluates_or_keeps holds.idle step).1
  rcases next_eq_some step with ⟨answer, rfl, atPc, rfl⟩ | ⟨answer, slaveState, rfl, atPc, rfl⟩ |
    ⟨now, rfl, atPc, rfl⟩ | ⟨answer, rfl, atPc, rfl⟩ | ⟨answer, states, rfl, atPc, rfl⟩ |
    ⟨now, again, rfl, atPc, rfl⟩
  · have none := holds.before (.inl atPc)
    refine ⟨idle, holds.group, fun _ => holds.group, ?_, ?_⟩
    · intro _
      rw [turns_snoc, none]
      rfl
    · rintro (pcIs | pcIs | pcIs) <;> cases pcIs
  · have none := holds.before (.inr (.inl atPc))
    refine ⟨idle, holds.group, fun _ => holds.expected (by simp [atPc]), ?_, ?_⟩
    · intro _
      rw [turns_snoc, none]
      rfl
    · intro pcIs
      simp only [waitOperational] at pcIs
      split_ifs at pcIs <;> simp at pcIs
  · have none := holds.before (.inr (.inr atPc))
    refine ⟨idle, holds.group, fun _ => holds.expected (by simp [atPc]), ?_, ?_⟩
    · rintro (pcIs | pcIs | pcIs) <;> cases pcIs
    · intro _
      rw [turns_snoc, none]
      rfl
  · have counter := holds.counted (.inl atPc)
    refine ⟨idle, holds.group, fun _ => holds.expected (by simp [atPc]), ?_, ?_⟩
    · intro pcIs
      simp only [cycleHead] at pcIs
      split_ifs at pcIs <;> simp at pcIs
    · intro _
      rw [turns_snoc, ← counter]
      rfl
  · have counter := holds.counted (.inr (.inl atPc))
    refine ⟨idle, holds.group, fun _ => holds.group, ?_, ?_⟩
    · intro pcIs
      simp only [recoverRound] at pcIs
      split_ifs at pcIs <;> simp at pcIs
    · intro _
      rw [turns_snoc, ← counter]
      rfl
  · have counter := holds.counted (.inr (.inr atPc))
    cases stops : state.stopsAt now with
    | true =>
        have closes : state.cycleBody now again =
            { state with pc := .closed, timeLimitReached := true } := by
          simp [cycleBody, stops]
        rw [closes] at idle ⊢
        refine ⟨idle, holds.group, fun _ => holds.expected (by simp [atPc]), ?_, ?_⟩
        · rintro (pcIs | pcIs | pcIs) <;> cases pcIs
        · rintro (pcIs | pcIs | pcIs) <;> cases pcIs
    | false =>
        refine ⟨idle, ?_, ?_, ?_, ?_⟩
        · simpa [cycleBody, stops, groupWKC] using holds.group
        · intro _
          simpa [cycleBody, stops] using holds.expected (by simp [atPc])
        · simp [cycleBody, stops]
        · intro _
          rw [turns_snoc, ← counter]
          simp [cycleBody, stops, isTurn]

theorem run_cyclicInvariant (image : ProcessImage) (idle : image.frame = none)
    (outputsWKC inputsWKC : UInt16) :
    let start := LoopState.initial image outputsWKC inputsWKC
    ∀ (events : List LoopEvent) (final : LoopState), run next events start = some final →
      CyclicInvariant start events final := by
  intro start
  refine run_history_invariant ⟨idle, rfl, fun late => absurd rfl late, fun _ => rfl, ?_⟩ ?_
  · rintro (pcIs | pcIs | pcIs) <;> cases pcIs
  · intro events state event after _ holds step
    exact cyclic_step holds step

theorem groupWKC_nonneg (state : LoopState) : 0 ≤ state.groupWKC := by
  unfold groupWKC
  omega

/-! ## No image is skipped -/

/-- Where a run stands since the evaluation that left `first`: what `middle`
consists of, and in front of the body the exchange that let it through. -/
inductive Segment (first : LoopState) (middle : List LoopEvent) (state : LoopState) : Prop where
  | head (empty : middle = []) (here : state = first)
  | recovering (answer : FrameReturn) (rounds : List LoopEvent)
      (shape : middle = .cycle answer :: rounds)
      (recovers : ∀ round ∈ rounds, ∃ answer states, round = .recover answer states)
      (atRecover : state.pc = .recover)
      (outputs : state.image.outputs = first.image.outputs)
  | exchanged (answer : FrameReturn) (rounds : List LoopEvent)
      (shape : middle = .cycle answer :: rounds)
      (recovers : ∀ round ∈ rounds, ∃ answer states, round = .recover answer states)
      (atBody : state.pc = .body)
      (outputs : state.image.outputs = first.image.outputs)
      (exchange : ∃ early event sender wkc inputs, middle = early ++ [event] ∧
        run next early first = some sender ∧
        sender.actions event = [.send, .receive (.returned wkc inputs)] ∧
        sender.image.outputs = first.image.outputs ∧
        first.groupWKC ≤ (wkc : Int) ∧ state.image.inputs = inputs)
  | closed (atClosed : state.pc = .closed)

/-- A turn passes its test only if it has sent and the frame came back. -/
theorem cycleHead_exchanges (state : LoopState) (answer : FrameReturn)
    (idle : state.image.frame = none) (expected : state.expectedWKC = state.groupWKC)
    (passes : (state.cycleHead answer).pc = .body) :
    ∃ wkc inputs, state.actions (.cycle answer) = [.send, .receive (.returned wkc inputs)] ∧
      state.groupWKC ≤ (wkc : Int) ∧ (state.cycleHead answer).image.inputs = inputs := by
  have nonneg := groupWKC_nonneg state
  by_cases sends : sendsAt (state.ethercatLoopCounter + 1) = true
  · simp only [cycleHead, if_pos sends, expected] at passes ⊢
    have enough : ¬ (state.image.exchange answer).1 < state.groupWKC := by
      intro low
      simp [if_pos low] at passes
    obtain ⟨wkc, inputs, rfl, wkcIs, inputsAre⟩ :=
      state.image.exchange_of_nonneg answer (by omega)
    exact ⟨wkc, inputs, by simp [actions, if_pos sends], by omega, inputsAre⟩
  · simp only [cycleHead, if_neg sends, expected, state.image.receive_without_frame answer idle]
      at passes
    have low : ecNoframe < state.groupWKC := by
      unfold ecNoframe
      omega
    simp [if_pos low] at passes

theorem recoverRound_exchanges (state : LoopState) (answer : FrameReturn)
    (passes : (state.recoverRound answer).pc = .body) :
    ∃ wkc inputs, answer = .returned wkc inputs ∧ state.groupWKC ≤ (wkc : Int) ∧
      (state.recoverRound answer).image.inputs = inputs := by
  have nonneg := groupWKC_nonneg state
  simp only [recoverRound] at passes ⊢
  have enough : ¬ (state.image.exchange answer).1 < state.groupWKC := by
    intro low
    simp [if_pos low] at passes
  obtain ⟨wkc, inputs, rfl, wkcIs, inputsAre⟩ :=
    state.image.exchange_of_nonneg answer (by omega)
  exact ⟨wkc, inputs, rfl, by omega, inputsAre⟩

theorem segment_step {start first state after : LoopState} {middle history : List LoopEvent}
    {event : LoopEvent} (reached : run next middle first = some state)
    (group : first.groupWKC = start.groupWKC) (atHead : first.pc = .head)
    (cyclic : CyclicInvariant start history state) (segment : Segment first middle state)
    (step : state.next event = some after) (quiet : state.evaluations event = []) :
    Segment first (middle ++ [event]) after := by
  have sameGroup : state.groupWKC = first.groupWKC := cyclic.group.trans group.symm
  have keeps : after.image.outputs = state.image.outputs := by
    obtain ⟨-, ⟨now, again, -, -, -, -, -, -, evaluated⟩ | ⟨-, -, same⟩⟩ :=
      next_evaluates_or_keeps cyclic.idle step
    · rw [evaluated] at quiet
      cases quiet
    · exact same
  cases segment with
  | head empty here =>
      subst empty here
      obtain ⟨answer, rfl, rfl⟩ := next_at_head atHead step
      cases pcIs : (state.cycleHead answer).pc with
      | recover => exact .recovering answer [] rfl (by simp) pcIs keeps
      | body =>
          obtain ⟨wkc, inputs, acts, enough, inputsAre⟩ := cycleHead_exchanges state answer
            cyclic.idle ((cyclic.expected (by simp [atHead])).trans cyclic.group.symm) pcIs
          exact .exchanged answer [] rfl (by simp) pcIs keeps
            ⟨[], .cycle answer, state, wkc, inputs, rfl, rfl, acts, rfl, enough, inputsAre⟩
      | _ =>
          simp only [cycleHead] at pcIs
          split_ifs at pcIs
  | recovering answer rounds shape recovers atRecover outputs =>
      obtain ⟨other, states, rfl, rfl⟩ := next_at_recover atRecover step
      have shape' : middle ++ [.recover other states] =
          .cycle answer :: (rounds ++ [.recover other states]) := by rw [shape]; rfl
      have recovers' : ∀ round ∈ rounds ++ [LoopEvent.recover other states],
          ∃ answer states, round = .recover answer states := by
        intro round member
        rcases List.mem_append.mp member with early | last
        · exact recovers round early
        · exact ⟨other, states, List.mem_singleton.mp last⟩
      cases pcIs : (state.recoverRound other).pc with
      | recover =>
          exact .recovering answer _ shape' recovers' pcIs (keeps.trans outputs)
      | body =>
          obtain ⟨wkc, inputs, rfl, enough, inputsAre⟩ :=
            recoverRound_exchanges state other pcIs
          exact .exchanged answer _ shape' recovers' pcIs (keeps.trans outputs)
            ⟨middle, _, state, wkc, inputs, rfl, reached, rfl, outputs,
              sameGroup ▸ enough, inputsAre⟩
      | _ =>
          simp only [recoverRound] at pcIs
          split_ifs at pcIs
  | exchanged answer rounds shape recovers atBody outputs exchange =>
      obtain ⟨now, again, rfl, rfl⟩ := next_at_body atBody step
      -- the body either evaluates the switch, or it stops the loop
      cases stops : state.stopsAt now with
      | true => exact .closed (by simp [cycleBody, stops])
      | false => simp [evaluations, stops] at quiet
  | closed atClosed =>
      rw [next_at_closed state event atClosed] at step
      cases step

/-- The segment after an evaluation that ended in `first`. -/
theorem run_segment {start first : LoopState} {before : List LoopEvent}
    (invariant : ∀ events final, run next events start = some final →
      CyclicInvariant start events final)
    (reached : run next before start = some first) (atHead : first.pc = .head) :
    ∀ (middle : List LoopEvent) (state : LoopState), run next middle first = some state →
      record next evaluations middle first = [] → Segment first middle state := by
  refine run_history_invariant (fun _ => .head rfl rfl) ?_
  intro middle state event after middleRun segment step quiet
  rw [record_snoc next evaluations middle event first state middleRun] at quiet
  obtain ⟨quietBefore, quietHere⟩ := List.append_eq_nil_iff.mp quiet
  exact segment_step middleRun (invariant before first reached).group atHead
    (invariant (before ++ middle) state ((run_append_eq_some ..).mpr ⟨first, reached, middleRun⟩))
    (segment quietBefore) step quietHere

/-- Between two consecutive evaluations lies one turn, and its last event
sends the image that the first evaluation left, gets the frame back with a
sufficient work counter, and brings the inputs of the second evaluation. -/
theorem no_image_skipped (outputs : FestoMotorOutputs) (inputs : FestoMotorInputs)
    (outputsWKC inputsWKC : UInt16) (before middle : List LoopEvent)
    (firstEvent secondEvent : LoopEvent) (first left second after : LoopState)
    (firstEvaluation secondEvaluation : Evaluation)
    (reached : run next before
      (LoopState.initial ⟨outputs, inputs, none⟩ outputsWKC inputsWKC) = some first)
    (firstStep : first.next firstEvent = some left)
    (firstEvaluated : first.evaluations firstEvent = [firstEvaluation])
    (middleRun : run next middle left = some second)
    (consecutive : record next evaluations middle left = [])
    (secondStep : second.next secondEvent = some after)
    (secondEvaluated : second.evaluations secondEvent = [secondEvaluation]) :
    (∃ answer rounds, middle = .cycle answer :: rounds ∧
      ∀ round ∈ rounds, ∃ answer states, round = .recover answer states) ∧
    ∃ early exchange sender wkc received, middle = early ++ [exchange] ∧
      run next early left = some sender ∧
      sender.actions exchange = [.send, .receive (.returned wkc received)] ∧
      sender.image.outputs = firstEvaluation.left ∧
      second.expectedWKC = second.groupWKC ∧ second.groupWKC ≤ (wkc : Int) ∧
      secondEvaluation.inputs = received := by
  have invariant := run_cyclicInvariant ⟨outputs, inputs, none⟩ rfl outputsWKC inputsWKC
  have cyclicFirst := invariant before first reached
  obtain ⟨-, ⟨now, again, rfl, -, stops, rfl, -, -, evaluated⟩ | ⟨none, -, -⟩⟩ :=
    next_evaluates_or_keeps cyclicFirst.idle firstStep
  · rw [evaluated] at firstEvaluated
    cases (List.cons.inj firstEvaluated).1
    have leftReached := (run_snoc_eq_some ..).mpr ⟨first, reached, firstStep⟩
    have atHead : (first.cycleBody now again).pc = .head := by simp [cycleBody, stops]
    have segment := run_segment invariant leftReached atHead middle second middleRun consecutive
    have cyclicSecond := invariant _ second ((run_append_eq_some ..).mpr
      ⟨_, leftReached, middleRun⟩)
    obtain ⟨-, ⟨later, laterAgain, rfl, atBody, -, -, -, -, evaluated⟩ | ⟨none, -, -⟩⟩ :=
      next_evaluates_or_keeps cyclicSecond.idle secondStep
    · rw [evaluated] at secondEvaluated
      cases (List.cons.inj secondEvaluated).1
      cases segment with
      | head empty here =>
          rw [here, atHead] at atBody
          cases atBody
      | recovering answer rounds shape recovers atRecover outputs =>
          rw [atRecover] at atBody
          cases atBody
      | exchanged answer rounds shape recovers _ outputs exchange =>
          obtain ⟨early, event, sender, wkc, received, split, earlyRun, acts, sent, enough,
            inputsAre⟩ := exchange
          have sameGroup : (first.cycleBody now again).groupWKC = second.groupWKC :=
            (invariant _ _ leftReached).group.trans cyclicSecond.group.symm
          exact ⟨⟨answer, rounds, shape, recovers⟩, early, event, sender, wkc, received, split,
            earlyRun, acts, sent,
            (cyclicSecond.expected (by simp [atBody])).trans cyclicSecond.group.symm,
            sameGroup ▸ enough, inputsAre⟩
      | closed atClosed =>
          rw [atClosed] at atBody
          cases atBody
    · rw [none] at secondEvaluated
      cases secondEvaluated
  · rw [none] at firstEvaluated
    cases firstEvaluated

/-- The second turn loses its first recovery frame, and the next one carries
the image of step 0. -/
theorem no_image_skipped_after_loss :
    ∃ early exchange sender wkc received,
      [LoopEvent.cycle .lost, .recover .lost [0], .recover (.returned 3 .zero) [2]] =
        early ++ [exchange] ∧
      sender.actions exchange = [.send, .receive (.returned wkc received)] ∧
      sender.image.outputs.load .controlWord = readyToSwitchOn ∧
      run next early ((LoopState.initial .zero 1 1 |> run next [.start .lost,
        .waitOp .lost 8, .enter 5, .cycle .lost, .recover (.returned 3 .zero) [8],
        .body 6 6]).get (by decide)) = some sender := by
  obtain ⟨-, early, exchange, sender, wkc, received, split, earlyRun, acts, sent, -⟩ :=
    no_image_skipped .zero .zero 1 1
      [.start .lost, .waitOp .lost 8, .enter 5, .cycle .lost, .recover (.returned 3 .zero) [8]]
      [.cycle .lost, .recover .lost [0], .recover (.returned 3 .zero) [2]]
      (.body 6 6) (.body 7 7) _ _ _ _ _ _ rfl rfl rfl rfl rfl rfl rfl
  exact ⟨early, exchange, sender, wkc, received, split, acts, sent ▸ rfl, earlyRun⟩

/-! ## Recovery on a healthy network -/

/-- What becomes of the frame that an event passes to `ec_send_processdata`. -/
def frameReturn : LoopEvent → Option FrameReturn
  | .start answer | .waitOp answer _ | .cycle answer | .recover answer _ => some answer
  | .enter _ | .body _ _ => none

/-- Every frame comes back with the work counter that is expected. -/
def Healthy (expected : Int) (event : LoopEvent) : Prop :=
  ∀ answer, frameReturn event = some answer →
    ∃ (wkc : Nat) (inputs : FestoMotorInputs), answer = .returned wkc inputs ∧
      (wkc : Int) = expected

theorem healthy_turn_recovers_iff (state : LoopState) (answer : FrameReturn)
    (idle : state.image.frame = none) (expected : state.expectedWKC = state.groupWKC)
    (healthy : Healthy state.groupWKC (.cycle answer)) :
    (state.cycleHead answer).pc = .recover ↔
      sendsAt (state.ethercatLoopCounter + 1) = false := by
  have nonneg := groupWKC_nonneg state
  obtain ⟨wkc, inputs, rfl, wkcIs⟩ := healthy answer rfl
  cases sends : sendsAt (state.ethercatLoopCounter + 1) with
  | true =>
      simp [cycleHead, sends, ProcessImage.exchange_returned, wkcIs, expected]
  | false =>
      simp only [cycleHead, sends, state.image.receive_without_frame _ idle, expected]
      have low : ecNoframe < state.groupWKC := by
        unfold ecNoframe
        omega
      simp [low]

/-- On a healthy network the turn number `n` stays out of the recovery branch
exactly when `n % 200 = 10`. -/
theorem recovery_avoided_iff (outputs : FestoMotorOutputs) (inputs : FestoMotorInputs)
    (outputsWKC inputsWKC : UInt16) (events : List LoopEvent) (final : LoopState)
    (success : run next events
      (LoopState.initial ⟨outputs, inputs, none⟩ outputsWKC inputsWKC) = some final)
    (healthy : ∀ event ∈ events, Healthy
      (LoopState.initial ⟨outputs, inputs, none⟩ outputsWKC inputsWKC).groupWKC event) :
    let start := LoopState.initial ⟨outputs, inputs, none⟩ outputsWKC inputsWKC
    (∀ before answer after state turned, events = before ++ .cycle answer :: after →
      run next before start = some state → state.next (.cycle answer) = some turned →
      (turned.pc ≠ .recover ↔ (turns before + 1) % 200 = 10)) ∧
    ((∀ before answer after state turned, events = before ++ .cycle answer :: after →
      run next before start = some state → state.next (.cycle answer) = some turned →
      turned.pc ≠ .recover) ↔
      ∀ before answer after, events = before ++ .cycle answer :: after →
        (turns before + 1) % 200 = 10) := by
  intro start
  have each : ∀ before answer after state turned, events = before ++ .cycle answer :: after →
      run next before start = some state → state.next (.cycle answer) = some turned →
      (turned.pc ≠ .recover ↔ (turns before + 1) % 200 = 10) := by
    intro before answer after state turned split reached step
    have cyclic := run_cyclicInvariant ⟨outputs, inputs, none⟩ rfl outputsWKC inputsWKC
      before state reached
    rcases next_eq_some step with ⟨_, eventIs, -⟩ | ⟨_, _, eventIs, -⟩ | ⟨_, eventIs, -⟩ |
      ⟨other, eventIs, atHead, rfl⟩ | ⟨_, _, eventIs, -⟩ | ⟨_, _, eventIs, -⟩ <;> cases eventIs
    have member : LoopEvent.cycle answer ∈ events := by simp [split]
    have recovers := healthy_turn_recovers_iff state answer cyclic.idle
      ((cyclic.expected (by simp [atHead])).trans cyclic.group.symm)
      (cyclic.group ▸ healthy _ member)
    rw [cyclic.counted (.inl atHead)] at recovers
    rw [ne_eq, recovers]
    simp [sendsAt]
  refine ⟨each, ?_, ?_⟩
  · intro avoids before answer after split
    rw [split] at success
    obtain ⟨state, reached, rest⟩ := (run_append_eq_some ..).mp success
    obtain ⟨turned, step, -⟩ := (run_cons_eq_some ..).mp rest
    exact (each before answer after state turned split reached step).mp
      (avoids before answer after state turned split reached step)
  · intro numbers before answer after state turned split reached step
    exact (each before answer after state turned split reached step).mpr
      (numbers before answer after split)

theorem healthy_of_all (inputs : FestoMotorInputs) {expected : Nat} {events : List LoopEvent}
    (all : (events.filterMap frameReturn).all (· = .returned expected inputs) = true) :
    ∀ event ∈ events, Healthy expected event := by
  intro event member answer returned
  have member' : answer ∈ events.filterMap frameReturn :=
    List.mem_filterMap.mpr ⟨event, member, returned⟩
  have same := List.all_eq_true.mp all answer member'
  exact ⟨expected, inputs, by simpa using same, rfl⟩

/-- The first turn on a healthy network with an expected work counter of 3
enters the recovery branch. -/
theorem first_healthy_turn_recovers :
    let events : List LoopEvent := [.start (.returned 3 .zero), .waitOp (.returned 3 .zero) 8,
      .enter 0, .cycle (.returned 3 .zero)]
    (∀ event ∈ events, Healthy 3 event) ∧
      (LoopState.initial .zero 1 1).groupWKC = 3 ∧
      ∃ final, run next events (LoopState.initial .zero 1 1) = some final ∧
        final.pc = .recover :=
  ⟨healthy_of_all .zero (by decide), rfl, _, rfl, rfl⟩

/-- Nine turns on a healthy network, each with its round of recovery. -/
def nineTurns : List LoopEvent :=
  let frame : FrameReturn := .returned 3 .zero
  .start frame :: .waitOp frame 8 :: .enter 0 ::
    (List.replicate 9 [LoopEvent.cycle frame, .recover frame [8], .body 0 0]).flatten

theorem recovery_avoided_iff_tenth_turn :
    ∃ state turned, run next nineTurns (LoopState.initial .zero 1 1) = some state ∧
      state.next (.cycle (.returned 3 .zero)) = some turned ∧ turned.pc ≠ .recover := by
  refine ⟨_, _, rfl, rfl, ?_⟩
  have healthy : ∀ event ∈ nineTurns ++ [.cycle (.returned 3 .zero)], Healthy 3 event :=
    healthy_of_all .zero (by decide)
  exact ((recovery_avoided_iff .zero .zero 1 1 (nineTurns ++ [.cycle (.returned 3 .zero)]) _
    rfl healthy).1 nineTurns _ [] _ _ rfl rfl rfl).mpr rfl

end WebserverEthercat.Exchange

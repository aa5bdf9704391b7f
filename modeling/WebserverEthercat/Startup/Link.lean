import WebserverEthercat.Startup.Server

/-!
# The life cycle of the EtherCAT link

`slaveinfo` opens the link again and leaves it open, `main` goes on when it
failed, and the monitor does not notice that the loop has closed it.  The
results of the two openings and the moment of the monitor's calls say exactly
which steps are in order.
-/

set_option autoImplicit false

namespace WebserverEthercat.Startup

open EventMachine ServerState

/-! ## The property -/

def CallAllowed (link : Bool) : BusCall → Prop
  | .init _ => link = false
  | .close => True
  | _ => link = true

/-- Each call finds the link as the calls before it have left it. -/
def LinkRespected : Bool → List BusCall → Prop
  | _, [] => True
  | link, call :: rest => CallAllowed link call ∧ LinkRespected (linkAfter link call) rest

def LinkSafe (state : ServerState) (event : ServerEvent) : Prop :=
  LinkRespected state.link (state.calls event)

/-! ## The condition -/

/-- The last attempt to open the link before the loop succeeded. -/
def Opened (state : ServerState) : Prop :=
  state.dumpOpened = some true ∨ state.dumpOpened = none ∧ state.initialized = some 0

/-- `slaveinfo` runs only after a failed `initialize_ethercat`, the loop only
after a successful opening, and the monitor issues nothing once the loop is over. -/
def LinkCondition (state : ServerState) : ServerEvent → Prop
  | .main _ => state.pc = .slaveinfo .init → state.initialized ≠ some 0
  | .loop event => state.loopStep event ≠ none → Opened state
  | .monitor event => state.calls (.monitor event) ≠ [] → state.pc ≠ .returned
  | _ => True

/-! ## Calls that neither open nor close -/

def Ordinary (call : BusCall) : Prop :=
  (∀ success, call ≠ .init success) ∧ call ≠ .close

theorem Ordinary.allowed_iff {call : BusCall} (ordinary : Ordinary call) (link : Bool) :
    CallAllowed link call ↔ link = true := by
  cases call with
  | init success => exact absurd rfl (ordinary.1 success)
  | close => exact absurd rfl ordinary.2
  | _ => rfl

theorem Ordinary.linkAfter {call : BusCall} (ordinary : Ordinary call) (link : Bool) :
    linkAfter link call = link := by
  cases call with
  | init success => exact absurd rfl (ordinary.1 success)
  | close => exact absurd rfl ordinary.2
  | _ => rfl

theorem ordinary_link (calls : List BusCall) (ordinary : ∀ call ∈ calls, Ordinary call)
    (link : Bool) : calls.foldl linkAfter link = link := by
  induction calls with
  | nil => rfl
  | cons call rest ih =>
      have here := (ordinary call List.mem_cons_self).linkAfter link
      have later := ih fun other member => ordinary other (List.mem_cons_of_mem _ member)
      rw [List.foldl_cons, here, later]

theorem ordinary_respected (calls : List BusCall) (ordinary : ∀ call ∈ calls, Ordinary call)
    (link : Bool) : LinkRespected link calls ↔ (calls ≠ [] → link = true) := by
  induction calls with
  | nil => simp [LinkRespected]
  | cons call rest ih =>
      have here := ordinary call List.mem_cons_self
      have later := ih fun other member => ordinary other (List.mem_cons_of_mem _ member)
      rw [LinkRespected, here.allowed_iff, here.linkAfter, later]
      simp only [ne_eq, reduceCtorEq, not_false_eq_true, forall_const]
      exact ⟨fun both => both.1, fun opened => ⟨opened, fun _ => opened⟩⟩

/-! ## The calls of the parts -/

theorem reconnect_ordinary (states : List UInt16) :
    ∀ slave, ∀ call ∈ LoopState.reconnect slave states, Ordinary call := by
  induction states with
  | nil => intro slave call member; cases member
  | cons state rest ih =>
      intro slave call member
      rcases List.mem_append.mp member with here | later
      · split at here
        · simp only [List.mem_cons, List.not_mem_nil, or_false] at here
          rcases here with rfl | rfl | rfl <;> simp [Ordinary]
        · cases here
      · exact ih (slave + 1) call later

/-- The loop closes the link in its last turn and in no other step. -/
theorem loop_calls {loop after : LoopState} {event : LoopEvent}
    (step : loop.next event = some after) :
    ((∀ call ∈ loop.busCalls event, Ordinary call) ∧ after.pc ≠ .closed) ∨
      (loop.busCalls event = [.close] ∧ after.pc = .closed) := by
  rcases LoopState.next_eq_some step with ⟨answer, rfl, -, rfl⟩ |
    ⟨answer, slaveState, rfl, -, rfl⟩ | ⟨now, rfl, -, rfl⟩ | ⟨answer, rfl, -, rfl⟩ |
    ⟨answer, states, rfl, -, rfl⟩ | ⟨now, again, rfl, -, rfl⟩
  · refine .inl ⟨?_, by simp [LoopState.startUp]⟩
    simp [LoopState.busCalls, Ordinary]
  · refine .inl ⟨?_, ?_⟩
    · simp only [LoopState.busCalls]
      split <;> simp [Ordinary]
    · simp only [LoopState.waitOperational]
      split
      · simp
      · split <;> simp
  · refine .inl ⟨?_, by simp [LoopState.enterCyclic]⟩
    simp [LoopState.busCalls, Ordinary]
  · refine .inl ⟨?_, ?_⟩
    · simp only [LoopState.busCalls]
      split <;> simp [Ordinary]
    · simp only [LoopState.cycleHead]
      repeat' split
      all_goals simp
  · refine .inl ⟨?_, ?_⟩
    · intro call member
      rcases List.mem_append.mp member with here | later
      · simp only [List.mem_cons, List.not_mem_nil, or_false] at here
        rcases here with rfl | rfl | rfl <;> simp [Ordinary]
      · exact reconnect_ordinary states 1 call later
    · simp only [LoopState.recoverRound]
      split <;> simp
  · by_cases stops : loop.stopsAt now = true
    · exact .inr ⟨by simp [LoopState.busCalls, stops], by simp [LoopState.cycleBody, stops]⟩
    · exact .inl ⟨by simp [LoopState.busCalls, stops], by simp [LoopState.cycleBody, stops]⟩

theorem monitor_calls_ordinary {pc after : MonitorPc} {inOP : Bool} {slavecount : Nat}
    {event : MonitorEvent} {calls : List BusCall}
    (step : pc.step inOP slavecount event = some (after, calls)) :
    ∀ call ∈ calls, Ordinary call := by
  unfold MonitorPc.step at step
  split at step
  · split at step
    · cases Option.some.inj step
      simp [Ordinary]
    · cases step
  · split at step
    · cases Option.some.inj step
      unfold MonitorPc.checkCalls
      repeat' split
      all_goals simp [Ordinary]
    · cases step
  · split at step
    · cases Option.some.inj step
      simp
    · cases step
  · cases Option.some.inj step
    unfold MonitorPc.lostCalls
    split <;> simp [Ordinary]
  · cases step

/-! ## What the link is at each place -/

/-- Where the monitor cannot run yet. -/
def beforeLoop : MainPc → Prop
  | .loop _ | .returned | .ended => False
  | _ => True

/-- The places of the loop in front of `inOP = TRUE`. -/
def beforeCyclic (pc : LoopPc) : Prop := pc = .start ∨ pc = .waitOp ∨ pc = .enter

def linkAt (state : ServerState) : MainPc → Prop
  | .startDaemon | .createMonitor => state.link = false ∧ state.dumpOpened = none
  | .initializeEthercat site =>
      state.dumpOpened = none ∧ (site = .init → state.link = false) ∧
        (site ≠ .init → site ≠ .close → state.link = true)
  | .assignOutputsPtr | .assignInputsPtr | .redirect =>
      state.dumpOpened = none ∧ (state.link = true ↔ state.initialized = some 0)
  | .slaveinfo site =>
      (site = .init →
        state.dumpOpened = none ∧ (state.link = true ↔ state.initialized = some 0)) ∧
        (site ≠ .init → state.link = true ∧ state.dumpOpened = some true)
  | .saveFiles => state.link = true ↔ Opened state
  | .loop loop =>
      (state.link = true ↔ Opened state) ∧ (loop.pc ≠ .start → state.link = true) ∧
        state.inOP = loop.inOP ∧
        (beforeCyclic loop.pc → loop.inOP = false ∧ state.monitor = .idle)
  | .returned => state.link = false ∨ state.inOP = false ∧ state.monitor = .idle
  | .ended => True

structure LinkInvariant (state : ServerState) : Prop where
  link : linkAt state state.pc
  quiet : beforeLoop state.pc → state.inOP = false ∧ state.monitor = .idle

theorem start_invariant : LinkInvariant .start :=
  ⟨⟨rfl, rfl⟩, fun _ => ⟨rfl, rfl⟩⟩

/-! ## One event -/

theorem initialize_link {state : ServerState} {site : InitializeSite} (answer : Answer)
    (atSite : state.pc = .initializeEthercat site) (invariant : LinkInvariant state) :
    CallAllowed state.link (site.call answer) ∧
      LinkInvariant { state.initializeStep site answer with
        link := linkAfter state.link (site.call answer) } := by
  have link := invariant.link
  have quiet := invariant.quiet (by simp [beforeLoop, atSite])
  simp only [linkAt, atSite] at link
  obtain ⟨noDump, closed, opened⟩ := link
  obtain ⟨inOP, monitor, dumpOpened, -⟩ := state.initializeStep_frame site answer
  refine ⟨?_, ?_, ?_⟩
  · cases site <;> simp_all [InitializeSite.call, CallAllowed]
  · cases jump : site.next state.slavecount answer with
    | goto after =>
        obtain ⟨notInit, notClose, opens⟩ := InitializeSite.next_goto jump
        simp only [initializeStep_goto jump, linkAt, dumpOpened]
        refine ⟨noDump, fun isInit => absurd isInit notInit, ?_⟩
        intro _ afterNotClose
        by_cases first : site = .init
        · subst first
          have success := (opens rfl).resolve_left afterNotClose
          simpa [InitializeSite.call, linkAfter] using success
        · have kept := opened first notClose
          cases site <;> simp_all [InitializeSite.call, linkAfter]
    | done ret =>
        obtain ⟨pc, initialized, -⟩ := initializeStep_done jump
        simp only [pc, linkAt, dumpOpened, initialized]
        refine ⟨noDump, ?_⟩
        rcases InitializeSite.next_done jump with ⟨rfl, rfl⟩ | ⟨rfl, rfl⟩
        · simpa [InitializeSite.call, linkAfter] using opened
        · simp [InitializeSite.call, linkAfter]
  · intro _
    exact ⟨inOP.trans quiet.1, monitor.trans quiet.2⟩

/-- The one call of the dump that may find the link in the wrong state is `ec_init`. -/
theorem slaveinfo_link {state : ServerState} {site : SlaveinfoSite} (answer : Answer)
    (atSite : state.pc = .slaveinfo site) (invariant : LinkInvariant state) :
    (LinkRespected state.link (site.call answer) ↔
        (site = .init → state.initialized ≠ some 0)) ∧
      LinkInvariant { state.slaveinfoStep site answer with
        link := (site.call answer).foldl linkAfter state.link } := by
  have link := invariant.link
  have quiet := invariant.quiet (by simp [beforeLoop, atSite])
  simp only [linkAt, atSite] at link
  obtain ⟨fresh, opened⟩ := link
  refine ⟨?_, ?_, ?_⟩
  · cases site with
    | init =>
        have same := (fresh rfl).2
        cases held : state.link <;>
          simp_all [SlaveinfoSite.call, LinkRespected, CallAllowed]
    | reads =>
        by_cases more : answer.ret = 0 <;>
          simp_all [SlaveinfoSite.call, LinkRespected, CallAllowed]
    | _ => simp_all [SlaveinfoSite.call, LinkRespected, CallAllowed]
  · cases site with
    | init =>
        by_cases success : answer.ret = 0 <;>
          simp [slaveinfoStep, SlaveinfoSite.next, SlaveinfoSite.call, linkAfter, linkAt, Opened,
            success]
    | config =>
        obtain ⟨isOpen, dumped⟩ := opened (by simp)
        by_cases found : 0 < answer.ret <;>
          simp [slaveinfoStep, SlaveinfoSite.next, SlaveinfoSite.call, linkAfter, linkAt,
            Opened, found, isOpen, dumped]
    | statecheck =>
        obtain ⟨isOpen, dumped⟩ := opened (by simp)
        by_cases reached : answer.slave0State = ecStateSafeOp <;>
          simp [slaveinfoStep, SlaveinfoSite.next, SlaveinfoSite.call, linkAfter, linkAt,
            reached, isOpen, dumped]
    | reads =>
        obtain ⟨isOpen, dumped⟩ := opened (by simp)
        by_cases more : answer.ret = 0 <;>
          simp [slaveinfoStep, SlaveinfoSite.next, SlaveinfoSite.call, linkAfter, linkAt,
            Opened, more, isOpen, dumped]
    | _ =>
        obtain ⟨isOpen, dumped⟩ := opened (by simp)
        simp [slaveinfoStep, SlaveinfoSite.next, SlaveinfoSite.call, linkAfter, linkAt,
          isOpen, dumped]
  · intro _
    obtain ⟨inOP, monitor, -⟩ := state.slaveinfoStep_frame site answer
    exact ⟨inOP.trans quiet.1, monitor.trans quiet.2⟩

theorem main_link {state : ServerState} (answer : Answer) (invariant : LinkInvariant state) :
    LinkSafe state (.main answer) ↔ LinkCondition state (.main answer) := by
  cases place : state.pc with
  | initializeEthercat site =>
      have allowed := (initialize_link answer place invariant).1
      simp [LinkSafe, ServerState.calls, step, mainStep, place, LinkRespected, LinkCondition,
        allowed]
  | slaveinfo site =>
      have respected := (slaveinfo_link answer place invariant).1
      simpa [LinkSafe, ServerState.calls, step, mainStep, place, LinkCondition] using respected
  | _ => simp [LinkSafe, ServerState.calls, step, mainStep, place, LinkRespected, LinkCondition]

theorem main_keeps {state after : ServerState} {answer : Answer}
    (invariant : LinkInvariant state) (success : state.next (.main answer) = some after) :
    LinkInvariant after := by
  obtain ⟨taken, stepped, rfl⟩ := next_eq_some success
  have link := invariant.link
  have calls : state.calls (.main answer) =
      ((state.mainStep answer).map Prod.snd).getD [] := rfl
  simp only [step, mainStep] at stepped calls
  cases place : state.pc with
  | initializeEthercat site =>
      simp only [place, Option.some.injEq, Prod.mk.injEq] at stepped
      rw [← stepped.2, ← stepped.1]
      exact (initialize_link answer place invariant).2
  | slaveinfo site =>
      simp only [place, Option.some.injEq, Prod.mk.injEq] at stepped
      rw [← stepped.2, ← stepped.1]
      exact (slaveinfo_link answer place invariant).2
  | startDaemon =>
      have quiet := invariant.quiet (by simp [beforeLoop, place])
      simp only [place, Option.some.injEq, Prod.mk.injEq] at stepped
      simp only [linkAt, place] at link
      rw [← stepped.2, ← stepped.1]
      exact ⟨link, fun _ => quiet⟩
  | createMonitor =>
      have quiet := invariant.quiet (by simp [beforeLoop, place])
      simp only [place, Option.some.injEq, Prod.mk.injEq] at stepped
      simp only [linkAt, place] at link
      rw [← stepped.2, ← stepped.1]
      exact ⟨⟨link.2, fun _ => link.1, by simp⟩, fun _ => ⟨rfl, quiet.2⟩⟩
  | assignOutputsPtr | assignInputsPtr =>
      have quiet := invariant.quiet (by simp [beforeLoop, place])
      simp only [place, Option.some.injEq, Prod.mk.injEq] at stepped
      simp only [linkAt, place] at link
      rw [← stepped.2, ← stepped.1]
      exact ⟨link, fun _ => quiet⟩
  | redirect =>
      have quiet := invariant.quiet (by simp [beforeLoop, place])
      simp only [place, Option.some.injEq, Prod.mk.injEq] at stepped
      simp only [linkAt, place] at link
      rw [← stepped.2, ← stepped.1]
      refine ⟨?_, fun _ => quiet⟩
      by_cases runs : answer.ret = 0
      · simp [runs, linkAt, Opened, link.1, link.2]
      · simp [runs, linkAt, link.1, link.2]
  | returned =>
      simp only [place, Option.some.injEq, Prod.mk.injEq] at stepped
      rw [← stepped.2, ← stepped.1]
      exact ⟨trivial, fun before => absurd before (by simp [beforeLoop])⟩
  | saveFiles => simp [place] at stepped
  | loop loop => simp [place] at stepped
  | ended => simp [place] at stepped

/-! ## The loop and the monitor -/

theorem loop_link {state : ServerState} (event : LoopEvent) (invariant : LinkInvariant state) :
    LinkSafe state (.loop event) ↔ LinkCondition state (.loop event) := by
  have link := invariant.link
  cases stepped : state.loopStep event with
  | none =>
      simp [LinkSafe, ServerState.calls, step, stepped, LinkRespected, LinkCondition]
  | some result =>
      obtain ⟨taken, calls⟩ := result
      obtain ⟨loop, after, atLoop, moved, rfl, rfl⟩ := loopStep_eq_some stepped
      simp only [linkAt, atLoop] at link
      obtain ⟨same, later, -⟩ := link
      have safe : LinkSafe state (.loop event) ↔ LinkRespected state.link (loop.busCalls event) := by
        have issued : state.calls (.loop event) = loop.busCalls event := calls_of_step stepped
        rw [LinkSafe, issued]
      have condition : LinkCondition state (.loop event) ↔ Opened state := by
        simp [LinkCondition, stepped]
      rw [safe, condition, ← same]
      by_cases first : loop.pc = .start
      · obtain ⟨answer, rfl⟩ : ∃ answer, event = .start answer := by
          rcases LoopState.next_eq_some moved with ⟨answer, rfl, -⟩ | ⟨_, _, rfl, place, -⟩ |
            ⟨_, rfl, place, -⟩ | ⟨_, rfl, place, -⟩ | ⟨_, _, rfl, place, -⟩ |
            ⟨_, _, rfl, place, -⟩
          · exact ⟨answer, rfl⟩
          all_goals simp [place] at first
        simp [LoopState.busCalls, LinkRespected, CallAllowed, linkAfter]
      · have opened := later first
        simp only [opened, iff_true]
        rcases loop_calls moved with ⟨ordinary, -⟩ | ⟨closes, -⟩
        · exact (ordinary_respected _ ordinary true).mpr fun _ => rfl
        · rw [closes]
          exact ⟨trivial, trivial⟩

/-- Neither the wait for OPERATIONAL nor giving it up sets `inOP`. -/
theorem loop_before {loop after : LoopState} {event : LoopEvent}
    (moved : loop.next event = some after)
    (before : beforeCyclic after.pc ∨ after.pc = .givenUp) :
    beforeCyclic loop.pc ∧ (loop.inOP = false → after.inOP = false) := by
  rcases LoopState.next_eq_some moved with ⟨answer, -, place, rfl⟩ |
    ⟨answer, slaveState, -, place, rfl⟩ | ⟨now, -, place, rfl⟩ | ⟨answer, -, place, rfl⟩ |
    ⟨answer, states, -, place, rfl⟩ | ⟨now, again, -, place, rfl⟩
  · exact ⟨.inl place, fun _ => rfl⟩
  · exact ⟨.inr (.inl place), fun off => off⟩
  · exact ⟨.inr (.inr place), by simp [beforeCyclic, LoopState.enterCyclic] at before⟩
  · simp only [beforeCyclic, LoopState.cycleHead] at before
    repeat' split at before
    all_goals simp at before
  · simp only [beforeCyclic, LoopState.recoverRound] at before
    repeat' split at before
    all_goals simp at before
  · simp only [beforeCyclic, LoopState.cycleBody] at before
    repeat' split at before
    all_goals simp at before

theorem loop_keeps {state after : ServerState} {event : LoopEvent}
    (invariant : LinkInvariant state) (condition : LinkCondition state (.loop event))
    (success : state.next (.loop event) = some after) : LinkInvariant after := by
  obtain ⟨taken, stepped, rfl⟩ := next_eq_some success
  obtain ⟨loop, next, atLoop, moved, calls, rfl⟩ := loopStep_eq_some stepped
  have link := invariant.link
  simp only [linkAt, atLoop] at link
  obtain ⟨same, -, sameInOP, before⟩ := link
  have opened : Opened state := condition (by rw [show state.loopStep event = _ from stepped]; simp)
  have isOpen := same.mpr opened
  rw [calls, isOpen]
  have quietAfter : beforeCyclic next.pc ∨ next.pc = .givenUp →
      next.inOP = false ∧ state.monitor = .idle := by
    intro early
    obtain ⟨earlier, off⟩ := loop_before moved early
    exact ⟨off (before earlier).1, (before earlier).2⟩
  rcases loop_calls moved with ⟨ordinary, notClosed⟩ | ⟨closes, closed⟩
  · have link : (loop.busCalls event).foldl linkAfter true = true :=
      ordinary_link _ ordinary true
    by_cases gaveUp : next.pc = .givenUp
    · rw [if_pos (.inr gaveUp)]
      exact ⟨.inr (quietAfter (.inr gaveUp)), fun early => absurd early (by simp [beforeLoop])⟩
    · rw [if_neg (by simp [notClosed, gaveUp])]
      refine ⟨⟨?_, fun _ => link, rfl, fun early => quietAfter (.inl early)⟩,
        fun early => absurd early (by simp [beforeLoop])⟩
      exact ⟨fun _ => opened, fun _ => link⟩
  · rw [if_pos (.inl closed)]
    refine ⟨.inl ?_, fun early => absurd early (by simp [beforeLoop])⟩
    rw [closes]
    rfl

/-- A monitor that takes a step is in a pass, or finds `inOP` set. -/
theorem monitor_active {pc after : MonitorPc} {inOP : Bool} {slavecount : Nat}
    {event : MonitorEvent} {calls : List BusCall}
    (moved : pc.step inOP slavecount event = some (after, calls)) :
    ¬ (inOP = false ∧ pc = .idle) := by
  rintro ⟨rfl, rfl⟩
  cases event <;> simp [MonitorPc.step] at moved

/-- Where the monitor takes a step, the link is open, or the loop is over. -/
theorem monitor_place {state taken : ServerState} {event : MonitorEvent} {calls : List BusCall}
    (invariant : LinkInvariant state)
    (stepped : state.step (.monitor event) = some (taken, calls)) :
    (∃ loop, state.pc = .loop loop ∧ ¬ beforeCyclic loop.pc ∧ state.link = true) ∨
      (state.pc = .returned ∧ state.link = false) := by
  obtain ⟨after, moved, -⟩ := monitorStep_eq_some stepped
  have active := monitor_active moved
  have link := invariant.link
  have running : state.monitorRuns = true := by
    by_contra stopped
    simp [step, stopped] at stepped
  cases place : state.pc with
  | loop loop =>
      simp only [linkAt, place] at link
      obtain ⟨-, later, same, before⟩ := link
      rw [same] at active
      have late : ¬ beforeCyclic loop.pc := fun early => active (before early)
      exact .inl ⟨loop, rfl, late, later fun first => late (.inl first)⟩
  | returned =>
      simp only [linkAt, place] at link
      exact .inr ⟨rfl, link.resolve_right active⟩
  | ended => simp [monitorRuns, place] at running
  | _ => exact absurd (invariant.quiet (by simp [beforeLoop, place])) active

theorem monitor_link {state : ServerState} (event : MonitorEvent)
    (invariant : LinkInvariant state) :
    LinkSafe state (.monitor event) ↔ LinkCondition state (.monitor event) := by
  cases stepped : state.step (.monitor event) with
  | none => simp [LinkSafe, ServerState.calls, stepped, LinkRespected, LinkCondition]
  | some result =>
      obtain ⟨taken, calls⟩ := result
      have issued := calls_of_step stepped
      obtain ⟨after, moved, -⟩ := monitorStep_eq_some stepped
      rw [LinkSafe, LinkCondition, issued,
        ordinary_respected calls (monitor_calls_ordinary moved) state.link]
      rcases monitor_place invariant stepped with ⟨loop, place, -, opened⟩ | ⟨place, closed⟩
      · simp [place, opened]
      · simp [place, closed]

theorem monitor_keeps {state after : ServerState} {event : MonitorEvent}
    (invariant : LinkInvariant state) (success : state.next (.monitor event) = some after) :
    LinkInvariant after := by
  obtain ⟨taken, stepped, rfl⟩ := next_eq_some success
  obtain ⟨moved, monitorMoved, rfl⟩ := monitorStep_eq_some stepped
  have link := invariant.link
  rw [ordinary_link _ (monitor_calls_ordinary monitorMoved) state.link]
  rcases monitor_place invariant stepped with ⟨loop, place, late, opened⟩ | ⟨place, closed⟩
  · simp only [linkAt, place] at link
    refine ⟨?_, fun early => absurd early (by simp [beforeLoop, place])⟩
    simp only [linkAt, place]
    exact ⟨link.1, link.2.1, link.2.2.1, fun early => absurd early late⟩
  · refine ⟨?_, fun early => absurd early (by simp [beforeLoop, place])⟩
    simp only [linkAt, place]
    exact .inl closed

/-! ## Runs -/

theorem link_agrees (state : ServerState) (event : ServerEvent)
    (invariant : LinkInvariant state) : LinkSafe state event ↔ LinkCondition state event := by
  cases event with
  | main answer => exact main_link answer invariant
  | loop event => exact loop_link event invariant
  | monitor event => exact monitor_link event invariant
  | enterLoop image outputsWKC inputsWKC =>
      by_cases place : state.pc = .saveFiles <;>
        simp [LinkSafe, ServerState.calls, step, place, LinkRespected, LinkCondition]
  | getInputValue indexSub =>
      by_cases served : state.daemon = true <;>
        simp [LinkSafe, ServerState.calls, step, served, LinkRespected, LinkCondition]
  | parseKeyValue key =>
      by_cases served : state.daemon = true <;>
        simp [LinkSafe, ServerState.calls, step, served, LinkRespected, LinkCondition]

theorem link_step (state : ServerState) (event : ServerEvent) (after : ServerState)
    (invariant : LinkInvariant state) (condition : LinkCondition state event)
    (success : state.next event = some after) : LinkInvariant after := by
  cases event with
  | main answer => exact main_keeps invariant success
  | loop event => exact loop_keeps invariant condition success
  | monitor event => exact monitor_keeps invariant success
  | enterLoop image outputsWKC inputsWKC =>
      obtain ⟨place, rfl⟩ := next_enterLoop success
      have quiet := invariant.quiet (by simp [beforeLoop, place])
      have link := invariant.link
      simp only [linkAt, place] at link
      refine ⟨⟨link, fun late => absurd rfl late, rfl, fun _ => ⟨rfl, quiet.2⟩⟩, ?_⟩
      exact fun early => absurd early (by simp [beforeLoop])
  | getInputValue indexSub =>
      rw [next_handler (.inl ⟨indexSub, rfl⟩) success]
      exact invariant
  | parseKeyValue key =>
      rw [next_handler (.inr ⟨key, rfl⟩) success]
      exact invariant

/-- For every interleaving and every outcome of each call, the link is used
properly in all steps exactly when all steps meet the condition. -/
theorem link_life_cycle_iff (events : List ServerEvent) :
    EachStep ServerState.next LinkSafe events .start ↔
      EachStep ServerState.next LinkCondition events .start :=
  eachStep_congr link_agrees link_step events .start start_invariant

/-- One slave that answers every call with success, in the given state. -/
def answering (deviceState : UInt16) : Answer :=
  ⟨1, deviceState, deviceState, 1, ⟨some 0, some 19⟩⟩

/-- The start-up on a healthy network, up to the call of `slaveinfo`. -/
def healthyStart : List ServerEvent :=
  List.replicate 15 (.main (answering ecStateInit)) ++
    [.main (answering ecStatePreOp), .main (answering ecStatePreOp)] ++
      List.replicate 4 (.main (answering ecStateSafeOp))

/-- `slaveinfo` calls `ec_init` while the link is open. -/
theorem healthy_start_reopens_link :
    (∃ final, run ServerState.next (healthyStart ++ [.main (answering ecStateSafeOp)]) .start =
        some final) ∧
      ¬ EachStep ServerState.next LinkSafe
        (healthyStart ++ [.main (answering ecStateSafeOp)]) .start := by
  refine ⟨⟨_, rfl⟩, ?_⟩
  intro safe
  have last := (eachStep_iff_split ..).mp safe healthyStart (.main (answering ecStateSafeOp)) []
    _ rfl rfl
  have closed : true = false := last.1
  cases closed

end WebserverEthercat.Startup

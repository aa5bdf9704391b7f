import WebserverEthercat.Form.KeyValue
import WebserverEthercat.Loop.Cycle
import WebserverEthercat.Startup.Procedures

/-!
# `main` and its threads

`main` starts the daemon and the monitor, ignores what `initialize_ethercat`
returns, takes the process-data pointers, dumps the slaves and enters the
cyclic loop.  The monitor thread and the request handlers run in between.
`link` follows the calls: it says whether the socket of the last `ec_init` is
open.
-/

set_option autoImplicit false

namespace WebserverEthercat.Startup

inductive MainPc where
  | startDaemon
  | createMonitor
  | initializeEthercat (site : InitializeSite)
  /-- the assignment of `festo_motor_outputs_ptr` -/
  | assignOutputsPtr
  | assignInputsPtr
  /-- the redirection of stdout, which may fail before it calls `slaveinfo` -/
  | redirect
  | slaveinfo (site : SlaveinfoSite)
  | saveFiles
  | loop (state : LoopState)
  | returned
  | ended
deriving DecidableEq, Repr

structure ServerState where
  pc : MainPc
  daemon : Bool
  monitor : MonitorPc
  inOP : Bool
  slavecount : Nat
  /-- the entry of slave 1 in `ec_slave` -/
  mapping : SlaveMapping
  festoMotorOutputsPtr : Option Nat
  festoMotorInputsPtr : Option Nat
  link : Bool
  /-- the result of `initialize_ethercat`, which `main` does not look at -/
  initialized : Option Int
  /-- whether the `ec_init` of `slaveinfo` succeeded, if it was reached -/
  dumpOpened : Option Bool
  /-- the mapping of slave 1 that `initialize_ethercat` left -/
  initialMapping : SlaveMapping
  /-- the mapping of slave 1 by the scan of `slaveinfo`, if there was one -/
  rescanned : Option SlaveMapping
deriving DecidableEq, Repr

def ServerState.start : ServerState :=
  { pc := .startDaemon, daemon := false, monitor := .idle, inOP := false, slavecount := 0,
    mapping := .cleared, festoMotorOutputsPtr := none, festoMotorInputsPtr := none,
    link := false, initialized := none, dumpOpened := none, initialMapping := .cleared,
    rescanned := none }

inductive ServerEvent where
  /-- the next step of `main` outside the loop -/
  | main (answer : Answer)
  /-- the call of `ethercat_loop`, with the memory and the counters it finds -/
  | enterLoop (image : ProcessImage) (outputsWKC inputsWKC : UInt16)
  | loop (event : LoopEvent)
  | monitor (event : MonitorEvent)
  /-- `get_pdo_input_value_festo_motor` for a row of `pdo.txt` -/
  | getInputValue (indexSub : String)
  /-- `parse_key_value_festo_motor` for a trimmed key of a body -/
  | parseKeyValue (key : List UInt8)
deriving DecidableEq, Repr

namespace ServerState

/-- `ec_config_map` fills the table only when slaves were found. -/
def mapped (slavecount : Nat) (answer : Answer) : SlaveMapping :=
  if 0 < slavecount then answer.mapping else .cleared

def initializeStep (state : ServerState) (site : InitializeSite) (answer : Answer) : ServerState :=
  let scanned : ServerState := match site with
    | .configInit | .configInitAgain =>
        { state with slavecount := answer.slavecount, mapping := .cleared }
    | .configMap => { state with mapping := mapped state.slavecount answer }
    | _ => state
  match site.next state.slavecount answer with
  | .goto site => { scanned with pc := .initializeEthercat site }
  | .done ret => { scanned with pc := .assignOutputsPtr, initialized := some ret,
                                initialMapping := scanned.mapping }

theorem initializeStep_frame (state : ServerState) (site : InitializeSite) (answer : Answer) :
    let after := state.initializeStep site answer
    after.inOP = state.inOP ∧ after.monitor = state.monitor ∧
      after.dumpOpened = state.dumpOpened ∧ after.rescanned = state.rescanned ∧
      after.festoMotorOutputsPtr = state.festoMotorOutputsPtr ∧
      after.festoMotorInputsPtr = state.festoMotorInputsPtr := by
  cases jump : site.next state.slavecount answer <;> cases site <;>
    simp [initializeStep, jump]

theorem initializeStep_goto {state : ServerState} {site after : InitializeSite}
    {answer : Answer} (goes : site.next state.slavecount answer = .goto after) :
    (state.initializeStep site answer).pc = .initializeEthercat after := by
  cases site <;> simp [initializeStep, goes]

theorem initializeStep_done {state : ServerState} {site : InitializeSite} {answer : Answer}
    {ret : Int} (returns : site.next state.slavecount answer = .done ret) :
    let after := state.initializeStep site answer
    after.pc = .assignOutputsPtr ∧ after.initialized = some ret ∧
      after.initialMapping = after.mapping := by
  cases site <;> simp [initializeStep, returns]

def slaveinfoStep (state : ServerState) (site : SlaveinfoSite) (answer : Answer) : ServerState :=
  let scanned : ServerState := match site with
    | .init => { state with dumpOpened := some (answer.ret ≠ 0) }
    | .config =>
        let mapping :=
          if answer.ret ≠ 0 then mapped answer.slavecount answer else .cleared
        { state with slavecount := answer.slavecount, mapping, rescanned := some mapping }
    | _ => state
  match site.next answer with
  | .goto site => { scanned with pc := .slaveinfo site }
  | .done _ => { scanned with pc := .saveFiles }

theorem slaveinfoStep_frame (state : ServerState) (site : SlaveinfoSite) (answer : Answer) :
    let after := state.slaveinfoStep site answer
    after.inOP = state.inOP ∧ after.monitor = state.monitor ∧
      after.initialized = state.initialized ∧ after.initialMapping = state.initialMapping ∧
      after.festoMotorOutputsPtr = state.festoMotorOutputsPtr ∧
      after.festoMotorInputsPtr = state.festoMotorInputsPtr := by
  cases jump : site.next answer <;> cases site <;> simp [slaveinfoStep, jump]

def mainStep (state : ServerState) (answer : Answer) : Option (ServerState × List BusCall) :=
  match state.pc with
  | .startDaemon => some ({ state with pc := .createMonitor, daemon := answer.ret ≠ 0 }, [])
  | .createMonitor => some ({ state with pc := .initializeEthercat .init, inOP := false }, [])
  | .initializeEthercat site => some (state.initializeStep site answer, [site.call answer])
  | .assignOutputsPtr =>
      some ({ state with
        pc := .assignInputsPtr
        festoMotorOutputsPtr := state.mapping.outputs }, [])
  | .assignInputsPtr =>
      some ({ state with
        pc := .redirect
        festoMotorInputsPtr := state.mapping.inputs }, [])
  | .redirect =>
      some ({ state with pc := if answer.ret ≠ 0 then .slaveinfo .init else .saveFiles }, [])
  | .slaveinfo site => some (state.slaveinfoStep site answer, site.call answer)
  -- `return 1` without a daemon, else `getchar` and `MHD_stop_daemon`
  | .returned => some ({ state with pc := .ended, daemon := false }, [])
  | .saveFiles | .loop _ | .ended => none

def loopStep (state : ServerState) (event : LoopEvent) : Option (ServerState × List BusCall) :=
  match state.pc with
  | .loop loop =>
      (loop.next event).map fun after =>
        ({ state with
          inOP := after.inOP
          pc := if after.pc = .closed ∨ after.pc = .givenUp then .returned
            else .loop after },
          loop.busCalls event)
  | _ => none

/-- The monitor exists from its creation to the end of the process. -/
def monitorRuns (state : ServerState) : Bool :=
  state.pc ≠ .startDaemon ∧ state.pc ≠ .createMonitor ∧ state.pc ≠ .ended

/-- The state after an event and the calls issued in it. -/
def step (state : ServerState) (event : ServerEvent) : Option (ServerState × List BusCall) :=
  match event with
  | .main answer => state.mainStep answer
  | .enterLoop image outputsWKC inputsWKC =>
      if state.pc = .saveFiles then
        some ({ state with
          pc := .loop (LoopState.initial image outputsWKC inputsWKC), inOP := false }, [])
      else none
  | .loop event => state.loopStep event
  | .monitor event =>
      if state.monitorRuns then
        (state.monitor.step state.inOP state.slavecount event).map fun taken =>
          ({ state with monitor := taken.1 }, taken.2)
      else none
  | .getInputValue _ | .parseKeyValue _ => if state.daemon then some (state, []) else none

def linkAfter (link : Bool) : BusCall → Bool
  | .init success => success
  | .close => false
  | _ => link

def next (state : ServerState) (event : ServerEvent) : Option ServerState :=
  (state.step event).map fun taken =>
    { taken.1 with link := taken.2.foldl linkAfter state.link }

def calls (state : ServerState) (event : ServerEvent) : List BusCall :=
  ((state.step event).map Prod.snd).getD []

theorem calls_of_step {state taken : ServerState} {event : ServerEvent} {calls : List BusCall}
    (stepped : state.step event = some (taken, calls)) : state.calls event = calls := by
  simp [ServerState.calls, stepped]

theorem next_eq_some {state after : ServerState} {event : ServerEvent}
    (success : state.next event = some after) :
    ∃ taken, state.step event = some (taken, state.calls event) ∧
      after = { taken with link := (state.calls event).foldl linkAfter state.link } := by
  obtain ⟨⟨taken, calls⟩, stepped, rfl⟩ := Option.map_eq_some_iff.mp success
  rw [calls_of_step stepped]
  exact ⟨taken, stepped, rfl⟩

/-- A handler changes nothing that `main` or the monitor looks at. -/
theorem next_handler {state after : ServerState} {event : ServerEvent}
    (handler : (∃ indexSub, event = .getInputValue indexSub) ∨ ∃ key, event = .parseKeyValue key)
    (success : state.next event = some after) : after = state := by
  rcases handler with ⟨indexSub, rfl⟩ | ⟨key, rfl⟩
  all_goals
    simp only [next, step] at success
    by_cases served : state.daemon = true
    · rw [if_pos served] at success
      exact (Option.some.inj success).symm
    · rw [if_neg served] at success
      cases success

theorem next_enterLoop {state after : ServerState} {image : ProcessImage}
    {outputsWKC inputsWKC : UInt16}
    (success : state.next (.enterLoop image outputsWKC inputsWKC) = some after) :
    state.pc = .saveFiles ∧ after = { state with
      pc := .loop (LoopState.initial image outputsWKC inputsWKC), inOP := false } := by
  by_cases place : state.pc = .saveFiles
  · simp only [next, step, place, if_true, Option.map_some, List.foldl_nil,
      Option.some.injEq] at success
    exact ⟨place, success.symm⟩
  · simp [next, step, place] at success

theorem loopStep_eq_some {state taken : ServerState} {event : LoopEvent} {calls : List BusCall}
    (stepped : state.loopStep event = some (taken, calls)) :
    ∃ loop after, state.pc = .loop loop ∧ loop.next event = some after ∧
      calls = loop.busCalls event ∧
      taken = { state with
        inOP := after.inOP
        pc := if after.pc = .closed ∨ after.pc = .givenUp then .returned else .loop after } := by
  unfold loopStep at stepped
  split at stepped
  case h_1 loop atLoop =>
    obtain ⟨after, moved, same⟩ := Option.map_eq_some_iff.mp stepped
    cases same
    exact ⟨loop, after, atLoop, moved, rfl, rfl⟩
  case h_2 => cases stepped

theorem monitorStep_eq_some {state taken : ServerState} {event : MonitorEvent}
    {calls : List BusCall} (stepped : state.step (.monitor event) = some (taken, calls)) :
    ∃ after, state.monitor.step state.inOP state.slavecount event = some (after, calls) ∧
      taken = { state with monitor := after } := by
  simp only [step] at stepped
  split at stepped
  · obtain ⟨⟨after, issued⟩, moved, same⟩ := Option.map_eq_some_iff.mp stepped
    cases same
    exact ⟨after, moved, rfl⟩
  · cases stepped

end ServerState

end WebserverEthercat.Startup

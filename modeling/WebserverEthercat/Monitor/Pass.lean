import WebserverEthercat.Soem

/-!
# One pass of the slave monitor

The recovery branch of `ecatcheck`: all states are read again, then each slave
is brought back on its own.  The bus answers anything; `ec_reconfig_slave` may
refresh the slave's state, `ec_recover_slave` leaves it alone, and no other
thread writes `ec_slave`.
-/

set_option autoImplicit false

namespace WebserverEthercat.Monitor

structure SlaveStatus where
  group : UInt8
  state : UInt16
  islost : Bool
deriving DecidableEq, Repr

/-- What the bus answers about one slave during one pass. -/
structure SlaveAnswers where
  /-- the state that `ec_readstate` finds -/
  readstate : UInt16
  /-- the state that `ec_statecheck` finds -/
  statecheck : UInt16
  /-- the result of `ec_reconfig_slave` -/
  reconfig : Int
  /-- the state that `ec_reconfig_slave` stores, if it comes to store one -/
  refreshed : Option UInt16
  /-- the result of `ec_recover_slave` -/
  recover : Int
deriving DecidableEq, Repr

inductive MonitorMessage where
  | attemptingAck
  | changeToOperational
  | reconfigured
  | lost
  | recovered
  | found
deriving DecidableEq, Repr

inductive MonitorAction where
  | call (call : BusCall)
  | printed (slave : Nat) (message : MonitorMessage)
  /-- `OK : all slaves resumed OPERATIONAL.` -/
  | resumed
deriving DecidableEq, Repr

structure Checked where
  slave : SlaveStatus
  actions : List MonitorAction
deriving DecidableEq, Repr

def currentgroup : UInt8 := 0

/-- The slave is of the watched group and was not read as OPERATIONAL. -/
def SlaveStatus.needsCheck (slave : SlaveStatus) : Bool :=
  slave.group == currentgroup && slave.state != ecStateOperational

/-- The branches on the state of a slave that is not OPERATIONAL. -/
def restore (number : Nat) (answers : SlaveAnswers) (slave : SlaveStatus) : Checked :=
  if slave.state = ecStateSafeOp + ecStateError then
    let state := ecStateSafeOp + ecStateAck
    ⟨{ slave with state }, [.printed number .attemptingAck, .call (.writestate number state)]⟩
  else if slave.state = ecStateSafeOp then
    let state := ecStateOperational
    ⟨{ slave with state },
      [.printed number .changeToOperational, .call (.writestate number state)]⟩
  else if slave.state > ecStateNone then
    let refreshed := { slave with state := answers.refreshed.getD slave.state }
    if answers.reconfig ≠ 0 then
      ⟨{ refreshed with islost := false },
        [.call (.reconfigSlave number), .printed number .reconfigured]⟩
    else ⟨refreshed, [.call (.reconfigSlave number)]⟩
  else if slave.islost = false then
    let checked := { slave with state := answers.statecheck }
    if checked.state = ecStateNone then
      ⟨{ checked with islost := true },
        [.call (.statecheck number ecStateOperational), .printed number .lost]⟩
    else ⟨checked, [.call (.statecheck number ecStateOperational)]⟩
  else ⟨slave, []⟩

/-- The second block, for any slave that is marked lost by then. -/
def recoverLost (number : Nat) (answers : SlaveAnswers) (slave : SlaveStatus) : Checked :=
  if slave.islost then
    if slave.state = ecStateNone then
      if answers.recover ≠ 0 then
        ⟨{ slave with islost := false },
          [.call (.recoverSlave number), .printed number .recovered]⟩
      else ⟨slave, [.call (.recoverSlave number)]⟩
    else ⟨{ slave with islost := false }, [.printed number .found]⟩
  else ⟨slave, []⟩

def checkSlave (number : Nat) (answers : SlaveAnswers) (slave : SlaveStatus) : Checked :=
  let restored := if slave.needsCheck then restore number answers slave else ⟨slave, []⟩
  let recovered := recoverLost number answers restored.slave
  ⟨recovered.slave, restored.actions ++ recovered.actions⟩

/-- The slaves are numbered from 1. -/
structure Watch where
  docheckstate : Bool
  slaves : List SlaveStatus
deriving DecidableEq, Repr

structure PassResult where
  watch : Watch
  actions : List MonitorAction
deriving DecidableEq, Repr

/-- `for (slave = number; slave <= ec_slavecount; slave++)` -/
def checkSlaves (answers : Nat → SlaveAnswers) :
    Nat → Bool → List SlaveStatus → PassResult
  | _, docheckstate, [] => ⟨⟨docheckstate, []⟩, []⟩
  | number, docheckstate, slave :: rest =>
      let checked := checkSlave number (answers number) slave
      let later := checkSlaves answers (number + 1) (docheckstate || slave.needsCheck) rest
      ⟨⟨later.watch.docheckstate, checked.slave :: later.watch.slaves⟩,
        checked.actions ++ later.actions⟩

def readstate (answers : Nat → SlaveAnswers) (slaves : List SlaveStatus) : List SlaveStatus :=
  slaves.mapIdx fun position slave => { slave with state := (answers (position + 1)).readstate }

def Watch.pass (watch : Watch) (answers : Nat → SlaveAnswers) : PassResult :=
  let result := checkSlaves answers 1 false (readstate answers watch.slaves)
  { result with
    actions := .call .readstate :: result.actions ++
      if result.watch.docheckstate then [] else [.resumed] }

def Watch.passes (watch : Watch) (answers : List (Nat → SlaveAnswers)) : Watch :=
  answers.foldl (fun current answer => (current.pass answer).watch) watch

/-! ## One slave -/

def SlaveStatus.LostIsNone (slave : SlaveStatus) : Prop :=
  slave.islost = true → slave.state = ecStateNone

theorem recoverLost_lostIsNone (number : Nat) (answers : SlaveAnswers) (slave : SlaveStatus) :
    (recoverLost number answers slave).slave.LostIsNone := by
  unfold recoverLost
  split
  case isTrue lost =>
    split
    case isTrue none =>
      split
      · exact fun stillLost => absurd stillLost Bool.false_ne_true
      · exact fun _ => none
    case isFalse => exact fun stillLost => absurd stillLost Bool.false_ne_true
  case isFalse notLost => exact fun lost => absurd lost notLost

theorem checkSlave_lostIsNone (number : Nat) (answers : SlaveAnswers) (slave : SlaveStatus) :
    (checkSlave number answers slave).slave.LostIsNone := by
  apply recoverLost_lostIsNone

theorem checkSlave_group (number : Nat) (answers : SlaveAnswers) (slave : SlaveStatus) :
    (checkSlave number answers slave).slave.group = slave.group := by
  have recovered : ∀ other : SlaveStatus,
      (recoverLost number answers other).slave.group = other.group := by
    intro other
    unfold recoverLost
    grind
  have restored : (restore number answers slave).slave.group = slave.group := by
    unfold restore
    grind
  simp only [checkSlave, recovered]
  split
  · exact restored
  · rfl

theorem recoverLost_stillLost {number : Nat} {answers : SlaveAnswers} {slave : SlaveStatus}
    (lost : (recoverLost number answers slave).slave.islost = true) : slave.islost = true := by
  cases before : slave.islost with
  | true => rfl
  | false => simp [recoverLost, before] at lost

/-- Losing a slave takes the answers of both reads. -/
theorem restore_newlyLost {number : Nat} {answers : SlaveAnswers} {slave : SlaveStatus}
    (before : slave.islost = false) (after : (restore number answers slave).slave.islost = true) :
    slave.state = ecStateNone ∧ answers.statecheck = ecStateNone := by
  unfold restore at after
  split at after
  · exact absurd (before.symm.trans after) Bool.false_ne_true
  split at after
  · exact absurd (before.symm.trans after) Bool.false_ne_true
  split at after
  · split at after
    · exact absurd after Bool.false_ne_true
    · exact absurd (before.symm.trans after) Bool.false_ne_true
  case isFalse.isFalse.isFalse notPositive =>
    have none : slave.state = ecStateNone := by
      simpa [ecStateNone, ← UInt16.le_zero_iff] using notPositive
    simp only [before] at after
    split at after
    case isTrue checked => exact ⟨none, checked⟩
    case isFalse => exact absurd after Bool.false_ne_true

theorem checkSlave_newlyLost {number : Nat} {answers : SlaveAnswers} {slave : SlaveStatus}
    (before : slave.islost = false)
    (after : (checkSlave number answers slave).slave.islost = true) :
    slave.state = ecStateNone ∧ answers.statecheck = ecStateNone := by
  have lost := recoverLost_stillLost after
  split at lost
  · exact restore_newlyLost before lost
  · exact absurd (before.symm.trans lost) Bool.false_ne_true

/-- A state write, a reconfiguration or a recovery of the slave. -/
def MonitorAction.changes (number : Nat) : MonitorAction → Prop
  | .call (.writestate slave _) | .call (.reconfigSlave slave) | .call (.recoverSlave slave) =>
      slave = number
  | _ => False

theorem checkSlave_operational {number : Nat} {answers : SlaveAnswers} {slave : SlaveStatus}
    (operational : slave.state = ecStateOperational) :
    (checkSlave number answers slave).slave.islost = false ∧
      ∀ action ∈ (checkSlave number answers slave).actions, ∀ other, ¬ action.changes other := by
  have needless : slave.needsCheck = false := by simp [SlaveStatus.needsCheck, operational]
  have notNone : slave.state ≠ ecStateNone := by rw [operational]; decide
  cases lost : slave.islost with
  | true =>
      simp [checkSlave, needless, recoverLost, lost, notNone, MonitorAction.changes]
  | false => simp [checkSlave, needless, recoverLost, lost]

theorem checkSlave_changes {number other : Nat} {answers : SlaveAnswers} {slave : SlaveStatus}
    {action : MonitorAction} (member : action ∈ (checkSlave number answers slave).actions)
    (changes : action.changes other) : other = number := by
  rcases List.mem_append.mp member with restored | recovered
  · split at restored
    · unfold restore at restored
      grind [MonitorAction.changes]
    · cases restored
  · unfold recoverLost at recovered
    grind [MonitorAction.changes]

/-! ## A pass over all slaves -/

theorem checkSlaves_slaves (answers : Nat → SlaveAnswers) :
    ∀ (slaves : List SlaveStatus) (number : Nat) (docheckstate : Bool),
      (checkSlaves answers number docheckstate slaves).watch.slaves =
        slaves.mapIdx fun position slave =>
          (checkSlave (number + position) (answers (number + position)) slave).slave := by
  intro slaves
  induction slaves with
  | nil => intro number docheckstate; rfl
  | cons slave rest ih =>
      intro number docheckstate
      simp only [checkSlaves, ih, List.mapIdx_cons, Nat.add_zero, Nat.add_assoc, Nat.add_comm 1]

theorem checkSlaves_docheckstate (answers : Nat → SlaveAnswers) :
    ∀ (slaves : List SlaveStatus) (number : Nat) (docheckstate : Bool),
      (checkSlaves answers number docheckstate slaves).watch.docheckstate =
        (docheckstate || slaves.any SlaveStatus.needsCheck) := by
  intro slaves
  induction slaves with
  | nil => intro number docheckstate; simp [checkSlaves]
  | cons slave rest ih =>
      intro number docheckstate
      simp only [checkSlaves, ih, List.any_cons, Bool.or_assoc]

theorem mem_checkSlaves_actions {answers : Nat → SlaveAnswers} {action : MonitorAction} :
    ∀ {slaves : List SlaveStatus} {number : Nat} {docheckstate : Bool},
      action ∈ (checkSlaves answers number docheckstate slaves).actions →
      ∃ position slave, slaves[position]? = some slave ∧
        action ∈ (checkSlave (number + position) (answers (number + position)) slave).actions := by
  intro slaves
  induction slaves with
  | nil => intro number docheckstate member; cases member
  | cons slave rest ih =>
      intro number docheckstate member
      rcases List.mem_append.mp member with first | later
      · exact ⟨0, slave, rfl, first⟩
      · obtain ⟨position, other, found, inside⟩ := ih later
        refine ⟨position + 1, other, by simpa using found, ?_⟩
        rwa [Nat.add_assoc, Nat.add_comm 1] at inside

def Watch.LostAreNone (watch : Watch) : Prop := ∀ slave ∈ watch.slaves, slave.LostIsNone

theorem pass_slave (watch : Watch) (answers : Nat → SlaveAnswers) (position : Nat) :
    (watch.pass answers).watch.slaves[position]? =
      watch.slaves[position]?.map fun slave =>
        (checkSlave (position + 1) (answers (position + 1))
          { slave with state := (answers (position + 1)).readstate }).slave := by
  simp only [Watch.pass, checkSlaves_slaves, readstate, List.getElem?_mapIdx, Option.map_map,
    Nat.add_comm 1]
  rfl

theorem pass_lostAreNone (watch : Watch) (answers : Nat → SlaveAnswers) :
    (watch.pass answers).watch.LostAreNone := by
  intro slave member
  obtain ⟨position, here⟩ := List.mem_iff_getElem?.mp member
  rw [pass_slave] at here
  obtain ⟨before, -, rfl⟩ := Option.map_eq_some_iff.mp here
  apply checkSlave_lostIsNone

theorem passes_lostAreNone (answers : List (Nat → SlaveAnswers)) :
    ∀ watch : Watch, watch.LostAreNone → (watch.passes answers).LostAreNone := by
  induction answers with
  | nil => exact fun watch holds => holds
  | cons first rest ih =>
      intro watch _
      exact ih (watch.pass first).watch (pass_lostAreNone watch first)

theorem pass_docheckstate (watch : Watch) (answers : Nat → SlaveAnswers) :
    (watch.pass answers).watch.docheckstate = false ↔
      ∀ position slave, watch.slaves[position]? = some slave → slave.group = currentgroup →
        (answers (position + 1)).readstate = ecStateOperational := by
  simp only [Watch.pass, checkSlaves_docheckstate, Bool.false_or, List.any_eq_false,
    SlaveStatus.needsCheck, Bool.and_eq_true, beq_iff_eq, bne_iff_ne, ne_eq, not_and, not_not]
  constructor
  · intro all position slave here
    apply all { slave with state := (answers (position + 1)).readstate }
    apply List.mem_iff_getElem?.mpr
    exact ⟨position, by simp [readstate, List.getElem?_mapIdx, here]⟩
  · intro all slave member
    obtain ⟨position, here⟩ := List.mem_iff_getElem?.mp member
    rw [readstate, List.getElem?_mapIdx] at here
    obtain ⟨before, found, rfl⟩ := Option.map_eq_some_iff.mp here
    exact all position before found

theorem pass_operational {watch : Watch} {answers : Nat → SlaveAnswers} {position : Nat}
    {slave : SlaveStatus} (here : (watch.pass answers).watch.slaves[position]? = some slave)
    (operational : (answers (position + 1)).readstate = ecStateOperational) :
    slave.islost = false := by
  rw [pass_slave] at here
  obtain ⟨before, -, rfl⟩ := Option.map_eq_some_iff.mp here
  exact (checkSlave_operational operational).1

theorem pass_newlyLost {watch : Watch} {answers : Nat → SlaveAnswers} {position : Nat}
    {before after : SlaveStatus} (was : watch.slaves[position]? = some before)
    (becomes : (watch.pass answers).watch.slaves[position]? = some after)
    (notLost : before.islost = false) (lost : after.islost = true) :
    (answers (position + 1)).readstate = ecStateNone ∧
      (answers (position + 1)).statecheck = ecStateNone := by
  rw [pass_slave, was] at becomes
  cases becomes
  refine checkSlave_newlyLost ?_ lost
  exact notLost

theorem pass_leaves_operational {watch : Watch} {answers : Nat → SlaveAnswers} {position : Nat}
    (operational : (answers (position + 1)).readstate = ecStateOperational)
    {action : MonitorAction} (member : action ∈ (watch.pass answers).actions) :
    ¬ action.changes (position + 1) := by
  intro changes
  rcases List.mem_cons.mp member with rfl | rest
  · exact changes
  rcases List.mem_append.mp rest with checks | last
  · obtain ⟨other, slave, here, inside⟩ := mem_checkSlaves_actions checks
    have same := checkSlave_changes inside changes
    obtain rfl : other = position := by omega
    rw [readstate, List.getElem?_mapIdx] at here
    obtain ⟨before, -, rfl⟩ := Option.map_eq_some_iff.mp here
    exact (checkSlave_operational operational).2 action inside _ changes
  · split at last
    · cases last
    · cases List.mem_singleton.mp last
      exact changes

/-- What a pass establishes for any slaves, any flags and any answers, and what any
sequence of passes keeps. -/
theorem monitor_bookkeeping (watch : Watch) (answers : Nat → SlaveAnswers) :
    let result := watch.pass answers
    (∀ slave ∈ result.watch.slaves, slave.islost = true → slave.state = ecStateNone) ∧
    (result.watch.docheckstate = false ↔
      ∀ position slave, watch.slaves[position]? = some slave → slave.group = currentgroup →
        (answers (position + 1)).readstate = ecStateOperational) ∧
    (result.watch.docheckstate = false →
      ∀ slave ∈ result.watch.slaves, slave.group = currentgroup → slave.islost = false) ∧
    (∀ position before after, watch.slaves[position]? = some before →
      result.watch.slaves[position]? = some after →
      before.islost = false → after.islost = true →
      (answers (position + 1)).readstate = ecStateNone ∧
        (answers (position + 1)).statecheck = ecStateNone) ∧
    (∀ position, (answers (position + 1)).readstate = ecStateOperational →
      ∀ action ∈ result.actions, ¬ action.changes (position + 1)) ∧
    (watch.LostAreNone → ∀ later, (watch.passes later).LostAreNone) := by
  intro result
  refine ⟨pass_lostAreNone watch answers, pass_docheckstate watch answers, ?_, ?_, ?_, ?_⟩
  · intro clear slave member watched
    obtain ⟨position, here⟩ := List.mem_iff_getElem?.mp member
    have found := here
    rw [pass_slave] at found
    obtain ⟨before, was, same⟩ := Option.map_eq_some_iff.mp found
    have group : before.group = currentgroup := by
      rw [← watched, ← same, checkSlave_group]
    exact pass_operational here ((pass_docheckstate watch answers).mp clear position before was group)
  · exact fun position before after was becomes notLost lost =>
      pass_newlyLost was becomes notLost lost
  · exact fun position operational action member => pass_leaves_operational operational member
  · exact fun holds later => passes_lostAreNone later watch holds

end WebserverEthercat.Monitor

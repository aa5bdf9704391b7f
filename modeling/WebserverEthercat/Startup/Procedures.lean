import WebserverEthercat.Soem

/-!
# The start-up procedures and the monitor

`initialize_ethercat`, `slaveinfo` and `ecatcheck` as machines over their call
sites.  A site issues one call to the master library; the answer, which the
environment chooses, decides where the function goes from there.
-/

set_option autoImplicit false

namespace WebserverEthercat.Startup

/-- `ec_slave[1].outputs` and `ec_slave[1].inputs`; `none` is the null pointer. -/
@[ext] structure SlaveMapping where
  outputs : Option Nat
  inputs : Option Nat
deriving DecidableEq, Repr

/-- The table after the `memset` of `ec_config_init`. -/
def SlaveMapping.cleared : SlaveMapping := ⟨none, none⟩

/-- What one call answers.  Each site reads the fields of its own call. -/
structure Answer where
  /-- the `int` that the call returns -/
  ret : Int
  /-- the state that `ec_statecheck` returns -/
  deviceState : UInt16
  /-- `ec_slave[0].state` after the call -/
  slave0State : UInt16
  /-- `ec_slavecount` after a scan -/
  slavecount : Nat
  /-- the pointers that a mapping gives slave 1 -/
  mapping : SlaveMapping
deriving DecidableEq, Repr

/-- Where a function goes after a call: to another site, or back to its caller. -/
inductive Jump (Site : Type) where
  | goto (site : Site)
  | done (ret : Int)
deriving DecidableEq, Repr

/-! ## `initialize_ethercat` -/

inductive InitializeSite where
  | init
  | configInit
  | writeInit
  | checkInit
  | writeBoot
  | readBoot
  | checkBoot
  | writeInitAgain
  | checkInitAgain
  | waitCheck
  | waitBrd
  | configInitAgain
  | writePreOp
  | checkPreOp
  /-- the states printed after a failed PRE_OP check, one slave at a time -/
  | listPreOp (slave : Nat)
  | configMap
  | checkSafeOp
  | readSafeOp
  /-- `ec_close()` in front of each `return -1` -/
  | close
deriving DecidableEq, Repr

namespace InitializeSite

def call (site : InitializeSite) (answer : Answer) : BusCall :=
  match site with
  | .init => .init (answer.ret ≠ 0)
  | .configInit | .configInitAgain => .configInit
  | .writeInit | .writeInitAgain => .writestate 0 (ecStateInit + ecStateAck)
  | .checkInit | .checkInitAgain | .waitCheck => .statecheck 0 ecStateInit
  | .writeBoot => .writestate 0 (ecStateBoot + ecStateAck)
  | .readBoot | .readSafeOp => .readstate
  | .checkBoot => .statecheck 0 ecStateBoot
  | .waitBrd => .brd
  | .writePreOp => .writestate 0 ecStatePreOp
  | .checkPreOp => .statecheck 0 ecStatePreOp
  | .listPreOp slave => .statecheck slave ecStatePreOp
  | .configMap => .configMap
  | .checkSafeOp => .statecheck 0 ecStateSafeOp
  | .close => .close

def next (site : InitializeSite) (slavecount : Nat) (answer : Answer) : Jump InitializeSite :=
  match site with
  | .init => if answer.ret = 0 then .goto .close else .goto .configInit
  | .configInit => if answer.ret ≤ 0 then .goto .close else .goto .writeInit
  | .writeInit => .goto .checkInit
  | .checkInit =>
      if answer.deviceState ≠ ecStateInit then .goto .close else .goto .writeBoot
  | .writeBoot => .goto .readBoot
  | .readBoot => .goto .checkBoot
  | .checkBoot =>
      if answer.deviceState ≠ ecStateBoot ∧ answer.deviceState ≠ ecStateInit then .goto .close
      else .goto .writeInitAgain
  | .writeInitAgain => .goto .checkInitAgain
  | .checkInitAgain =>
      if answer.deviceState ≠ ecStateInit then .goto .close else .goto .waitCheck
  | .waitCheck => .goto .waitBrd
  | .waitBrd =>
      if answer.ret < slavecount then .goto .waitCheck else .goto .configInitAgain
  | .configInitAgain => if answer.ret ≤ 0 then .goto .close else .goto .writePreOp
  | .writePreOp => .goto .checkPreOp
  | .checkPreOp =>
      if answer.deviceState ≠ ecStatePreOp then
        if 1 ≤ slavecount then .goto (.listPreOp 1) else .goto .close
      else .goto .configMap
  | .listPreOp slave =>
      if slave + 1 ≤ slavecount then .goto (.listPreOp (slave + 1)) else .goto .close
  | .configMap => .goto .checkSafeOp
  | .checkSafeOp =>
      if answer.deviceState ≠ ecStateSafeOp then .goto .close
      else if answer.slave0State ≠ ecStateSafeOp then .goto .readSafeOp
      else .done 0
  | .readSafeOp => .goto .close
  | .close => .done (-1)

/-- Nothing leads back to `ec_init`, and a failed `ec_init` leads to the close. -/
theorem next_goto {site after : InitializeSite} {slavecount : Nat} {answer : Answer}
    (goes : site.next slavecount answer = .goto after) :
    after ≠ .init ∧ site ≠ .close ∧ (site = .init → after = .close ∨ answer.ret ≠ 0) := by
  cases site <;> simp only [next] at goes
  all_goals
    repeat' split at goes
    all_goals cases goes
    all_goals simp_all

theorem next_done {site : InitializeSite} {slavecount : Nat} {answer : Answer} {ret : Int}
    (returns : site.next slavecount answer = .done ret) :
    site = .checkSafeOp ∧ ret = 0 ∨ site = .close ∧ ret = -1 := by
  cases site <;> simp only [next] at returns
  all_goals
    repeat' split at returns
    all_goals cases returns
    all_goals simp

end InitializeSite

/-! ## `slaveinfo` -/

inductive SlaveinfoSite where
  | init
  | config
  | configdc
  | statecheck
  /-- the `ec_readstate` for the report of slaves that missed SAFE_OP -/
  | readMissing
  | readstate
  /-- the CoE and SII reads of the dump, as many as the slaves' data ask for -/
  | reads
deriving DecidableEq, Repr

namespace SlaveinfoSite

def call (site : SlaveinfoSite) (answer : Answer) : List BusCall :=
  match site with
  | .init => [.init (answer.ret ≠ 0)]
  | .config => [.config]
  | .configdc => [.configdc]
  | .statecheck => [.statecheck 0 ecStateSafeOp]
  | .readMissing | .readstate => [.readstate]
  | .reads => if answer.ret ≠ 0 then [.slaveRead] else []

/-- The `ec_close` at the end is commented out in the source. -/
def next (site : SlaveinfoSite) (answer : Answer) : Jump SlaveinfoSite :=
  match site with
  | .init => if answer.ret ≠ 0 then .goto .config else .done 0
  | .config => if 0 < answer.ret then .goto .configdc else .done 0
  | .configdc => .goto .statecheck
  | .statecheck =>
      if answer.slave0State ≠ ecStateSafeOp then .goto .readMissing else .goto .readstate
  | .readMissing => .goto .readstate
  | .readstate => .goto .reads
  | .reads => if answer.ret ≠ 0 then .goto .reads else .done 0

end SlaveinfoSite

/-! ## `ecatcheck` -/

inductive MonitorPc where
  | idle
  | atSlave (slave : Nat)
  | atLost (slave : Nat)
deriving DecidableEq, Repr

/-- What the thread reads about a slave. -/
structure SlaveFacts where
  inGroup : Bool
  state : UInt16
  islost : Bool
deriving DecidableEq, Repr

inductive MonitorEvent where
  /-- The guard held: `inOP`, and a disjunction over a flag of the group and
  two locals that are never assigned. -/
  | pass
  | check (facts : SlaveFacts)
  | lost (facts : SlaveFacts)
  | finish
deriving DecidableEq, Repr

namespace MonitorPc

def checkCalls (slave : Nat) (facts : SlaveFacts) : List BusCall :=
  if facts.inGroup ∧ facts.state ≠ ecStateOperational then
    if facts.state = ecStateSafeOp + ecStateError then
      [.writestate slave (ecStateSafeOp + ecStateAck)]
    else if facts.state = ecStateSafeOp then [.writestate slave ecStateOperational]
    else if facts.state > ecStateNone then [.reconfigSlave slave]
    else if facts.islost = false then [.statecheck slave ecStateOperational]
    else []
  else []

def lostCalls (slave : Nat) (facts : SlaveFacts) : List BusCall :=
  if facts.islost ∧ facts.state = ecStateNone then [.recoverSlave slave] else []

/-- One step of the recovery branch and the calls that it issues. -/
def step (pc : MonitorPc) (inOP : Bool) (slavecount : Nat) (event : MonitorEvent) :
    Option (MonitorPc × List BusCall) :=
  match pc, event with
  | .idle, .pass => if inOP then some (.atSlave 1, [.readstate]) else none
  | .atSlave slave, .check facts =>
      if slave ≤ slavecount then some (.atLost slave, checkCalls slave facts) else none
  | .atSlave slave, .finish => if slavecount < slave then some (.idle, []) else none
  | .atLost slave, .lost facts => some (.atSlave (slave + 1), lostCalls slave facts)
  | _, _ => none

end MonitorPc

end WebserverEthercat.Startup

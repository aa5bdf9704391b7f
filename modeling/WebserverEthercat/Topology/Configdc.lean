import Mathlib.Logic.Function.Basic
import WebserverEthercat.Lib.Checked
import WebserverEthercat.Topology.Parents

/-!
# `ecx_configdc`

The slaves with distributed clocks are chained, and the propagation delay of
each is computed from the times that it and its parent latched at their ports
when one frame passed.  Sums and differences of `int32`s fail on overflow.
-/

set_option autoImplicit false

namespace WebserverEthercat.Topology

open Checked

/-- What `ecx_config_init` has found out about the slaves. -/
structure SlaveList where
  slavecount : Nat
  hasdc : Nat → Bool
  group : Nat → UInt8
  topology : Nat → UInt8
  activeports : Nat → UInt8
  parent : Nat → Nat

/-- What the slaves report: the times latched at ports 0 to 3 and the 64-bit time of the frame. -/
structure Latched where
  dcTime : Nat → UInt8 → Int32
  dcSof : Nat → UInt64

inductive DcWrite where
  | sysOffset (slave : Nat) (offset : UInt64)
  | sysDelay (slave : Nat) (delay : Int)
deriving DecidableEq, Repr

/-- The fields of `ec_slave` that the function writes, and its locals. -/
structure DcWalk where
  /-- `slavelist[0].hasdc` -/
  found : Bool
  /-- `DCnext` of the groups that have a clock -/
  groupNext : UInt8 → Option Nat
  dcNext : Nat → Nat
  dcPrevious : Nat → Nat
  parenthold : Nat
  prevDcSlave : Nat
  /-- `DCrtA` to `DCrtD` -/
  dcRt : Nat → UInt8 → Int32
  consumedports : Nat → UInt8
  entryport : Nat → UInt8
  parentport : Nat → UInt8
  pdelay : Nat → Int
  written : List DcWrite

/-- `PORTM0` to `PORTM3` -/
def portMask (port : UInt8) : UInt8 := 1 <<< port

def active (ports port : UInt8) : Bool := ports &&& portMask port ≠ 0

/-- `ecx_prevport` -/
def prevport (activeports port : UInt8) : UInt8 :=
  let search : List UInt8 :=
    if port = 0 then [2, 1, 3] else if port = 1 then [3, 0, 2]
    else if port = 2 then [1, 3, 0] else if port = 3 then [0, 2, 1] else []
  (search.find? (active activeports)).getD port

/-- `ecx_parentport`: the port, and what remains unconsumed. -/
def parentport (consumedports : UInt8) : UInt8 × UInt8 :=
  match [3, 1, 2, 0].find? (active consumedports) with
  | some port => (port, consumedports &&& ~~~portMask port)
  | none => (0, consumedports)

/-- `plist` and `tlist`; the order of the ports is 0 - 3 - 1 - 2. -/
def portTimes (activeports : UInt8) (dcRt : UInt8 → Int32) : List (UInt8 × Int32) :=
  ([0, 3, 1, 2].filter (active activeports)).map fun port => (port, dcRt port)

/-- The first port with the lowest time. -/
def entryportOf : List (UInt8 × Int32) → UInt8
  | [] => 0
  | first :: rest =>
      (rest.foldl (fun entry port => if port.2 < entry.2 then port else entry) first).1

/-- `child` and `parent` behind the search for a parent with a clock; the parents of a slave
are fewer than its number. -/
def dcParent (list : SlaveList) : Nat → Nat → Nat × Nat
  | 0, slave => (slave, 0)
  | turns + 1, slave =>
      if list.parent slave = 0 ∨ list.hasdc (list.parent slave) then (slave, list.parent slave)
      else dcParent list turns (list.parent slave)

namespace DcWalk

/-- `ecx_porttime` of the later port minus that of the earlier one. -/
def portDifference (walk : DcWalk) (slave : Nat) (later earlier : UInt8) : Option Int :=
  addInt (walk.dcRt slave later).toInt (-(walk.dcRt slave earlier).toInt)

/-- The propagation delay of slave `i`, which hangs on port `port` of `parent`. -/
def delay (list : SlaveList) (walk : DcWalk) (i child parent : Nat) (port : UInt8) :
    Option Int := do
  let before := prevport (list.activeports parent) port
  let dt3 ← walk.portDifference parent port before
  -- the slave's own children
  let dt1 ← (if list.topology i > 1 then
      walk.portDifference i (prevport (list.activeports i) (walk.entryport i)) (walk.entryport i)
    else some 0)
  let dt1 ← (if dt1 > dt3 then addInt 0 (-dt1) else some dt1)
  -- the earlier children of the parent
  let dt2 ← (if parent + 1 < child then
      walk.portDifference parent before (walk.entryport parent)
    else some 0)
  let dt2 ← (if dt2 < 0 then addInt 0 (-dt2) else some dt2)
  let own ← addInt dt3 (-dt1)
  let sum ← addInt (own.tdiv 2) dt2
  addInt sum (walk.pdelay parent)

/-- The chain of clocks is continued with slave `i`. -/
def chained (list : SlaveList) (i : Nat) (walk : DcWalk) : DcWalk :=
  let linked :=
    if walk.found then
      { walk with
        dcNext := Function.update walk.dcNext walk.prevDcSlave i
        dcPrevious := Function.update walk.dcPrevious i walk.prevDcSlave }
    else
      { walk with
        found := true
        dcNext := Function.update walk.dcNext 0 i
        dcPrevious := Function.update walk.dcPrevious i 0
        groupNext := Function.update walk.groupNext (list.group i) (some i) }
  { linked with parenthold := 0, prevDcSlave := i }

/-- The latched times are read, the system time offset is written, and the entry port is
found. -/
def timed (list : SlaveList) (latched : Latched) (mastertime : UInt64) (i : Nat) (walk : DcWalk) :
    DcWalk :=
  let entry := entryportOf (portTimes (list.activeports i) (latched.dcTime i))
  { walk with
    dcRt := Function.update walk.dcRt i (latched.dcTime i)
    entryport := Function.update walk.entryport i entry
    consumedports := Function.update walk.consumedports i
      (walk.consumedports i &&& ~~~portMask entry)
    written := walk.written ++ [.sysOffset i (-latched.dcSof i + mastertime)] }

/-- The delay of slave `i` is measured, if a clock comes before it. -/
def measured (list : SlaveList) (i : Nat) (walk : DcWalk) : Option DcWalk :=
  let (child, parent) := dcParent list i i
  if parent > 0 then do
    let (port, rest) := Topology.parentport (walk.consumedports parent)
    let port := if list.topology parent = 1 then walk.entryport parent else port
    let consumed :=
      { walk with
        consumedports := Function.update walk.consumedports parent rest
        parentport := Function.update walk.parentport i port }
    let pdelay ← consumed.delay list i child parent port
    some { consumed with
      pdelay := Function.update consumed.pdelay i pdelay
      written := consumed.written ++ [.sysDelay i pdelay] }
  else some walk

def skipped (list : SlaveList) (i : Nat) (walk : DcWalk) : DcWalk :=
  let parent := list.parent i
  let hold := if parent > 0 ∧ list.topology parent > 2 then parent else walk.parenthold
  let cleared := { walk with dcRt := Function.update walk.dcRt i fun _ => 0, parenthold := hold }
  -- the branch has no clock, so its port on the held parent is consumed
  if hold > 0 ∧ list.topology i = 1 then
    { cleared with
      consumedports := Function.update walk.consumedports hold
        (Topology.parentport (walk.consumedports hold)).2
      parenthold := 0 }
  else cleared

def slave (list : SlaveList) (latched : Latched) (mastertime : UInt64) (walk : DcWalk) (i : Nat) :
    Option DcWalk :=
  let fresh :=
    { walk with consumedports := Function.update walk.consumedports i (list.activeports i) }
  if list.hasdc i then ((fresh.chained list i).timed list latched mastertime i).measured list i
  else some (fresh.skipped list i)

def slaves (list : SlaveList) (latched : Latched) (mastertime : UInt64) (last count : Nat)
    (walk : DcWalk) : Option DcWalk :=
  (List.range' (last + 1) count).foldlM (DcWalk.slave list latched mastertime) walk

end DcWalk

/-- The call; `memory` is what `ec_slave` and `ec_group` hold before. -/
def ecxConfigdc (list : SlaveList) (latched : Latched) (mastertime : UInt64) (memory : DcWalk) :
    Option DcWalk :=
  { memory with
    found := false
    groupNext := Function.update memory.groupNext 0 none
    parenthold := 0
    prevDcSlave := 0
    written := [] }.slaves list latched mastertime 0 list.slavecount

end WebserverEthercat.Topology

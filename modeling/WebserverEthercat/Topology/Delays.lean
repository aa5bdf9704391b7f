import Mathlib.Data.List.Sublists
import WebserverEthercat.Topology.Configdc

/-!
# The measured propagation delays

A frame enters each slave at port 0 and leaves it through ports 3, 1 and 2, as
far as they are wired; it comes back to a port when it has passed everything
behind it.  Each slave latches these times in its own clock.
-/

set_option autoImplicit false

namespace WebserverEthercat.Topology

open Preorder Checked

/-- How a slave is wired to its parent. -/
structure Wiring where
  /-- the port of the parent -/
  port : UInt8
  /-- the delay of the cable -/
  delay : Nat
  /-- the slave's clock when the frame is sent -/
  clock : Int
deriving DecidableEq, Repr

/-! ## Sets of ports -/

def maskOf (ports : List UInt8) : UInt8 := ports.foldr (fun port mask => portMask port ||| mask) 0

/-- The ports behind which there may be children, in the order of the frame. -/
def portOrder : List UInt8 := [3, 1, 2]

theorem wired_ports {ports : List UInt8} (ordered : ports.Sublist portOrder) :
    ports ∈ portOrder.sublists := List.mem_sublists.mpr ordered

theorem ports_found : ∀ ports ∈ portOrder.sublists,
    [0, 3, 1, 2].filter (active (maskOf (0 :: ports))) = 0 :: ports ∧
      maskOf (0 :: ports) &&& ~~~portMask 0 = maskOf ports ∧
      (ports ≠ [] → prevport (maskOf (0 :: ports)) 0 = ports.getLastD 0) := by
  decide

theorem prevport_found : ∀ ports ∈ portOrder.sublists, ∀ position : Fin ports.length,
    prevport (maskOf (0 :: ports)) (ports.get position) =
      (ports.take position).getLastD 0 := by
  decide

/-- The ports are consumed in the order of the frame. -/
theorem parentport_consumes : ∀ ports ∈ portOrder.sublists, ∀ port ∈ ports.head?,
    parentport (maskOf ports) = (port, maskOf ports.tail) := by
  decide +kernel

theorem prevport_behind {earlier later : List UInt8} {port : UInt8}
    (ordered : (earlier ++ port :: later).Sublist portOrder) :
    prevport (maskOf (0 :: (earlier ++ port :: later))) port = earlier.getLastD 0 := by
  have found := prevport_found _ (wired_ports ordered) ⟨earlier.length, by simp⟩
  simpa using found

theorem parentport_first {port : UInt8} {later : List UInt8}
    (ordered : (port :: later).Sublist portOrder) :
    parentport (maskOf (port :: later)) = (port, maskOf later) :=
  parentport_consumes _ (wired_ports ordered) port rfl

/-! ## The frame on its way -/

def ports : Forest Wiring → List UInt8
  | .nil => []
  | .node wiring _ siblings => wiring.port :: ports siblings

/-- The time from sending the frame into the first tree to receiving it from the last one. -/
def duration : Forest Wiring → Nat
  | .nil => 0
  | .node wiring children siblings => 2 * wiring.delay + duration children + duration siblings

/-- When the frame comes back to a port. -/
def returned : Forest Wiring → UInt8 → Option Nat
  | .nil, _ => none
  | .node wiring children siblings, port =>
      if port = wiring.port then some (2 * wiring.delay + duration children)
      else (returned siblings port).map (2 * wiring.delay + duration children + ·)

/-- When the frame comes to each slave, if it is sent at `time`. -/
def arrivals : Forest Wiring → Nat → List Nat
  | .nil, _ => []
  | .node wiring children siblings, time =>
      (time + wiring.delay) :: (arrivals children (time + wiring.delay) ++
        arrivals siblings (time + 2 * wiring.delay + duration children))

theorem length_ports (forest : Forest Wiring) : (ports forest).length = forest.trees := by
  induction forest with
  | nil => rfl
  | node wiring children siblings _ ih => rw [ports, List.length_cons, ih, Forest.trees_node]

theorem length_arrivals (forest : Forest Wiring) :
    ∀ time, (arrivals forest time).length = forest.size := by
  induction forest with
  | nil => exact fun _ => rfl
  | node wiring children siblings childrenIH siblingsIH =>
      intro time
      simp [arrivals, childrenIH, siblingsIH]

theorem mem_ports_of_returned {forest : Forest Wiring} {port : UInt8} :
    ∀ {time : Nat}, returned forest port = some time → port ∈ ports forest := by
  induction forest with
  | nil =>
      intro time here
      cases here
  | node wiring children siblings _ ih =>
      intro time here
      rw [returned] at here
      split at here
      case isTrue same => exact List.mem_cons.mpr (.inl same)
      case isFalse other =>
        obtain ⟨later, found, -⟩ := Option.map_eq_some_iff.mp here
        exact List.mem_cons_of_mem _ (ih found)

theorem returned_of_mem {forest : Forest Wiring} {port : UInt8} (member : port ∈ ports forest) :
    ∃ time, returned forest port = some time := by
  induction forest with
  | nil => cases member
  | node wiring children siblings _ ih =>
      rw [returned]
      split
      · exact ⟨_, rfl⟩
      case isFalse other =>
        obtain ⟨time, found⟩ := ih ((List.mem_cons.mp member).resolve_left other)
        exact ⟨_, by rw [found]; rfl⟩

theorem returned_last {forest : Forest Wiring} (distinct : (ports forest).Nodup)
    (wired : ports forest ≠ []) :
    returned forest ((ports forest).getLastD 0) = some (duration forest) := by
  induction forest with
  | nil => exact absurd rfl wired
  | node wiring children siblings _ ih =>
      obtain ⟨fresh, distinctLater⟩ := List.nodup_cons.mp distinct
      cases later : ports siblings with
      | nil =>
          have single : siblings = .nil := by
            cases siblings with
            | nil => rfl
            | node _ _ _ => cases later
          subst single
          simp [ports, returned, duration]
      | cons port rest =>
          have more : ports siblings ≠ [] := by simp [later]
          have lastIs : (ports (.node wiring children siblings)).getLastD 0 =
              (ports siblings).getLastD 0 := by
            rw [ports, later]
            rfl
          have other : (ports siblings).getLastD 0 ≠ wiring.port := by
            intro same
            apply fresh
            rw [← same, later, List.getLastD_cons]
            exact List.getLastD_mem_cons
          rw [lastIs, returned, if_neg other, ih distinctLater more, duration]
          rfl

/-! ## The measurement of one slave -/

theorem entryportOf_first {first : UInt8 × Int32} {rest : List (UInt8 × Int32)}
    (later : ∀ port ∈ rest, first.2 ≤ port.2) : entryportOf (first :: rest) = first.1 := by
  rw [entryportOf]
  congr 1
  induction rest with
  | nil => rfl
  | cons port rest ih =>
      rw [List.foldl_cons, if_neg (Int32.not_lt.mpr (later port List.mem_cons_self))]
      exact ih fun other member => later other (List.mem_cons_of_mem _ member)

theorem addInt_eq {first second sum : Int} (same : first + second = sum)
    (fits : 0 ≤ sum ∧ sum ≤ intMax) : addInt first second = some sum := by
  rw [addInt, same, if_pos]
  exact ⟨by have low : intMin ≤ 0 := by decide
            omega, fits.2⟩

/-- The delay of a slave whose parent sends the frame at `time` and has it back after the cable,
both ways, and what is behind the slave. -/
theorem delay_eq {list : SlaveList} {walk : DcWalk} {i parent start entered time cable inside : Nat}
    {port : UInt8} {clock own : Int}
    (before : (walk.dcRt parent (prevport (list.activeports parent) port)).toInt = clock + time)
    (back : (walk.dcRt parent port).toInt = clock + time + (2 * cable + inside : Nat))
    (entry : (walk.dcRt parent (walk.entryport parent)).toInt = clock + entered)
    (ownEntry : (walk.dcRt i (walk.entryport i)).toInt = own)
    (ownBack : list.topology i > 1 →
      (walk.dcRt i (prevport (list.activeports i) (walk.entryport i))).toInt = own + inside)
    (leaf : ¬ list.topology i > 1 → inside = 0)
    (first : ¬ parent + 1 < i → time = entered)
    (pdelay : walk.pdelay parent = (entered : Int) - start)
    (order : start ≤ entered ∧ entered ≤ time)
    (fits : (time + (2 * cable + inside) : Nat) ≤ intMax) :
    walk.delay list i i parent port = some ((time + cable : Nat) - start : Int) := by
  have dt3 : walk.portDifference parent port (prevport (list.activeports parent) port) =
      some ((2 * cable + inside : Nat) : Int) :=
    addInt_eq (by rw [back, before]; omega) (by omega)
  have dt1 : (if list.topology i > 1 then
      walk.portDifference i (prevport (list.activeports i) (walk.entryport i)) (walk.entryport i)
        else some 0) = some (inside : Int) := by
    split
    case isTrue inner => exact addInt_eq (by rw [ownBack inner, ownEntry]; omega) (by omega)
    case isFalse outer => rw [leaf outer]; rfl
  have dt2 : (if parent + 1 < i then
      walk.portDifference parent (prevport (list.activeports parent) port) (walk.entryport parent)
        else some 0) = some ((time : Int) - entered) := by
    split
    case isTrue later => exact addInt_eq (by rw [before, entry]; omega) (by omega)
    case isFalse isFirst => rw [first isFirst, Int.sub_self]
  have difference : addInt ((2 * cable + inside : Nat) : Int) (-(inside : Int)) =
      some (2 * cable : Int) := addInt_eq (by omega) (by omega)
  have sum : addInt ((2 * cable : Int).tdiv 2) ((time : Int) - entered) =
      some ((cable : Int) + (time - entered)) :=
    addInt_eq (by rw [Int.mul_tdiv_cancel_left _ (by decide)]) (by omega)
  have whole : addInt ((cable : Int) + (time - entered)) ((entered : Int) - start) =
      some ((time + cable : Nat) - start : Int) := addInt_eq (by omega) (by omega)
  rw [DcWalk.delay, pdelay]
  simp only [dt3, dt1, dt2, Option.bind_eq_bind, Option.bind_some]
  rw [if_neg (by omega), if_neg (by omega), Option.bind_some, Option.bind_some, difference,
    Option.bind_some, sum, Option.bind_some, whole]

/-- What is found out and latched about a slave with these children that the frame enters at
`arrival`. -/
structure Observed (list : SlaveList) (latched : Latched) (slave : Nat) (clock : Int)
    (children : Forest Wiring) (arrival : Nat) : Prop where
  hasdc : list.hasdc slave = true
  topology : list.topology slave = UInt8.ofNat (children.trees + 1)
  activeports : list.activeports slave = maskOf (0 :: ports children)
  ordered : (ports children).Sublist portOrder
  entered : (latched.dcTime slave 0).toInt = clock + arrival
  returned : ∀ port time, returned children port = some time →
    (latched.dcTime slave port).toInt = clock + arrival + time

theorem Observed.few {list : SlaveList} {latched : Latched} {slave arrival : Nat} {clock : Int}
    {children : Forest Wiring} (seen : Observed list latched slave clock children arrival) :
    children.trees ≤ 3 := by
  rw [← length_ports]
  exact seen.ordered.length_le

theorem Observed.inner_iff {list : SlaveList} {latched : Latched} {slave arrival : Nat}
    {clock : Int} {children : Forest Wiring}
    (seen : Observed list latched slave clock children arrival) :
    list.topology slave > 1 ↔ children ≠ .nil := by
  rw [seen.topology, (countLinks_children seen.few 0).2]
  cases children with
  | nil => simp
  | node wiring children siblings => simp

theorem Observed.entryport {list : SlaveList} {latched : Latched} {slave arrival : Nat}
    {clock : Int} {children : Forest Wiring}
    (seen : Observed list latched slave clock children arrival) :
    entryportOf (portTimes (list.activeports slave) (latched.dcTime slave)) = 0 := by
  rw [portTimes, seen.activeports, (ports_found _ (wired_ports seen.ordered)).1, List.map_cons]
  apply entryportOf_first
  intro port member
  obtain ⟨number, wired, rfl⟩ := List.mem_map.mp member
  obtain ⟨time, back⟩ := returned_of_mem wired
  rw [Int32.le_iff_toInt_le, seen.entered, seen.returned number time back]
  omega

theorem Observed.last {list : SlaveList} {latched : Latched} {slave arrival : Nat}
    {clock : Int} {children : Forest Wiring}
    (seen : Observed list latched slave clock children arrival) (inner : children ≠ .nil) :
    (latched.dcTime slave (prevport (list.activeports slave) 0)).toInt =
      clock + arrival + duration children := by
  have wired : ports children ≠ [] := by
    cases children with
    | nil => exact absurd rfl inner
    | node wiring children siblings => simp [ports]
  have distinct : (ports children).Nodup := seen.ordered.nodup (by decide)
  rw [seen.activeports, (ports_found _ (wired_ports seen.ordered)).2.2 wired]
  exact seen.returned _ _ (returned_last distinct wired)

/-- A slave from which the frame is sent into a forest at `time`, behind the ports `earlier`. -/
structure Awaits (list : SlaveList) (walk : DcWalk) (parent start entered time : Nat) (clock : Int)
    (earlier : List UInt8) (forest : Forest Wiring) : Prop where
  hasdc : list.hasdc parent = true
  branches : forest ≠ .nil → list.topology parent ≠ 1
  ordered : (earlier ++ ports forest).Sublist portOrder
  activeports : list.activeports parent = maskOf (0 :: (earlier ++ ports forest))
  consumed : walk.consumedports parent = maskOf (ports forest)
  entryport : walk.entryport parent = 0
  entry : (walk.dcRt parent 0).toInt = clock + entered
  before : (walk.dcRt parent (earlier.getLastD 0)).toInt = clock + time
  returned : ∀ port back, returned forest port = some back →
    (walk.dcRt parent port).toInt = clock + time + back
  pdelay : walk.pdelay parent = (entered : Int) - start
  order : start ≤ entered ∧ entered ≤ time

@[simp] theorem DcWalk.chained_fields (list : SlaveList) (i : Nat) (walk : DcWalk) :
    (walk.chained list i).consumedports = walk.consumedports ∧
      (walk.chained list i).entryport = walk.entryport ∧
      (walk.chained list i).parentport = walk.parentport ∧
      (walk.chained list i).dcRt = walk.dcRt ∧ (walk.chained list i).pdelay = walk.pdelay := by
  unfold DcWalk.chained
  split <;> exact ⟨rfl, rfl, rfl, rfl, rfl⟩

/-- What is known about a slave when its delay comes to be measured. -/
structure Ready (latched : Latched) (walk ready : DcWalk) (i : Nat) (consumed : UInt8) : Prop where
  consumedports : ready.consumedports = Function.update walk.consumedports i consumed
  entryport : ready.entryport = Function.update walk.entryport i 0
  parentport : ready.parentport = walk.parentport
  dcRt : ready.dcRt = Function.update walk.dcRt i (latched.dcTime i)
  pdelay : ready.pdelay = walk.pdelay

theorem slave_ready {list : SlaveList} {latched : Latched} {slave arrival : Nat} {clock : Int}
    {children : Forest Wiring} (seen : Observed list latched slave clock children arrival)
    (mastertime : UInt64) (walk : DcWalk) :
    ∃ ready, walk.slave list latched mastertime slave = ready.measured list slave ∧
      Ready latched walk ready slave (maskOf (ports children)) := by
  have own : maskOf (0 :: ports children) &&& ~~~portMask 0 = maskOf (ports children) :=
    (ports_found _ (wired_ports seen.ordered)).2.1
  obtain ⟨consumedports, entryport, parentports, dcRt, pdelay⟩ :=
    DcWalk.chained_fields list slave
      { walk with consumedports :=
          Function.update walk.consumedports slave (list.activeports slave) }
  rw [DcWalk.slave, if_pos seen.hasdc]
  generalize DcWalk.chained list slave _ = linked at *
  refine ⟨linked.timed list latched mastertime slave, rfl, ?_, ?_, parentports, ?_, pdelay⟩
  · simp only [DcWalk.timed, seen.entryport, consumedports, Function.update_idem,
      Function.update_self]
    rw [seen.activeports, own]
  · simp only [DcWalk.timed, seen.entryport, entryport]
  · simp only [DcWalk.timed, dcRt]

/-- What the turn for slave `i` has done when its delay is measured. -/
structure Turned (latched : Latched) (walk after : DcWalk) (i parent : Nat)
    (consumedOwn consumedParent port : UInt8) (pdelay : Int) : Prop where
  consumedports : after.consumedports = Function.update
    (Function.update walk.consumedports i consumedOwn) parent consumedParent
  entryport : after.entryport = Function.update walk.entryport i 0
  parentport : after.parentport = Function.update walk.parentport i port
  dcRt : after.dcRt = Function.update walk.dcRt i (latched.dcTime i)
  pdelay : after.pdelay = Function.update walk.pdelay i pdelay

/-- One slave: it gets the parent's next port, and the time since the start as its delay. -/
theorem slave_measured {list : SlaveList} {latched : Latched} (mastertime : UInt64)
    {walk : DcWalk} {parent last start entered time : Nat} {clock : Int} {earlier : List UInt8}
    {wiring : Wiring} {children siblings : Forest Wiring} (behind : 0 < parent ∧ parent ≤ last)
    (awaits : Awaits list walk parent start entered time clock earlier
      (.node wiring children siblings))
    (first : last = parent → time = entered) (hangs : list.parent (last + 1) = parent)
    (seen : Observed list latched (last + 1) wiring.clock children (time + wiring.delay))
    (fits : (time + (2 * wiring.delay + duration children) : Nat) ≤ intMax) :
    ∃ after, walk.slave list latched mastertime (last + 1) = some after ∧
      Turned latched walk after (last + 1) parent (maskOf (ports children))
        (maskOf (ports siblings)) wiring.port ((time + wiring.delay : Nat) - start) := by
  have other : parent ≠ last + 1 := by omega
  have found : dcParent list (last + 1) (last + 1) = (last + 1, parent) := by
    rw [dcParent, hangs, if_pos (.inr awaits.hasdc)]
  have next : parentport (maskOf (ports (.node wiring children siblings))) =
      (wiring.port, maskOf (ports siblings)) :=
    parentport_first ((List.sublist_append_right ..).trans awaits.ordered)
  have previous : prevport (list.activeports parent) wiring.port = earlier.getLastD 0 := by
    rw [awaits.activeports]
    exact prevport_behind awaits.ordered
  obtain ⟨ready, turn, facts⟩ := slave_ready seen mastertime walk
  have consumed : ready.consumedports parent = maskOf (ports (.node wiring children siblings)) := by
    rw [facts.consumedports, Function.update_of_ne other, awaits.consumed]
  have ofParent : ∀ port, ready.dcRt parent port = walk.dcRt parent port := by
    intro port
    rw [facts.dcRt, Function.update_of_ne other]
  have delayed : ∀ consumed : DcWalk, consumed.dcRt = ready.dcRt →
      consumed.entryport = ready.entryport → consumed.pdelay = ready.pdelay →
      consumed.delay list (last + 1) (last + 1) parent wiring.port =
        some ((time + wiring.delay : Nat) - start : Int) := by
    intro consumed sameTimes sameEntries sameDelays
    have ownPort : consumed.entryport (last + 1) = 0 := by
      rw [sameEntries, facts.entryport, Function.update_self]
    have ownTimes : consumed.dcRt (last + 1) = latched.dcTime (last + 1) := by
      rw [sameTimes, facts.dcRt, Function.update_self]
    refine @delay_eq list consumed (last + 1) parent start entered time wiring.delay
      (duration children) wiring.port clock (wiring.clock + (time + wiring.delay : Nat))
      ?_ ?_ ?_ ?_ ?_ ?_ ?_ ?_ ?_ ?_
    · rw [sameTimes, ofParent, previous, awaits.before]
    · rw [sameTimes, ofParent]
      exact awaits.returned _ _ (by rw [returned, if_pos rfl])
    · rw [sameTimes, ofParent, sameEntries, facts.entryport, Function.update_of_ne other,
        awaits.entryport, awaits.entry]
    · rw [ownPort, ownTimes, seen.entered]
    · intro inner
      rw [ownPort, ownTimes, seen.last (seen.inner_iff.mp inner)]
    · intro outer
      rw [not_ne_iff.mp (mt seen.inner_iff.mpr outer), duration]
    · intro isFirst
      exact first (by omega)
    · rw [sameDelays, facts.pdelay, awaits.pdelay]
    · exact awaits.order
    · exact fits
  rw [turn, DcWalk.measured, found]
  simp only [behind.1, if_true, consumed, next, if_neg (awaits.branches (by simp))]
  have value := delayed
    { ready with
      consumedports := Function.update ready.consumedports parent (maskOf (ports siblings))
      parentport := Function.update ready.parentport (last + 1) wiring.port } rfl rfl rfl
  rw [value, Option.bind_eq_bind, Option.bind_some]
  exact ⟨_, rfl, by rw [facts.consumedports], facts.entryport, by rw [facts.parentport],
    facts.dcRt, by rw [facts.pdelay]⟩

/-! ## The measurement of a forest -/

/-- All slaves of a forest are observed when the frame is sent into it at `time`. -/
def ObservedAll (list : SlaveList) (latched : Latched) : Forest Wiring → Nat → Nat → Prop
  | .nil, _, _ => True
  | .node wiring children siblings, last, time =>
      Observed list latched (last + 1) wiring.clock children (time + wiring.delay) ∧
        ObservedAll list latched children (last + 1) (time + wiring.delay) ∧
        ObservedAll list latched siblings (last + 1 + children.size)
          (time + 2 * wiring.delay + duration children)

theorem slaves_cons (list : SlaveList) (latched : Latched) (mastertime : UInt64)
    (last first second : Nat) (walk : DcWalk) :
    walk.slaves list latched mastertime last (first + second + 1) =
      (walk.slave list latched mastertime (last + 1)).bind fun turned =>
        (turned.slaves list latched mastertime (last + 1) first).bind fun inside =>
          inside.slaves list latched mastertime (last + 1 + first) second := by
  have order : last + 1 + 1 + first = last + 1 + first + 1 := by omega
  unfold DcWalk.slaves
  rw [List.range'_succ, List.foldlM_cons, ← List.range'_append_1, order]
  congr 1
  funext turned
  exact List.foldlM_append

/-- What the turns for the slaves of a forest have done. -/
structure Passed (walk after : DcWalk) (parent last start time : Nat) (forest : Forest Wiring) :
    Prop where
  pdelay : Tabulates after.pdelay last
    ((arrivals forest time).map fun arrival : Nat => (arrival : Int) - start)
  parentport : Tabulates after.parentport last (forest.nodes fun wiring _ => wiring.port)
  earlier : ∀ slave ≤ last, after.pdelay slave = walk.pdelay slave ∧
    after.parentport slave = walk.parentport slave ∧
    after.entryport slave = walk.entryport slave ∧ after.dcRt slave = walk.dcRt slave
  consumedports : ∀ slave ≤ last, slave ≠ parent →
    after.consumedports slave = walk.consumedports slave

/-- The slave itself, when the frame is sent on to its children. -/
theorem awaits_children {list : SlaveList} {latched : Latched} {walk : DcWalk}
    {slave start arrival : Nat} {clock : Int} {children : Forest Wiring}
    (seen : Observed list latched slave clock children arrival) (begun : start ≤ arrival)
    (consumed : walk.consumedports slave = maskOf (ports children))
    (entryport : walk.entryport slave = 0) (times : walk.dcRt slave = latched.dcTime slave)
    (pdelay : walk.pdelay slave = (arrival : Int) - start) :
    Awaits list walk slave start arrival arrival clock [] children where
  hasdc := seen.hasdc
  branches := by
    intro inner single
    have more := seen.inner_iff.mpr inner
    rw [single] at more
    exact absurd more (by decide)
  ordered := seen.ordered
  activeports := seen.activeports
  consumed := consumed
  entryport := entryport
  entry := by rw [times, seen.entered]
  before := by
    rw [times]
    exact seen.entered
  returned := by
    intro port back here
    rw [times, seen.returned port back here]
  pdelay := pdelay
  order := ⟨begun, Nat.le_refl _⟩

/-- The parent, when the frame has come back from the first tree. -/
theorem awaits_siblings {list : SlaveList} {latched : Latched} {walk after inside : DcWalk}
    {parent last start entered time : Nat} {clock : Int} {earlier : List UInt8}
    {wiring : Wiring} {children siblings : Forest Wiring} {pdelay : Int}
    (behind : parent ≤ last)
    (awaits : Awaits list walk parent start entered time clock earlier
      (.node wiring children siblings))
    (turned : Turned latched walk after (last + 1) parent (maskOf (ports children))
      (maskOf (ports siblings)) wiring.port pdelay)
    (passed : Passed after inside (last + 1) (last + 1) start (time + wiring.delay) children) :
    Awaits list inside parent start entered (time + 2 * wiring.delay + duration children) clock
      (earlier ++ [wiring.port]) siblings := by
  have other : parent ≠ last + 1 := by omega
  obtain ⟨samePdelay, -, sameEntryport, sameDcRt⟩ := passed.earlier parent (by omega)
  have times : inside.dcRt parent = walk.dcRt parent := by
    rw [sameDcRt, turned.dcRt, Function.update_of_ne other]
  have split : earlier ++ [wiring.port] ++ ports siblings =
      earlier ++ ports (.node wiring children siblings) := by simp [ports]
  have fresh : wiring.port ∉ ports siblings := by
    have distinct : (ports (.node wiring children siblings)).Nodup :=
      ((List.sublist_append_right ..).trans awaits.ordered).nodup (by decide)
    exact (List.nodup_cons.mp distinct).1
  exact
    { hasdc := awaits.hasdc
      branches := fun _ => awaits.branches (by simp)
      ordered := by rw [split]; exact awaits.ordered
      activeports := by rw [split]; exact awaits.activeports
      consumed := by
        rw [passed.consumedports parent (by omega) other, turned.consumedports,
          Function.update_self]
      entryport := by
        rw [sameEntryport, turned.entryport, Function.update_of_ne other, awaits.entryport]
      entry := by rw [times, awaits.entry]
      before := by
        rw [times, List.getLastD_concat,
          awaits.returned wiring.port (2 * wiring.delay + duration children)
            (by rw [returned, if_pos rfl])]
        omega
      returned := by
        intro port back here
        have unequal : port ≠ wiring.port := by
          intro same
          subst same
          exact fresh (mem_ports_of_returned here)
        rw [times, awaits.returned port (2 * wiring.delay + duration children + back)
          (by rw [returned, if_neg unequal, here, Option.map_some])]
        omega
      pdelay := by rw [samePdelay, turned.pdelay, Function.update_of_ne other, awaits.pdelay]
      order := by
        have before := awaits.order
        omega }

/-- The turn for a slave, those for its children and those for its siblings. -/
theorem Turned.passed {latched : Latched} {walk turned inside after : DcWalk}
    {parent last start time : Nat} {wiring : Wiring} {children siblings : Forest Wiring}
    {consumedOwn consumedParent : UInt8}
    (facts : Turned latched walk turned (last + 1) parent consumedOwn consumedParent wiring.port
      ((time + wiring.delay : Nat) - start))
    (childFacts : Passed turned inside (last + 1) (last + 1) start (time + wiring.delay) children)
    (laterFacts : Passed inside after parent (last + 1 + children.size) start
      (time + 2 * wiring.delay + duration children) siblings) :
    Passed walk after parent last start time (.node wiring children siblings) := by
  refine ⟨?_, ?_, ?_, ?_⟩
  · rw [arrivals, List.map_cons, List.map_append, tabulates_cons, tabulates_append,
      List.length_map, length_arrivals]
    refine ⟨?_, childFacts.pdelay.congr ?_, laterFacts.pdelay⟩
    · rw [(laterFacts.earlier _ (by omega)).1, (childFacts.earlier _ (by omega)).1,
        facts.pdelay, Function.update_self]
    · intro number bound
      rw [List.length_map, length_arrivals] at bound
      exact (laterFacts.earlier number bound).1
  · rw [Forest.nodes, tabulates_cons, tabulates_append, Forest.length_nodes]
    refine ⟨?_, childFacts.parentport.congr ?_, laterFacts.parentport⟩
    · rw [(laterFacts.earlier _ (by omega)).2.1, (childFacts.earlier _ (by omega)).2.1,
        facts.parentport, Function.update_self]
    · intro number bound
      rw [Forest.length_nodes] at bound
      exact (laterFacts.earlier number bound).2.1
  · intro slave before
    have unequal : slave ≠ last + 1 := by omega
    obtain ⟨laterPdelay, laterPort, laterEntry, laterTimes⟩ :=
      laterFacts.earlier slave (by omega)
    obtain ⟨childPdelay, childPort, childEntry, childTimes⟩ :=
      childFacts.earlier slave (by omega)
    rw [laterPdelay, childPdelay, facts.pdelay, laterPort, childPort, facts.parentport,
      laterEntry, childEntry, facts.entryport, laterTimes, childTimes, facts.dcRt]
    simp only [Function.update_of_ne unequal, and_self]
  · intro slave before unequal
    have own : slave ≠ last + 1 := by omega
    rw [laterFacts.consumedports slave (by omega) unequal,
      childFacts.consumedports slave (by omega) own, facts.consumedports,
      Function.update_of_ne unequal, Function.update_of_ne own]

/-- Every slave of the forest gets the time that the frame needed to reach it. -/
theorem slaves_measured {list : SlaveList} {latched : Latched} (mastertime : UInt64)
    {forest : Forest Wiring} :
    ∀ {walk : DcWalk} {parent last start entered time : Nat} {clock : Int} {earlier : List UInt8},
      0 < parent ∧ parent ≤ last →
      Awaits list walk parent start entered time clock earlier forest →
      (last = parent → time = entered) →
      Tabulates list.parent last (forest.parents parent last) →
      ObservedAll list latched forest last time →
      (time + duration forest : Nat) ≤ intMax →
      ∃ after, walk.slaves list latched mastertime last forest.size = some after ∧
        Passed walk after parent last start time forest := by
  induction forest with
  | nil =>
      intro walk parent last start entered time clock earlier _ _ _ _ _ _
      exact ⟨walk, rfl, nofun, nofun, fun _ _ => ⟨rfl, rfl, rfl, rfl⟩, fun _ _ _ => rfl⟩
  | node wiring children siblings childrenIH siblingsIH =>
      intro walk parent last start entered time clock earlier behind awaits first hangs seen fits
      obtain ⟨seenHere, seenInside, seenLater⟩ := seen
      rw [Forest.parents, tabulates_cons, tabulates_append, Forest.length_parents] at hangs
      obtain ⟨hangsHere, hangsInside, hangsLater⟩ := hangs
      rw [duration] at fits
      have other : parent ≠ last + 1 := by omega
      obtain ⟨turned, turn, facts⟩ :=
        slave_measured mastertime behind awaits first hangsHere seenHere (by omega)
      have begun : start ≤ time + wiring.delay := by
        have order := awaits.order
        omega
      have own : Awaits list turned (last + 1) start (time + wiring.delay) (time + wiring.delay)
          wiring.clock [] children := by
        apply awaits_children seenHere begun
        · rw [facts.consumedports, Function.update_of_ne other.symm, Function.update_self]
        · rw [facts.entryport, Function.update_self]
        · rw [facts.dcRt, Function.update_self]
        · rw [facts.pdelay, Function.update_self]
      obtain ⟨inside, childTurns, childFacts⟩ := childrenIH ⟨by omega, Nat.le_refl _⟩ own
        (fun _ => rfl) hangsInside seenInside (by omega)
      obtain ⟨after, laterTurns, laterFacts⟩ := siblingsIH (by omega)
        (awaits_siblings behind.2 awaits facts childFacts) (by omega) hangsLater seenLater
        (by omega)
      refine ⟨after, ?_, facts.passed childFacts laterFacts⟩
      rw [Forest.size_node, slaves_cons, turn, Option.bind_some, childTurns, Option.bind_some,
        laterTurns]

/-! ## The whole network -/

/-- `ec_slave` behind `ecx_config_init`. -/
def SlaveList.configured (slavecount : Nat) (dlstat : Nat → UInt16) (hasdc : Nat → Bool)
    (group : Nat → UInt8) : SlaveList where
  slavecount := slavecount
  hasdc := hasdc
  group := group
  topology slave := (linksOf (dlstat slave)).topology
  activeports slave := (linksOf (dlstat slave)).activeports
  parent := Topology.parent fun slave => (linksOf (dlstat slave)).topology

theorem ObservedAll.openPorts {list : SlaveList} {latched : Latched} {forest : Forest Wiring} :
    ∀ {last time : Nat}, ObservedAll list latched forest last time →
      Tabulates list.topology last (openPorts forest) ∧ FourPorts forest := by
  induction forest with
  | nil =>
      intro last time _
      exact ⟨nofun, nofun⟩
  | node wiring children siblings childrenIH siblingsIH =>
      rintro last time ⟨seen, inside, later⟩
      obtain ⟨insidePorts, insideFour⟩ := childrenIH inside
      obtain ⟨laterPorts, laterFour⟩ := siblingsIH later
      constructor
      · rw [Topology.openPorts, Forest.nodes, tabulates_cons, tabulates_append,
          Forest.length_nodes]
        exact ⟨seen.topology, insidePorts, laterPorts⟩
      · intro count member
        rw [Forest.nodes, List.mem_cons, List.mem_append] at member
        rcases member with rfl | member | member
        · exact seen.few
        · exact insideFour count member
        · exact laterFour count member

/-- The parents are found, so the first slave is the only one without one. -/
theorem ObservedAll.parents {slavecount : Nat} {dlstat : Nat → UInt16} {hasdc : Nat → Bool}
    {group : Nat → UInt8} {latched : Latched} {root : Wiring} {children : Forest Wiring}
    {time : Nat}
    (seen : ObservedAll (.configured slavecount dlstat hasdc group) latched
      (.node root children .nil) 0 time) :
    Tabulates (SlaveList.configured slavecount dlstat hasdc group).parent 1
      (children.parents 1 1) := by
  obtain ⟨reported, four⟩ := seen.openPorts
  obtain ⟨few, fourChildren, -⟩ := four.node
  obtain ⟨here, inside, -⟩ := tabulates_openPorts reported
  apply parents_forest (Nat.succ_pos 0) fourChildren inside
  intro earlier before
  rw [searchParent_step few here, if_pos (.inr rfl)]

/-- In every network of slaves with clocks, whatever these show, the propagation delays are the
times that the frame needs from the first slave, and every slave gets the port of its parent
that it is wired to. -/
theorem delays_measured (root : Wiring) (children : Forest Wiring) (dlstat : Nat → UInt16)
    (hasdc : Nat → Bool) (group : Nat → UInt8) (latched : Latched) (mastertime : UInt64)
    (memory : DcWalk) (cleared : memory.pdelay 1 = 0)
    (seen : ObservedAll (.configured (children.size + 1) dlstat hasdc group) latched
      (.node root children .nil) 0 0)
    (fits : (duration (.node root children .nil) : Nat) ≤ intMax) :
    ∃ final, ecxConfigdc (.configured (children.size + 1) dlstat hasdc group) latched mastertime
        memory = some final ∧
      Tabulates final.pdelay 0 ((arrivals (.node root children .nil) 0).map
        fun arrival : Nat => (arrival : Int) - root.delay) ∧
      Tabulates final.parentport 1 (children.nodes fun wiring _ => wiring.port) := by
  obtain ⟨seenRoot, seenInside, -⟩ := id seen
  have hangs := seen.parents
  rw [Nat.zero_add] at seenRoot seenInside
  rw [duration] at fits
  generalize listed : SlaveList.configured (children.size + 1) dlstat hasdc group = list at *
  have count : list.slavecount = children.size + 0 + 1 := by rw [← listed]; rfl
  have top : list.parent 1 = 0 := by
    rw [← listed]
    rfl
  have start := slave_ready seenRoot mastertime
    { memory with
      found := false
      groupNext := Function.update memory.groupNext 0 none
      parenthold := 0
      prevDcSlave := 0
      written := [] }
  obtain ⟨ready, turn, facts⟩ := start
  have unmeasured : ready.measured list 1 = some ready := by
    rw [DcWalk.measured, dcParent, if_pos (.inl top), top]
    rfl
  rw [unmeasured] at turn
  have own : Awaits list ready 1 (0 + root.delay) (0 + root.delay) (0 + root.delay) root.clock []
      children := by
    apply awaits_children seenRoot (Nat.le_refl _)
    · rw [facts.consumedports, Function.update_self]
    · rw [facts.entryport, Function.update_self]
    · rw [facts.dcRt, Function.update_self]
    · rw [facts.pdelay, Int.sub_self]
      exact cleared
  obtain ⟨final, turns, passed⟩ := slaves_measured mastertime ⟨Nat.one_pos, Nat.le_refl 1⟩ own
    (fun _ => rfl) hangs seenInside (by omega)
  refine ⟨final, ?_, ?_, passed.parentport⟩
  · rw [ecxConfigdc, count]
    refine (slaves_cons list latched mastertime 0 children.size 0 _).trans ?_
    rw [turn, Option.bind_some, turns]
    rfl
  · rw [arrivals, arrivals, List.append_nil, List.map_cons, tabulates_cons, Nat.zero_add]
    refine ⟨?_, ?_⟩
    · rw [(passed.earlier 1 (Nat.le_refl 1)).1, facts.pdelay, Nat.zero_add, Int.sub_self]
      exact cleared
    · simpa only [Nat.zero_add] using passed.pdelay

/-- What hangs on slave 1: slave 2 with slave 3 behind it, and slave 4. -/
def cables : Forest Wiring :=
  .node ⟨3, 10, -7⟩ (.node ⟨1, 4, 50⟩ .nil .nil) (.node ⟨1, 20, 1000⟩ .nil .nil)

def cablesDlstat : Nat → UInt16
  | 1 => 0x8a00
  | 2 => 0x0a00
  | _ => 0x0200

/-- The clocks of the slaves are 100, -7, 50 and 1000 when the frame is sent. -/
def cablesTime : Nat → UInt8 → Int32
  | 1, 0 => 105
  | 1, 3 => 133
  | 1, 1 => 173
  | 2, 0 => 8
  | 2, 1 => 16
  | 3, 0 => 69
  | 4, 0 => 1053
  | _, _ => 0

theorem cables_observed : ObservedAll (.configured 4 cablesDlstat (fun _ => true) fun _ => 0)
    ⟨cablesTime, fun _ => 0⟩ (.node ⟨0, 5, 100⟩ cables .nil) 0 0 := by
  refine ⟨⟨rfl, rfl, by decide, by decide, by decide, ?_⟩,
    ⟨⟨rfl, rfl, by decide, by decide, by decide, ?_⟩,
      ⟨⟨rfl, rfl, by decide, by decide, by decide, nofun⟩, trivial, trivial⟩,
      ⟨⟨rfl, rfl, by decide, by decide, by decide, nofun⟩, trivial, trivial⟩⟩, trivial⟩
  · intro port time here
    simp only [returned, duration, cables, Option.map_none] at here
    split at here
    case isTrue same =>
      subst same
      cases here
      rfl
    case isFalse other =>
      split at here
      case isTrue same =>
        subst same
        cases here
        rfl
      case isFalse none => cases here
  · intro port time here
    simp only [returned, duration, Option.map_none] at here
    split at here
    case isTrue same =>
      subst same
      cases here
      rfl
    case isFalse none => cases here

def cablesMemory : DcWalk where
  found := false
  groupNext _ := none
  dcNext _ := 0
  dcPrevious _ := 0
  parenthold := 0
  prevDcSlave := 0
  dcRt _ _ := 0
  consumedports _ := 0
  entryport _ := 0
  parentport _ := 0
  pdelay _ := 0
  written := []

theorem delays_measured_cables : ∃ final,
    ecxConfigdc (.configured 4 cablesDlstat (fun _ => true) fun _ => 0)
        ⟨cablesTime, fun _ => 0⟩ 0 cablesMemory = some final ∧
      Tabulates final.pdelay 0 [0, 10, 14, 48] ∧ Tabulates final.parentport 1 [3, 1, 1] :=
  delays_measured ⟨0, 5, 100⟩ cables cablesDlstat (fun _ => true) (fun _ => 0)
    ⟨cablesTime, fun _ => 0⟩ 0 cablesMemory rfl cables_observed (by decide)

end WebserverEthercat.Topology

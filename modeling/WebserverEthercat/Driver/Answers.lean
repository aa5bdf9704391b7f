import Mathlib.Logic.Function.Iterate
import WebserverEthercat.Driver.Port
import WebserverEthercat.Lib.EventMachine

/-!
# Own answers

A caller finds the answer to its own frame in its buffer, whatever order the
frames come in and whoever reads them, as long as its index is not given away
while it has it, or while an old answer with it is on its way.
-/

set_option autoImplicit false

namespace WebserverEthercat.Driver

open EventMachine

variable {Caller Data Choice : Type} {answer : Data → Choice → Data}

/-! ## New indexes -/

theorem following_reaches (start target : Index) :
    ∃ turns < ecMaxBuf, following^[turns] start = target := by
  revert start target
  decide +kernel

/-- The search gives up behind the last buffer only. -/
theorem search_occupied (port : Port Data) :
    ∀ (left : Nat) (idx : Index), port.rxbufstat (port.search left idx) ≠ .empty →
      ∀ turns < left, port.rxbufstat (following^[turns] idx) ≠ .empty := by
  intro left
  induction left with
  | zero => exact fun _ _ turns few => absurd few (Nat.not_lt_zero turns)
  | succ left ih =>
      intro idx occupied turns few
      rw [Port.search] at occupied
      split at occupied
      · contradiction
      · rename_i here
        cases turns with
        | zero => exact here
        | succ turns =>
            rw [Function.iterate_succ_apply]
            exact ih (following idx) occupied turns (Nat.lt_of_succ_lt_succ few)

theorem newIndex_empty (port : Port Data) (free : ∃ idx, port.rxbufstat idx = .empty) :
    port.rxbufstat port.newIndex = .empty := by
  obtain ⟨idx, empty⟩ := free
  obtain ⟨turns, few, rfl⟩ := following_reaches (following port.lastidx) idx
  by_contra occupied
  exact search_occupied port _ _ occupied turns few empty

/-! ## What is on its way -/

/-- Good frames only are on their way to the index or wait in its buffer. -/
structure Incoming (idx : Index) (Good : Data → Prop) (link : Link Data) : Prop where
  wire : ∀ frame ∈ link.wire, frame.ethercat = true → frame.index = idx → Good frame.data
  buffer : link.port.rxbufstat idx = .rcvd → Good (link.port.rxbuf idx)

variable {idx : Index} {Good : Data → Prop} {link : Link Data}

theorem Incoming.fewer (incoming : Incoming idx Good link) {wire : List (Frame Data)}
    (fewer : wire ⊆ link.wire) : Incoming idx Good { link with wire } :=
  ⟨fun frame member => incoming.wire frame (fewer member), incoming.buffer⟩

theorem Incoming.snoc (incoming : Incoming idx Good link) {frame : Frame Data}
    (good : frame.ethercat = true → frame.index = idx → Good frame.data) :
    Incoming idx Good { link with wire := link.wire ++ [frame] } := by
  refine ⟨fun other member => ?_, incoming.buffer⟩
  rcases List.mem_append.mp member with old | new
  · exact incoming.wire other old
  · rw [List.mem_singleton.mp new]
    exact good

theorem Incoming.setbufstat (incoming : Incoming idx Good link) (other : Index)
    (bufstat : BufState) (read : bufstat ≠ .rcvd) :
    Incoming idx Good { link with port := link.port.setbufstat other bufstat } := by
  refine ⟨incoming.wire, fun there => incoming.buffer ?_⟩
  by_cases same : idx = other
  · subst same
    simp only [Port.setbufstat, Function.update_self] at there
    exact absurd there read
  · simpa only [Port.setbufstat, Function.update_of_ne same] using there

theorem Incoming.setup (incoming : Incoming idx Good link) (other : Index) (data : Data) :
    Incoming idx Good { link with port := link.port.setup other data } :=
  ⟨incoming.wire, incoming.buffer⟩

theorem Incoming.file (incoming : Incoming idx Good link) {frame : Frame Data}
    (member : frame ∈ link.wire) (ethercat : frame.ethercat = true) {other : Index}
    (index : frame.index = other) (bufstat : BufState) :
    Incoming idx Good { link with port := link.port.file other frame.data bufstat } := by
  refine ⟨incoming.wire, fun there => ?_⟩
  by_cases same : idx = other
  · subst same
    simp only [Port.file, Function.update_self]
    exact incoming.wire frame member ethercat index
  · simp only [Port.file, Port.setbufstat, Function.update_of_ne same] at there ⊢
    exact incoming.buffer there

theorem Incoming.inframe (incoming : Incoming idx Good link) (reader : Index)
    {received : Option (Frame Data)} (onWire : ∀ frame ∈ received, frame ∈ link.wire) :
    Incoming idx Good { link with port := (link.port.inframe reader received).2 } := by
  unfold Port.inframe
  by_cases there : link.port.rxbufstat reader = .rcvd
  · rw [if_pos there]
    exact incoming.setbufstat reader .complete (by simp)
  · rw [if_neg there]
    cases received with
    | none => exact incoming
    | some frame =>
        have member := onWire frame rfl
        dsimp only
        by_cases ethercat : frame.ethercat = true
        · rw [if_pos ethercat]
          by_cases own : frame.index = reader
          · rw [if_pos own]
            exact incoming.file member ethercat own .complete
          · rw [if_neg own]
            by_cases inside : frame.index < ecMaxBuf
            · rw [dif_pos inside]
              by_cases waited : link.port.rxbufstat ⟨frame.index, inside⟩ = .tx
              · rw [if_pos waited]
                exact incoming.file member ethercat rfl .rcvd
              · rw [if_neg waited]
                exact incoming
            · rw [dif_neg inside]
              exact incoming
        · rw [if_neg ethercat]
          exact incoming

/-- What `ecx_inframe` returns is in the buffer or on the wire. -/
theorem Incoming.returned (incoming : Incoming idx Good link) {received : Option (Frame Data)}
    (onWire : ∀ frame ∈ received, frame ∈ link.wire) {content : Data}
    (returned : (link.port.inframe idx received).1 = .frame content) : Good content := by
  unfold Port.inframe at returned
  split at returned
  · rename_i there
    cases returned
    exact incoming.buffer there
  · split at returned
    · cases returned
    · rename_i frame
      split at returned
      · rename_i ethercat
        split at returned
        · rename_i own
          cases returned
          exact incoming.wire frame (onWire frame rfl) ethercat own
        · split at returned
          · split at returned <;> cases returned
          · cases returned
      · cases returned

theorem inframe_txbuf (port : Port Data) (reader : Index) (received : Option (Frame Data)) :
    (port.inframe reader received).2.txbuf = port.txbuf := by
  unfold Port.inframe
  split
  · rfl
  · split
    · rfl
    · split
      · split
        · rfl
        · split
          · split <;> rfl
          · rfl
      · rfl

theorem recv_wire {taken : Option Nat} {received : Option (Frame Data) × List (Frame Data)}
    (ran : recv link idx taken = some received) :
    (∀ frame ∈ received.1, frame ∈ link.wire) ∧ received.2 ⊆ link.wire := by
  cases taken with
  | none =>
      cases ran
      refine ⟨fun frame absent => ?_, fun _ member => member⟩
      cases absent
  | some position =>
      rw [recv] at ran
      split at ran
      · cases ran
      · obtain ⟨found, there, rfl⟩ := Option.map_eq_some_iff.mp ran
        refine ⟨fun other same => ?_, fun _ => List.mem_of_mem_eraseIdx⟩
        cases same
        exact List.mem_of_getElem? there

/-! ## Who has the index -/

/-- What may come in for a caller: answers to the frame that it has filled in. -/
def Holding.Expects (answer : Data → Choice → Data) : Holding Data → Data → Prop
  | .filled _ data, content => ∃ choice, content = answer data choice
  | _, _ => False

def Alone (idx : Index) (system : System Caller Data) : Prop :=
  ∀ first second, (system.holding first).index = some idx →
    (system.holding second).index = some idx → first = second

structure Sound (answer : Data → Choice → Data) (idx : Index) (system : System Caller Data) :
    Prop where
  alone : Alone idx system
  frame : ∀ caller data, system.holding caller = .filled idx data → system.port.txbuf idx = data
  incoming : ∀ caller, (system.holding caller).index = some idx →
    Incoming idx ((system.holding caller).Expects answer) system.toLink

/-- The index is not given to a caller while another one has it, or while an answer with it is on
its way. -/
def Fresh (idx : Index) (system : System Caller Data) (event : Event Caller Data Choice) : Prop :=
  match event with
  | .getindex _ => system.port.newIndex = idx →
      (∀ caller, (system.holding caller).index ≠ some idx) ∧
        ∀ frame ∈ system.wire, frame.ethercat = true → frame.index ≠ idx
  | _ => True

variable {system after : System Caller Data}

theorem Sound.onLink (sound : Sound answer idx system) (link : Link Data)
    (txbuf : link.port.txbuf = system.port.txbuf)
    (incoming : ∀ caller, (system.holding caller).index = some idx →
      Incoming idx ((system.holding caller).Expects answer) link) :
    Sound answer idx { system with toLink := link } :=
  ⟨sound.alone, fun caller data filled => (congrFun txbuf idx).trans
    (sound.frame caller data filled), incoming⟩

theorem Sound.sent (sound : Sound answer idx system) {caller : Caller} {held : Index}
    {data : Data} (filled : system.holding caller = .filled held data) (choice : Choice) :
    Sound answer idx { system with wire := system.wire ++
      [{ ethercat := true, index := held, data := answer (system.port.txbuf held) choice }] } := by
  refine sound.onLink _ rfl fun other has => (sound.incoming other has).snoc fun _ index => ?_
  obtain rfl : held = idx := Fin.ext index
  obtain rfl := sound.alone other caller has (by rw [filled]; rfl)
  rw [filled, ← sound.frame other data filled]
  exact ⟨choice, rfl⟩

theorem Sound.setbufstat (sound : Sound answer idx system) (other : Index) {bufstat : BufState}
    (read : bufstat ≠ .rcvd) : Sound answer idx (system.setbufstat other bufstat) :=
  sound.onLink _ rfl fun caller has => (sound.incoming caller has).setbufstat _ _ read

/-- No caller has an index, no buffer is in use, and nothing is on its way. -/
structure Idle (system : System Caller Data) : Prop where
  wire : system.wire = []
  empty : ∀ idx, system.port.rxbufstat idx = .empty
  holding : ∀ caller, system.holding caller = .nothing

theorem Idle.index (idle : Idle system) (caller : Caller) :
    (system.holding caller).index ≠ some idx := by
  rw [idle.holding]
  exact nofun

theorem Idle.sound (idle : Idle system) : Sound answer idx system := by
  refine ⟨fun first _ has => absurd has (idle.index first), fun caller data filled => ?_,
    fun caller has => absurd has (idle.index caller)⟩
  rw [idle.holding] at filled
  cases filled

variable [DecidableEq Caller]

theorem holding_hold (caller other : Caller) (held : Holding Data) :
    (system.hold caller held).holding other =
      if other = caller then held else system.holding other :=
  Function.update_apply system.holding caller held other

theorem Alone.hold {caller : Caller} {held : Holding Data} (alone : Alone idx system)
    (taken : held.index = some idx → ∀ other ≠ caller, (system.holding other).index ≠ some idx) :
    Alone idx (system.hold caller held) := by
  intro first second has hasToo
  rw [holding_hold] at has hasToo
  split at has <;> split at hasToo <;> rename_i one two
  · exact one.trans two.symm
  · exact absurd hasToo (taken has second two)
  · exact absurd has (taken hasToo first one)
  · exact alone first second has hasToo

theorem Sound.hold (sound : Sound answer idx system) (link : Link Data) (caller : Caller)
    (held : Holding Data)
    (alone : held.index = some idx → ∀ other ≠ caller, (system.holding other).index ≠ some idx)
    (frame : ∀ data, held = .filled idx data → link.port.txbuf idx = data)
    (incoming : held.index = some idx → Incoming idx (held.Expects answer) link)
    (others : ∀ other ≠ caller, (system.holding other).index = some idx →
      link.port.txbuf idx = system.port.txbuf idx ∧
        Incoming idx ((system.holding other).Expects answer) link) :
    Sound answer idx (System.hold { system with toLink := link } caller held) := by
  have withLink : Alone idx { system with toLink := link } := sound.alone
  refine ⟨withLink.hold alone, fun other data filled => ?_, fun other has => ?_⟩
  · rw [holding_hold] at filled
    split at filled
    · exact frame data filled
    · rename_i differ
      have has : (system.holding other).index = some idx := by rw [filled]; rfl
      exact (others other differ has).1.trans (sound.frame other data filled)
  · rw [holding_hold] at has ⊢
    split at has <;> rename_i same
    · rw [if_pos same]
      exact incoming has
    · rw [if_neg same]
      exact (others other same has).2

/-! ## One event -/

/-- What an event makes of the system, and what it takes to happen. -/
inductive Move (answer : Data → Choice → Data) (system : System Caller Data) :
    Event Caller Data Choice → System Caller Data → Prop where
  | getindex {caller : Caller} : Move answer system (.getindex caller)
      (System.hold { system with port := system.port.getindex } caller
        (.given system.port.newIndex))
  | setup {caller : Caller} {data : Data} {given : Index}
      (held : system.holding caller = .given given) :
      Move answer system (.setup caller data)
        (System.hold { system with port := system.port.setup given data } caller
          (.filled given data))
  | outframe {caller : Caller} {held : Index} : Move answer system (.outframe caller)
      (system.setbufstat held .tx)
  | lost {caller : Caller} : Move answer system (.sent caller none) system
  | sent {caller : Caller} {choice : Choice} {held : Index} {data : Data}
      (filled : system.holding caller = .filled held data) :
      Move answer system (.sent caller (some choice))
        { system with wire := system.wire ++
            [{ ethercat := true, index := held, data := answer (system.port.txbuf held) choice }] }
  | sendFailed {caller : Caller} {held : Index} : Move answer system (.sendFailed caller)
      (system.setbufstat held .empty)
  | inframe {caller : Caller} {taken : Option Nat} {reader : Index}
      {received : Option (Frame Data) × List (Frame Data)}
      (ran : recv system.toLink reader taken = some received) :
      Move answer system (.inframe caller taken)
        { system with port := (system.port.inframe reader received.1).2, wire := received.2 }
  | release {caller : Caller} {held : Index} {data : Data}
      (filled : system.holding caller = .filled held data) :
      Move answer system (.release caller) ((system.setbufstat held .empty).hold caller .nothing)
  | lose {position : Nat} : Move answer system (.lose position)
      { system with wire := system.wire.eraseIdx position }
  | foreign {index : Nat} {data : Data} : Move answer system (.foreign index data)
      { system with wire := system.wire ++ [{ ethercat := false, index, data }] }

theorem move_of_next {event : Event Caller Data Choice}
    (step : next answer system event = some after) : Move answer system event after := by
  cases event with
  | getindex caller =>
      rw [next] at step
      split at step <;> cases step
      exact .getindex
  | setup caller data =>
      rw [next] at step
      split at step <;> cases step
      rename_i given held
      exact .setup held
  | outframe caller =>
      rw [next] at step
      split at step <;> cases step
      exact .outframe
  | sent caller answered =>
      rw [next] at step
      split at step <;> cases step
      rename_i held data filled
      cases answered with
      | none =>
          rw [Option.map_none, Option.toList_none, List.append_nil]
          exact .lost
      | some choice => exact .sent filled
  | sendFailed caller =>
      rw [next] at step
      split at step <;> cases step
      exact .sendFailed
  | inframe caller taken =>
      rw [next] at step
      split at step
      · obtain ⟨received, ran, rfl⟩ := Option.map_eq_some_iff.mp step
        exact .inframe ran
      · cases step
  | release caller =>
      rw [next] at step
      split at step <;> cases step
      rename_i held data filled
      exact .release filled
  | lose position =>
      cases step
      exact .lose
  | foreign index data =>
      cases step
      exact .foreign

/-! ## What an event keeps -/

theorem Sound.getindex (sound : Sound answer idx system) (caller : Caller)
    (fresh : system.port.newIndex = idx →
      (∀ caller, (system.holding caller).index ≠ some idx) ∧
        ∀ frame ∈ system.wire, frame.ethercat = true → frame.index ≠ idx) :
    Sound answer idx (System.hold { system with port := system.port.getindex } caller
      (.given system.port.newIndex)) := by
  refine sound.hold { system.toLink with port := system.port.getindex } caller _ ?_ ?_ ?_ ?_
  · intro given other _
    exact (fresh (Option.some.inj given)).1 other
  · exact fun data impossible => nomatch impossible
  · intro given
    have same : system.port.newIndex = idx := Option.some.inj given
    refine ⟨fun frame member ethercat index => ?_, fun there => ?_⟩
    · exact (fresh same).2 frame member ethercat index
    · simp [Port.getindex, Port.setbufstat, same] at there
  · intro other _ has
    have set := (sound.incoming other has).setbufstat system.port.newIndex .alloc (by simp)
    exact ⟨rfl, set.wire, set.buffer⟩

theorem Sound.setup (sound : Sound answer idx system) {caller : Caller} {given : Index}
    (held : system.holding caller = .given given) (data : Data) :
    Sound answer idx (System.hold { system with port := system.port.setup given data } caller
      (.filled given data)) := by
  have has : (system.holding caller).index = some given := by rw [held]; rfl
  refine sound.hold { system.toLink with port := system.port.setup given data } caller _
    ?_ ?_ ?_ ?_
  · intro same other differ hasToo
    rw [Option.some.inj same] at has
    exact differ (sound.alone other caller hasToo has)
  · intro content filled
    cases filled
    simp [Port.setup]
  · -- nothing may have come in for a caller that had not filled its buffer
    intro same
    cases Option.some.inj same
    have incoming := sound.incoming caller has
    rw [held] at incoming
    exact ⟨fun frame member ethercat index =>
      (incoming.wire frame member ethercat index).elim,
      fun there => (incoming.buffer there).elim⟩
  · intro other differ hasToo
    have apart : idx ≠ given := by
      intro same
      subst same
      exact differ (sound.alone other caller hasToo has)
    refine ⟨?_, (sound.incoming other hasToo).setup given data⟩
    simp only [Port.setup, Function.update_of_ne apart]

theorem sound_next {event : Event Caller Data Choice} (sound : Sound answer idx system)
    (fresh : Fresh idx system event) (step : next answer system event = some after) :
    Sound answer idx after := by
  cases move_of_next step with
  | getindex => exact sound.getindex _ fresh
  | setup held => exact sound.setup held _
  | outframe => exact sound.setbufstat _ (by simp)
  | lost => exact sound
  | sent filled => exact sound.sent filled _
  | sendFailed => exact sound.setbufstat _ (by simp)
  | @inframe caller taken reader received ran =>
      obtain ⟨onWire, fewer⟩ := recv_wire ran
      apply sound.onLink _ (inframe_txbuf system.port reader received.1)
      intro other has
      exact ((sound.incoming other has).inframe reader onWire).fewer fewer
  | @release caller held data filled =>
      have freed : Sound answer idx (system.setbufstat held .empty) :=
        sound.setbufstat held (by simp)
      apply freed.hold (system.setbufstat held .empty).toLink caller .nothing
      · exact fun has => nomatch has
      · exact fun _ has => nomatch has
      · exact fun has => nomatch has
      · exact fun other _ has => ⟨rfl, freed.incoming other has⟩
  | lose =>
      exact sound.onLink _ rfl fun other has =>
        (sound.incoming other has).fewer List.eraseIdx_subset
  | foreign =>
      exact sound.onLink _ rfl fun other has =>
        (sound.incoming other has).snoc fun ethercat => nomatch ethercat

/-! ## Runs -/

/-- Whatever is lost, reordered or read by others, and whatever of its own sends fail, what
`ecx_inframe` returns to a caller answers the frame that this caller has filled in. -/
theorem own_answer {start final : System Caller Data} (idle : Idle start)
    {events : List (Event Caller Data Choice)}
    (fresh : EachStep (next answer) (Fresh idx) events start)
    (ran : run (next answer) events start = some final) (caller : Caller) {data : Data}
    (filled : final.holding caller = .filled idx data) {received : Option (Frame Data)}
    (onWire : ∀ frame ∈ received, frame ∈ final.wire) {content : Data}
    (returned : (final.port.inframe idx received).1 = .frame content) :
    ∃ choice, content = answer data choice := by
  have sound : Sound answer idx final :=
    run_allowed_invariant (fun _ _ _ before allowed step => sound_next before allowed step)
      events start final idle.sound fresh ran
  have incoming := sound.incoming caller (by rw [filled]; rfl)
  rw [filled] at incoming
  exact incoming.returned onWire returned

/-! ### Two callers, and the first one reads the answer of the second -/

def secondIndex : Index := ⟨2, by decide⟩

def idleSystem : System Bool Nat where
  port := ⟨fun _ => 0, fun _ => 0, fun _ => .empty, zeroIndex⟩
  wire := []
  holding _ := .nothing

/-- The second caller's first send fails, and it goes on. -/
def sendingTwice : List (Event Bool Nat Nat) :=
  [.getindex false, .setup false 1000, .getindex true, .setup true 2000, .outframe false,
    .sent false (some 10), .outframe true, .sendFailed true, .inframe true none, .outframe true,
    .sent true (some 20), .inframe false (some 1)]

theorem own_answer_otherReader : ∃ final,
    run (next (· + ·)) sendingTwice idleSystem = some final ∧
      (final.port.inframe secondIndex none).1 = .frame 2020 ∧ ∃ choice, 2020 = 2000 + choice := by
  have idle : Idle idleSystem := ⟨rfl, fun _ => rfl, fun _ => rfl⟩
  have nothing : ∀ system : System Bool Nat, ∀ frame ∈ (none : Option (Frame Nat)),
      frame ∈ system.wire := by
    intro system frame absent
    cases absent
  have fresh : EachStep (next (· + ·)) (Fresh secondIndex) sendingTwice idleSystem := by
    refine ⟨fun given => absurd given (by decide), fun first step => ?_⟩
    cases step
    refine ⟨trivial, fun second step => ?_⟩
    cases step
    refine ⟨fun _ => ⟨fun caller => ?_, fun _ absent => nomatch absent⟩, fun third _ => ?_⟩
    · cases caller <;> decide
    · exact ⟨trivial, fun _ _ => ⟨trivial, fun _ _ => ⟨trivial, fun _ _ => ⟨trivial, fun _ _ =>
        ⟨trivial, fun _ _ => ⟨trivial, fun _ _ => ⟨trivial, fun _ _ => ⟨trivial, fun _ _ =>
          ⟨trivial, fun _ _ => trivial⟩⟩⟩⟩⟩⟩⟩⟩⟩
  exact ⟨_, rfl, rfl, own_answer idle fresh rfl true rfl (nothing _) rfl⟩

/-! ## What the condition excludes -/

/-- No send fails, and a buffer is free when one is asked for. -/
def Unfailing (system : System Caller Data) (event : Event Caller Data Choice) : Prop :=
  match event with
  | .getindex _ => ∃ idx, system.port.rxbufstat idx = .empty
  | .sendFailed _ => False
  | _ => True

/-- Each index has one caller, and its buffer is in use. -/
structure Exclusive (system : System Caller Data) : Prop where
  alone : ∀ idx, Alone idx system
  used : ∀ idx caller, (system.holding caller).index = some idx →
    system.port.rxbufstat idx ≠ .empty

omit [DecidableEq Caller] in
theorem Exclusive.onLink (exclusive : Exclusive system) (link : Link Data)
    (used : ∀ idx, system.port.rxbufstat idx ≠ .empty → link.port.rxbufstat idx ≠ .empty) :
    Exclusive { system with toLink := link } :=
  ⟨exclusive.alone, fun idx caller has => used idx (exclusive.used idx caller has)⟩

theorem setbufstat_used {port : Port Data} (other : Index) {bufstat : BufState}
    (inUse : bufstat ≠ .empty) (used : port.rxbufstat idx ≠ .empty) :
    (port.setbufstat other bufstat).rxbufstat idx ≠ .empty := by
  by_cases same : idx = other
  · subst same
    simpa [Port.setbufstat] using inUse
  · simpa [Port.setbufstat, Function.update_of_ne same] using used

theorem inframe_used {port : Port Data} (reader : Index) (received : Option (Frame Data))
    (used : port.rxbufstat idx ≠ .empty) :
    (port.inframe reader received).2.rxbufstat idx ≠ .empty := by
  unfold Port.inframe
  split
  · exact setbufstat_used reader (by simp) used
  · split
    · exact used
    · split
      · split
        · exact setbufstat_used reader (by simp) used
        · split
          · split
            · exact setbufstat_used _ (by simp) used
            · exact used
          · exact used
      · exact used

theorem Exclusive.hold (exclusive : Exclusive system) (link : Link Data) (caller : Caller)
    (held : Holding Data)
    (taken : ∀ idx, held.index = some idx → link.port.rxbufstat idx ≠ .empty ∧
      ∀ other ≠ caller, (system.holding other).index ≠ some idx)
    (others : ∀ other ≠ caller, ∀ idx, (system.holding other).index = some idx →
      link.port.rxbufstat idx ≠ .empty) :
    Exclusive (System.hold { system with toLink := link } caller held) := by
  refine ⟨fun idx => ?_, fun idx other has => ?_⟩
  · have withLink : Alone idx { system with toLink := link } := exclusive.alone idx
    exact withLink.hold fun has => (taken idx has).2
  · rw [holding_hold] at has
    split at has <;> rename_i same
    · exact (taken idx has).1
    · exact others other same idx has

theorem Exclusive.getindex (exclusive : Exclusive system) (caller : Caller)
    (free : ∃ idx, system.port.rxbufstat idx = .empty) :
    Exclusive (System.hold { system with port := system.port.getindex } caller
      (.given system.port.newIndex)) := by
  have empty := newIndex_empty system.port free
  apply exclusive.hold { system.toLink with port := system.port.getindex } caller
  · intro idx given
    cases Option.some.inj given
    refine ⟨by simp [Port.getindex, Port.setbufstat], fun other _ has => ?_⟩
    exact exclusive.used _ other has empty
  · intro other _ idx has
    exact setbufstat_used _ (by simp) (exclusive.used idx other has)

theorem Exclusive.setup (exclusive : Exclusive system) {caller : Caller} {given : Index}
    (held : system.holding caller = .given given) (data : Data) :
    Exclusive (System.hold { system with port := system.port.setup given data } caller
      (.filled given data)) := by
  have has : (system.holding caller).index = some given := by rw [held]; rfl
  apply exclusive.hold { system.toLink with port := system.port.setup given data } caller
  · intro idx same
    cases Option.some.inj same
    refine ⟨exclusive.used given caller has, fun other differ hasToo => ?_⟩
    exact differ (exclusive.alone given other caller hasToo has)
  · exact fun other _ idx => exclusive.used idx other

theorem Exclusive.release (exclusive : Exclusive system) {caller : Caller} {held : Index}
    {data : Data} (filled : system.holding caller = .filled held data) :
    Exclusive ((system.setbufstat held .empty).hold caller .nothing) := by
  have has : (system.holding caller).index = some held := by rw [filled]; rfl
  apply exclusive.hold { system.toLink with port := system.port.setbufstat held .empty } caller
  · exact fun _ given => nomatch given
  · intro other differ idx hasToo
    have apart : idx ≠ held := by
      intro same
      subst same
      exact differ (exclusive.alone idx other caller hasToo has)
    simp only [Port.setbufstat, Function.update_of_ne apart]
    exact exclusive.used idx other hasToo

theorem exclusive_next {event : Event Caller Data Choice} (exclusive : Exclusive system)
    (unfailing : Unfailing system event) (step : next answer system event = some after) :
    Exclusive after := by
  cases move_of_next step with
  | getindex => exact exclusive.getindex _ unfailing
  | setup held => exact exclusive.setup held _
  | outframe => exact exclusive.onLink _ fun idx used => setbufstat_used _ (by simp) used
  | lost => exact exclusive
  | sent filled => exact exclusive.onLink _ fun idx used => used
  | sendFailed => exact unfailing.elim
  | inframe ran => exact exclusive.onLink _ fun idx used => inframe_used _ _ used
  | release filled => exact exclusive.release filled
  | lose => exact exclusive.onLink _ fun idx used => used
  | foreign => exact exclusive.onLink _ fun idx used => used

/-- As long as no send fails and a buffer is free, an index is given to one caller at a time. -/
theorem newIndex_unheld {start final : System Caller Data} (idle : Idle start)
    {events : List (Event Caller Data Choice)}
    (unfailing : EachStep (next answer) Unfailing events start)
    (ran : run (next answer) events start = some final)
    (free : ∃ idx, final.port.rxbufstat idx = .empty) (caller : Caller) :
    (final.holding caller).index ≠ some final.port.newIndex := by
  have initial : Exclusive start :=
    ⟨fun idx first _ has => absurd has (idle.index first),
      fun idx caller has => absurd has (idle.index caller)⟩
  have exclusive : Exclusive final :=
    run_allowed_invariant (fun _ _ _ before allowed step => exclusive_next before allowed step)
      events start final initial unfailing ran
  exact fun has => exclusive.used _ caller has (newIndex_empty final.port free)

/-- An old answer with the index that is given next is taken for the answer to the new frame. -/
theorem stale_answer {frame : Frame Data} (member : frame ∈ system.wire)
    (ethercat : frame.ethercat = true) (index : frame.index = system.port.newIndex)
    {caller : Caller} (data : Data) (answered : Option Choice)
    (sending : run (next answer) [.getindex caller, .setup caller data, .outframe caller,
      .sent caller answered] system = some after) :
    frame ∈ after.wire ∧ after.holding caller = .filled system.port.newIndex data ∧
      (after.port.inframe system.port.newIndex (some frame)).1 = .frame frame.data := by
  obtain ⟨given, step, rest⟩ := (run_cons_eq_some ..).mp sending
  rw [next] at step
  split at step
  · cases step
    simp only [run_cons, run_nil, next, System.hold, System.setbufstat, Function.update_self,
      Option.bind_some, Function.update_idem, Option.some.injEq] at rest
    subst rest
    refine ⟨List.mem_append_left _ member, by simp, ?_⟩
    simp [Port.inframe, Port.setbufstat, ethercat, index]
  · cases step

end WebserverEthercat.Driver

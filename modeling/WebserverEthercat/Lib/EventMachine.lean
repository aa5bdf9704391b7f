import Mathlib.Data.List.Induction

/-!
# Runs of a partial event machine

A machine is a partial function `next : State → Event → Option State`: the
event carries everything the environment decides, and `none` says that the
event is not enabled.  `run` executes a list of events, `record` collects what
the events of a run put out, and `EachStep` says that every event of a run is
taken in a state that allows it.  The induction rules below are the only way
in which facts about one event are lifted to a whole run.
-/

set_option autoImplicit false

namespace EventMachine

variable {State Event : Type}

def run (next : State → Event → Option State) : List Event → State → Option State
  | [], state => some state
  | event :: rest, state => (next state event).bind (run next rest)

@[simp] theorem run_nil (next : State → Event → Option State) (state : State) :
    run next [] state = some state := rfl

@[simp] theorem run_cons (next : State → Event → Option State)
    (event : Event) (rest : List Event) (state : State) :
    run next (event :: rest) state = (next state event).bind (run next rest) := rfl

theorem run_append (next : State → Event → Option State) :
    ∀ (first second : List Event) (state : State),
      run next (first ++ second) state =
        (run next first state).bind (run next second) := by
  intro first
  induction first with
  | nil => intro second state; rfl
  | cons event rest ih =>
      intro second state
      rw [List.cons_append, run_cons, run_cons, Option.bind_assoc]
      congr 1
      funext middle
      exact ih second middle

theorem run_append_eq_some (next : State → Event → Option State)
    (first second : List Event) (state final : State) :
    run next (first ++ second) state = some final ↔
      ∃ middle, run next first state = some middle ∧
        run next second middle = some final := by
  rw [run_append, Option.bind_eq_some_iff]

theorem run_cons_eq_some (next : State → Event → Option State)
    (event : Event) (rest : List Event) (state final : State) :
    run next (event :: rest) state = some final ↔
      ∃ middle, next state event = some middle ∧
        run next rest middle = some final := by
  rw [run_cons, Option.bind_eq_some_iff]

theorem run_snoc_eq_some (next : State → Event → Option State)
    (first : List Event) (event : Event) (state final : State) :
    run next (first ++ [event]) state = some final ↔
      ∃ middle, run next first state = some middle ∧
        next middle event = some final := by
  rw [run_append_eq_some]
  constructor
  · rintro ⟨middle, firstRun, lastRun⟩
    obtain ⟨after, step, rest⟩ := (run_cons_eq_some ..).mp lastRun
    cases Option.some.inj rest
    exact ⟨middle, firstRun, step⟩
  · rintro ⟨middle, firstRun, step⟩
    exact ⟨middle, firstRun, (run_cons_eq_some ..).mpr ⟨final, step, rfl⟩⟩

/-- What every event preserves holds after every run. -/
theorem run_invariant {next : State → Event → Option State} {Holds : State → Prop}
    (preserved : ∀ state event after, Holds state →
      next state event = some after → Holds after) :
    ∀ (events : List Event) (state final : State), Holds state →
      run next events state = some final → Holds final := by
  intro events
  induction events with
  | nil =>
      intro state final holds success
      cases Option.some.inj success
      exact holds
  | cons event rest ih =>
      intro state final holds success
      obtain ⟨middle, step, restRun⟩ := (run_cons_eq_some ..).mp success
      exact ih middle final (preserved state event middle holds step) restRun

/-- The rule for properties that also speak of the events already taken. -/
theorem run_history_invariant {next : State → Event → Option State} {start : State}
    {Holds : List Event → State → Prop} (initial : Holds [] start)
    (preserved : ∀ events state event after, run next events start = some state →
      Holds events state → next state event = some after →
        Holds (events ++ [event]) after) :
    ∀ (events : List Event) (final : State),
      run next events start = some final → Holds events final := by
  intro events
  induction events using List.reverseRecOn with
  | nil =>
      intro final success
      cases Option.some.inj success
      exact initial
  | append_singleton events event ih =>
      intro final success
      obtain ⟨middle, firstRun, step⟩ := (run_snoc_eq_some ..).mp success
      exact preserved events middle event final firstRun (ih middle firstRun) step

/-! ## What a run puts out -/

variable {Output : Type}

def record (next : State → Event → Option State) (output : State → Event → List Output) :
    List Event → State → List Output
  | [], _ => []
  | event :: rest, state =>
      output state event ++ (next state event).elim [] (record next output rest)

theorem record_append (next : State → Event → Option State)
    (output : State → Event → List Output) (second : List Event) :
    ∀ (first : List Event) (state middle : State), run next first state = some middle →
      record next output (first ++ second) state =
        record next output first state ++ record next output second middle := by
  intro first
  induction first with
  | nil =>
      intro state middle success
      cases Option.some.inj success
      rfl
  | cons event rest ih =>
      intro state middle success
      obtain ⟨after, step, restRun⟩ := (run_cons_eq_some ..).mp success
      simp only [List.cons_append, record, step, Option.elim_some]
      rw [ih after middle restRun, List.append_assoc]

theorem record_snoc (next : State → Event → Option State)
    (output : State → Event → List Output) (first : List Event) (event : Event)
    (state middle : State) (success : run next first state = some middle) :
    record next output (first ++ [event]) state =
      record next output first state ++ output middle event := by
  rw [record_append next output [event] first state middle success]
  cases step : next middle event <;> simp [record, step]

/-! ## Every event of a run is taken in a good state -/

def EachStep (next : State → Event → Option State) (Good : State → Event → Prop) :
    List Event → State → Prop
  | [], _ => True
  | event :: rest, state =>
      Good state event ∧ ∀ after, next state event = some after →
        EachStep next Good rest after

theorem eachStep_iff_split (next : State → Event → Option State)
    (Good : State → Event → Prop) :
    ∀ (events : List Event) (start : State),
      EachStep next Good events start ↔
        ∀ before event after state, events = before ++ event :: after →
          run next before start = some state → Good state event := by
  intro events
  induction events with
  | nil =>
      intro start
      simp [EachStep]
  | cons head rest ih =>
      intro start
      constructor
      · rintro ⟨good, later⟩ before event after state split success
        cases before with
        | nil =>
            cases Option.some.inj success
            cases (List.cons.inj split).1
            exact good
        | cons first before =>
            obtain ⟨rfl, tail⟩ := List.cons.inj split
            obtain ⟨middle, step, restRun⟩ := (run_cons_eq_some ..).mp success
            exact (ih middle).mp (later middle step) before event after state tail restRun
      · intro all
        refine ⟨all [] head rest start rfl rfl, ?_⟩
        intro middle step
        apply (ih middle).mpr
        intro before event after state split success
        apply all (head :: before) event after state (by rw [split]; rfl)
        exact (run_cons_eq_some ..).mpr ⟨middle, step, success⟩

/-- Two step conditions that agree in the states reached so far agree on whole
runs; the invariant only has to survive events that meet the second one. -/
theorem eachStep_congr {next : State → Event → Option State} {Holds : State → Prop}
    {Good Allowed : State → Event → Prop}
    (agree : ∀ state event, Holds state → (Good state event ↔ Allowed state event))
    (preserved : ∀ state event after, Holds state → Allowed state event →
      next state event = some after → Holds after) :
    ∀ (events : List Event) (state : State), Holds state →
      (EachStep next Good events state ↔ EachStep next Allowed events state) := by
  intro events
  induction events with
  | nil => intro state _; exact Iff.rfl
  | cons event rest ih =>
      intro state holds
      have here := agree state event holds
      constructor
      · rintro ⟨good, later⟩
        have allowed := here.mp good
        exact ⟨allowed, fun after step =>
          (ih after (preserved state event after holds allowed step)).mp (later after step)⟩
      · rintro ⟨allowed, later⟩
        exact ⟨here.mpr allowed, fun after step =>
          (ih after (preserved state event after holds allowed step)).mpr (later after step)⟩

/-- What every allowed event preserves holds after every run of allowed events. -/
theorem run_allowed_invariant {next : State → Event → Option State} {Holds : State → Prop}
    {Allowed : State → Event → Prop}
    (preserved : ∀ state event after, Holds state → Allowed state event →
      next state event = some after → Holds after) :
    ∀ (events : List Event) (state final : State), Holds state →
      EachStep next Allowed events state → run next events state = some final → Holds final := by
  intro events
  induction events with
  | nil =>
      intro state final holds _ success
      cases Option.some.inj success
      exact holds
  | cons event rest ih =>
      intro state final holds allowed success
      obtain ⟨here, later⟩ := allowed
      obtain ⟨middle, step, restRun⟩ := (run_cons_eq_some ..).mp success
      exact ih middle final (preserved state event middle holds here step) (later middle step)
        restRun

end EventMachine

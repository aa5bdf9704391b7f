import WebserverEthercat.Loop.Cycle
import WebserverEthercat.Monitor.Pass

/-!
# The guard of the slave monitor

`ethercat_loop` and `ecatcheck` run side by side.  The guard of `ecatcheck`
compares `wkc` and `expectedWKC`, which are locals of its own that nothing
assigns: they may have any values.  The loop sleeps between a receive and the
end of its round, and the guard may be evaluated there.
-/

set_option autoImplicit false

namespace WebserverEthercat.Monitor

open EventMachine

/-- The work counter that an event of the loop receives. -/
def receivedWkc (state : LoopState) : LoopEvent → Option Int
  | .start answer | .waitOp answer _ | .recover answer _ => some (state.image.exchange answer).1
  | .cycle answer =>
      if LoopState.sendsAt (state.ethercatLoopCounter + 1) then
        some (state.image.exchange answer).1
      else some (state.image.ecReceiveProcessdata answer).1
  | .enter _ | .body _ _ => none

structure Threads where
  loop : LoopState
  /-- what the round that is under way will leave, from its receive on -/
  pending : Option LoopState
  watch : Watch
  /-- `ecatcheck` is in its recovery branch -/
  recovering : Bool
  /-- the last work counter that `ethercat_loop` received -/
  received : Int

inductive ThreadEvent where
  /-- a round of the loop up to its receive -/
  | receive (event : LoopEvent)
  /-- the rest of the round: the sleeps, the state writes and what is assigned behind them -/
  | finish
  /-- the guard, with the values of the monitor's `wkc` and `expectedWKC` -/
  | evaluate (wkc expectedWKC : Int32)
  /-- the recovery branch -/
  | pass (answers : Nat → SlaveAnswers)

namespace Threads

def initial (image : ProcessImage) (outputsWKC inputsWKC : UInt16) (watch : Watch) : Threads :=
  { loop := .initial image outputsWKC inputsWKC
    pending := none
    watch
    recovering := false
    received := 0 }

/-- `inOP && ((wkc < expectedWKC) || ec_group[currentgroup].docheckstate)` -/
def guard (threads : Threads) (wkc expectedWKC : Int32) : Bool :=
  threads.loop.inOP && (decide (wkc < expectedWKC) || threads.watch.docheckstate)

def next (threads : Threads) : ThreadEvent → Option Threads
  | .receive event =>
      match threads.pending with
      | some _ => none
      | none => (threads.loop.next event).map fun loop =>
          { threads with
            pending := some loop
            received := (receivedWkc threads.loop event).getD threads.received }
  | .finish => threads.pending.map fun loop => { threads with loop, pending := none }
  | .evaluate wkc expectedWKC =>
      if threads.recovering then none
      else some { threads with recovering := threads.guard wkc expectedWKC }
  | .pass answers =>
      if threads.recovering then
        some { threads with watch := (threads.watch.pass answers).watch, recovering := false }
      else none

/-- What the guard is there for: the work counter of the loop is short or a check is due. -/
def CheckDue (threads : Threads) : Prop :=
  threads.received < threads.loop.expectedWKC ∨ threads.watch.docheckstate = true

/-- The guard decides as it should, whatever the values of the monitor's locals. -/
def DecidesRight (threads : Threads) : Prop :=
  ∀ wkc expectedWKC, threads.guard wkc expectedWKC = true ↔ threads.CheckDue

/-- Every evaluation of the guard with `inOP` TRUE is made in such a state. -/
def AtEvaluations (good : Threads → Prop) (events : List ThreadEvent) (start : Threads) : Prop :=
  ∀ before wkc expectedWKC after threads, events = before ++ .evaluate wkc expectedWKC :: after →
    run next before start = some threads → threads.loop.inOP = true → good threads

theorem AtEvaluations.congr {first second : Threads → Prop}
    (same : ∀ threads : Threads, threads.loop.inOP = true → (first threads ↔ second threads))
    (events : List ThreadEvent) (start : Threads) :
    AtEvaluations first events start ↔ AtEvaluations second events start := by
  constructor
  · intro all before wkc expectedWKC after threads split reached inOP
    exact (same threads inOP).mp (all before wkc expectedWKC after threads split reached inOP)
  · intro all before wkc expectedWKC after threads split reached inOP
    exact (same threads inOP).mpr (all before wkc expectedWKC after threads split reached inOP)

/-- The locals can make the comparison come out either way. -/
theorem decidesRight_iff {threads : Threads} (inOP : threads.loop.inOP = true) :
    threads.DecidesRight ↔ threads.watch.docheckstate = true := by
  constructor
  · intro right
    have low : threads.guard 0 1 = true := by simp [guard, inOP]
    have due := (right 0 0).mpr ((right 0 1).mp low)
    simpa [guard, inOP] using due
  · intro due wkc expectedWKC
    simp [guard, CheckDue, inOP, due]

/-! ## Who sets `docheckstate` -/

/-- Nothing is due and the recovery branch was not entered. -/
structure Unwatched (threads : Threads) : Prop where
  docheckstate : threads.watch.docheckstate = false
  recovering : threads.recovering = false

/-- Only the recovery branch sets the flag, and it takes an evaluation to enter it. -/
theorem unwatched_next {threads after : Threads} {event : ThreadEvent}
    (unwatched : threads.Unwatched)
    (notYet : ∀ wkc expectedWKC, event = .evaluate wkc expectedWKC → threads.loop.inOP = false)
    (step : threads.next event = some after) : after.Unwatched := by
  cases event with
  | receive event =>
      simp only [next] at step
      split at step
      · cases step
      · obtain ⟨loop, -, rfl⟩ := Option.map_eq_some_iff.mp step
        exact ⟨unwatched.docheckstate, unwatched.recovering⟩
  | finish =>
      obtain ⟨loop, -, rfl⟩ := Option.map_eq_some_iff.mp step
      exact ⟨unwatched.docheckstate, unwatched.recovering⟩
  | evaluate wkc expectedWKC =>
      have outside := notYet wkc expectedWKC rfl
      simp only [next, unwatched.recovering, Bool.false_eq_true, if_false,
        Option.some.injEq] at step
      subst step
      exact ⟨unwatched.docheckstate, by simp [guard, outside]⟩
  | pass answers => simp [next, unwatched.recovering] at step

theorem unwatched_run {start : Threads} (unwatched : start.Unwatched) :
    ∀ (events : List ThreadEvent) (final : Threads), run next events start = some final →
      AtEvaluations (fun threads => threads.watch.docheckstate = true) events start →
      final.Unwatched := by
  refine run_history_invariant (fun _ => unwatched) ?_
  intro events state event after reached holds step due
  have earlier : AtEvaluations (fun threads => threads.watch.docheckstate = true) events start := by
    intro before wkc expectedWKC rest threads split
    exact due before wkc expectedWKC (rest ++ [event]) threads (by simp [split])
  have quiet := holds earlier
  refine unwatched_next quiet ?_ step
  rintro wkc expectedWKC rfl
  cases inOP : state.loop.inOP with
  | false => rfl
  | true =>
      have set : state.watch.docheckstate = true :=
        due events wkc expectedWKC [] state rfl reached inOP
      rw [quiet.docheckstate] at set
      cases set

/-- A run that starts with the flag FALSE never finds it set at its first evaluation. -/
theorem due_iff_none {start : Threads} (unwatched : start.Unwatched) (events : List ThreadEvent) :
    AtEvaluations (fun threads => threads.watch.docheckstate = true) events start ↔
      AtEvaluations (fun _ => False) events start := by
  constructor
  · intro due before wkc expectedWKC after threads split reached inOP
    have earlier : AtEvaluations (fun threads => threads.watch.docheckstate = true) before
        start := by
      intro first wkc' expectedWKC' rest state split'
      exact due first wkc' expectedWKC' (rest ++ .evaluate wkc expectedWKC :: after) state
        (by simp [split, split'])
    have quiet := unwatched_run unwatched before threads reached earlier
    have set : threads.watch.docheckstate = true :=
      due before wkc expectedWKC after threads split reached inOP
    rw [quiet.docheckstate] at set
    cases set
  · intro none before wkc expectedWKC after threads split reached inOP
    exact (none before wkc expectedWKC after threads split reached inOP).elim

/-- In every run the guard decides right at each evaluation, whatever the monitor's locals are,
exactly when `docheckstate` is set at each of them.  As the program starts with the flag FALSE,
that is so only when the guard is never evaluated with `inOP` TRUE. -/
theorem guard_watches_loop_iff (image : ProcessImage) (outputsWKC inputsWKC : UInt16)
    (watch : Watch) (events : List ThreadEvent) :
    let start := initial image outputsWKC inputsWKC watch
    (AtEvaluations DecidesRight events start ↔
      AtEvaluations (fun threads => threads.watch.docheckstate = true) events start) ∧
    (watch.docheckstate = false →
      (AtEvaluations DecidesRight events start ↔ AtEvaluations (fun _ => False) events start)) := by
  intro start
  have agree : AtEvaluations DecidesRight events start ↔
      AtEvaluations (fun threads => threads.watch.docheckstate = true) events start :=
    AtEvaluations.congr (fun _ => decidesRight_iff) events start
  refine ⟨agree, fun unset => agree.trans (due_iff_none ⟨unset, rfl⟩ events)⟩

/-- The first turn receives no frame; while the recovery round sleeps, the monitor with both locals
0 does not look. -/
theorem cut_cable_not_watched :
    let events : List ThreadEvent :=
      [.receive (.start (.returned 3 .zero)), .finish,
        .receive (.waitOp (.returned 3 .zero) 8), .finish, .receive (.enter 0), .finish,
        .receive (.cycle .lost), .finish, .receive (.recover .lost [0])]
    ∃ threads, run next events (initial .zero 1 1 ⟨false, []⟩) = some threads ∧
      threads.loop.inOP = true ∧ threads.received < threads.loop.expectedWKC ∧
      threads.guard 0 0 = false := by
  refine ⟨_, rfl, rfl, ?_, rfl⟩
  decide

end Threads

end WebserverEthercat.Monitor

import Mathlib.Logic.Function.Basic
import WebserverEthercat.Lib.EventMachine
import WebserverEthercat.Post.Handler

/-!
# Requests over one accumulator

libmicrohttpd calls the access handler for any number of connections in any
order: once without data, then with the pieces of the body, then without data
until a response is queued.  Every byte carries the request it was uploaded
for, so that a block tells whose data it holds.
-/

set_option autoImplicit false

namespace WebserverEthercat.Post

open EventMachine

variable {Request : Type}

/-- How far libmicrohttpd is with a request. -/
inductive Phase where
  | waiting
  | receiving
  | received
  | answered
  | closed
deriving DecidableEq, Repr

structure Connections (Request : Type) where
  accumulator : Accumulator (Request × UInt8)
  phase : Request → Phase
  /-- the pieces of the body that were uploaded so far -/
  body : Request → List UInt8

def Connections.initial : Connections Request := ⟨.initial, fun _ => .waiting, fun _ => []⟩

inductive ConnectionEvent (Request : Type) where
  | first (request : Request) (answers : Answers)
  | piece (request : Request) (data : List UInt8) (answers : Answers)
  | final (request : Request) (answers : Answers)
  | abort (request : Request)
deriving DecidableEq, Repr

def tagged (request : Request) (data : List UInt8) : List (Request × UInt8) :=
  data.map fun byte => (request, byte)

/-- The access handler call that an event makes. -/
def Connections.call (method : Request → String) (state : Connections Request) :
    ConnectionEvent Request → Option (HandlerResult (Request × UInt8) Request)
  | .first request answers | .final request answers =>
      answerToConnection request (method request) [] answers state.accumulator
  | .piece request data answers =>
      answerToConnection request (method request) (tagged request data) answers
        state.accumulator
  | .abort _ => none

/-- A call for a request that is no POST is invisible to the accumulator. -/
theorem call_other {method : Request → String} {state : Connections Request}
    {event : ConnectionEvent Request} {request : Request}
    (here : (∃ answers, event = .first request answers) ∨
      (∃ data answers, event = .piece request data answers) ∨
      ∃ answers, event = .final request answers)
    (other : method request ≠ "POST") {result : HandlerResult (Request × UInt8) Request}
    (called : state.call method event = some result) :
    result.accumulator = state.accumulator ∧ result.parsed = none := by
  rcases here with ⟨answers, rfl⟩ | ⟨data, answers, rfl⟩ | ⟨answers, rfl⟩
  all_goals
    simp only [Connections.call] at called
    obtain ⟨queued, ret, same⟩ := answerToConnection_other request other _ answers
      state.accumulator
    rw [same] at called
    cases Option.some.inj called
    exact ⟨rfl, rfl⟩

variable [DecidableEq Request]

/-- `MHD_NO` closes the connection, a queued response ends the request. -/
def Connections.settle (state : Connections Request) (request : Request) (onward : Phase)
    (result : HandlerResult (Request × UInt8) Request) : Connections Request :=
  { state with
    accumulator := result.accumulator
    phase := Function.update state.phase request
      (if result.ret = false then .closed
        else if result.queued.isSome then .answered else onward) }

def Connections.upload (state : Connections Request) (request : Request) (data : List UInt8) :
    Connections Request :=
  { state with body := Function.update state.body request (state.body request ++ data) }

def Connections.next (method : Request → String) (state : Connections Request)
    (event : ConnectionEvent Request) : Option (Connections Request) :=
  match event with
  | .first request _ =>
      if state.phase request = .waiting then
        (state.call method event).map (state.settle request .receiving)
      else none
  | .piece request data _ =>
      if state.phase request = .receiving ∧ data ≠ [] then
        (state.call method event).map ((state.upload request data).settle request .receiving)
      else none
  | .final request _ =>
      if state.phase request = .receiving ∨ state.phase request = .received then
        (state.call method event).map (state.settle request .received)
      else none
  | .abort request =>
      if state.phase request = .closed then none
      else some { state with phase := Function.update state.phase request .closed }

/-! ## The property and its condition -/

def own (request : Request) (body : List UInt8) : List (Option (Request × UInt8)) :=
  (tagged request body).map some

/-- What is parsed are the bytes of the request that the call is about, all of
them, and the response goes to this request. -/
def OwnUpload (method : Request → String) (state : Connections Request)
    (event : ConnectionEvent Request) : Prop :=
  ∀ result block, state.call method event = some result → result.parsed = some block →
    ∃ request answers, event = .final request answers ∧
      block = own request (state.body request) ∧
      result.queued =
        if answers.createResponseOk && answers.queueResponseOk then some request else none

/-- The POST that has uploaded a piece and has not got its final call. -/
def openUpload (method : Request → String) (current : Option Request) :
    ConnectionEvent Request → Option Request
  | .piece request _ answers =>
      if method request = "POST" ∧ answers.reallocOk then some request else current
  | .final request _ => if method request = "POST" then none else current
  | .first _ _ | .abort _ => current

/-- No call for a POST while another POST is being uploaded, and no failing
allocation while one is. -/
def Undisturbed (method : Request → String) (current : Option Request) :
    ConnectionEvent Request → Prop
  | .first request _ => method request = "POST" → current = none
  | .piece request _ answers => method request = "POST" →
      current = none ∨ current = some request ∧ answers.reallocOk
  | .final request _ => method request = "POST" → current = none ∨ current = some request
  | .abort _ => True

def Exclusive (method : Request → String) :
    Option Request → List (ConnectionEvent Request) → Prop
  | _, [] => True
  | current, event :: rest =>
      Undisturbed method current event ∧ Exclusive method (openUpload method current event) rest

/-! ## Steps -/

theorem next_first {method : Request → String} {state after : Connections Request}
    {request : Request} {answers : Answers}
    (step : state.next method (.first request answers) = some after) :
    state.phase request = .waiting ∧ ∃ result,
      state.call method (.first request answers) = some result ∧
        after = state.settle request .receiving result := by
  simp only [Connections.next] at step
  split at step
  case isTrue waiting =>
    obtain ⟨result, called, rfl⟩ := Option.map_eq_some_iff.mp step
    exact ⟨waiting, result, called, rfl⟩
  case isFalse => cases step

theorem next_piece {method : Request → String} {state after : Connections Request}
    {request : Request} {data : List UInt8} {answers : Answers}
    (step : state.next method (.piece request data answers) = some after) :
    state.phase request = .receiving ∧ data ≠ [] ∧ ∃ result,
      state.call method (.piece request data answers) = some result ∧
        after = (state.upload request data).settle request .receiving result := by
  simp only [Connections.next] at step
  split at step
  case isTrue allowed =>
    obtain ⟨result, called, rfl⟩ := Option.map_eq_some_iff.mp step
    exact ⟨allowed.1, allowed.2, result, called, rfl⟩
  case isFalse => cases step

theorem next_final {method : Request → String} {state after : Connections Request}
    {request : Request} {answers : Answers}
    (step : state.next method (.final request answers) = some after) :
    (state.phase request = .receiving ∨ state.phase request = .received) ∧ ∃ result,
      state.call method (.final request answers) = some result ∧
        after = state.settle request .received result := by
  simp only [Connections.next] at step
  split at step
  case isTrue allowed =>
    obtain ⟨result, called, rfl⟩ := Option.map_eq_some_iff.mp step
    exact ⟨allowed, result, called, rfl⟩
  case isFalse => cases step

theorem next_abort {method : Request → String} {state after : Connections Request}
    {request : Request} (step : state.next method (.abort request) = some after) :
    after = { state with phase := Function.update state.phase request .closed } := by
  simp only [Connections.next] at step
  split at step
  · cases step
  · exact (Option.some.inj step).symm

/-! ## The block has its size -/

theorem next_sized {method : Request → String} (state : Connections Request)
    (event : ConnectionEvent Request) (after : Connections Request)
    (sized : state.accumulator.Sized) (step : state.next method event = some after) :
    after.accumulator.Sized := by
  have kept : ∀ request uploadData answers result,
      answerToConnection request (method request) uploadData answers state.accumulator =
        some result → result.accumulator.Sized := by
    intro request uploadData answers result called
    obtain ⟨other, same, otherSized⟩ :=
      answerToConnection_sized request (method request) uploadData answers sized
    cases Option.some.inj (same.symm.trans called)
    exact otherSized
  cases event with
  | first request answers =>
      obtain ⟨-, result, called, rfl⟩ := next_first step
      exact kept request [] answers result called
  | piece request data answers =>
      obtain ⟨-, -, result, called, rfl⟩ := next_piece step
      exact kept request (tagged request data) answers result called
  | final request answers =>
      obtain ⟨-, result, called, rfl⟩ := next_final step
      exact kept request [] answers result called
  | abort request =>
      rw [next_abort step]
      exact sized

/-- In every run, whatever is mixed up, no call copies outside the block. -/
theorem calls_within_block (method : Request → String) (events : List (ConnectionEvent Request))
    (final : Connections Request)
    (success : run (Connections.next method) events .initial = some final) (request : Request)
    (uploadData : List (Request × UInt8)) (answers : Answers) :
    ∃ result, answerToConnection request (method request) uploadData answers
      final.accumulator = some result := by
  have sized : final.accumulator.Sized :=
    run_invariant next_sized events .initial final Accumulator.initial_sized success
  obtain ⟨result, called, -⟩ :=
    answerToConnection_sized request (method request) uploadData answers sized
  exact ⟨result, called⟩

end WebserverEthercat.Post

import WebserverEthercat.Post.Handler
import Mathlib.Data.List.Forall2

/-!
# Failed allocations

Requests are processed one after another, and a failed `realloc` ends its
request.  The null pointer that it returns takes the place of the block, but the
size of the block stays.
-/

set_option autoImplicit false

namespace WebserverEthercat.Post

/-- A piece of a body, with the answer to its `realloc`. -/
structure Piece where
  data : List UInt8
  nonempty : data ≠ []
  reallocOk : Bool

/-- The pieces of a POST, between a first and a final call without data. -/
structure PostRequest where
  pieces : List Piece
  createResponseOk : Bool
  queueResponseOk : Bool

namespace PostRequest

def body (request : PostRequest) : List UInt8 := request.pieces.flatMap Piece.data

def answers (request : PostRequest) (reallocOk : Bool) : Answers :=
  ⟨reallocOk, request.createResponseOk, request.queueResponseOk, (true, true)⟩

/-- The data and the answers of the calls behind the first one. -/
def later (request : PostRequest) (pieces : List Piece) : List (List UInt8 × Answers) :=
  (pieces.map fun piece => (piece.data, request.answers piece.reallocOk)) ++
    [([], request.answers true)]

def calls (request : PostRequest) : List (List UInt8 × Answers) :=
  ([], request.answers true) :: request.later request.pieces

def Granted (request : PostRequest) : Prop := ∀ piece ∈ request.pieces, piece.reallocOk = true

/-- Only the first allocation can fail: then there is nothing in the accumulator yet. -/
def FailsEmpty (request : PostRequest) : Prop :=
  ∀ first rest, request.pieces = first :: rest → first.reallocOk = true →
    ∀ piece ∈ rest, piece.reallocOk = true

end PostRequest

/-- What some calls leave behind. -/
structure Served where
  /-- the accumulator after each call -/
  states : List (Accumulator UInt8)
  /-- the blocks that `parse_post_data` was called with -/
  parsed : List (List (Option UInt8))
  last : Accumulator UInt8

/-- The calls up to the first one that returns `MHD_NO`. -/
def serveCalls : List (List UInt8 × Answers) → Accumulator UInt8 → Option Served
  | [], accumulator => some ⟨[], [], accumulator⟩
  | (uploadData, answers) :: rest, accumulator => do
      let result ← handlePostRequest () uploadData answers accumulator
      let later ← if result.ret then serveCalls rest result.accumulator
        else some ⟨[], [], result.accumulator⟩
      some ⟨result.accumulator :: later.states, result.parsed.toList ++ later.parsed, later.last⟩

def serveAll : List PostRequest → Accumulator UInt8 → Option (List Served)
  | [], _ => some []
  | request :: rest, accumulator => do
      let served ← serveCalls request.calls accumulator
      let later ← serveAll rest served.last
      some (served :: later)

def Accumulator.Consistent (accumulator : Accumulator UInt8) : Prop :=
  accumulator.postData = none ↔ accumulator.postDataSize = 0

/-- In every state the pointer is null exactly when the size is 0, and a request with all of its
allocations is parsed from its own bytes. -/
def ServedConsistently (requests : List PostRequest) : Prop :=
  ∃ run, serveAll requests .initial = some run ∧
    (∀ served ∈ run, ∀ state ∈ served.states, state.Consistent) ∧
    List.Forall₂ (fun request served => request.Granted →
      served.parsed = if request.body = [] then [] else [request.body.map some]) requests run

/-! ## One request -/

/-- The block of an accumulator that has been given some bytes. -/
def filled (bytes : List UInt8) : Accumulator UInt8 :=
  if bytes = [] then .initial else ⟨some (bytes.map some), bytes.length⟩

theorem filled_consistent (bytes : List UInt8) : (filled bytes).Consistent := by
  by_cases empty : bytes = []
  · simp [filled, empty, Accumulator.Consistent, Accumulator.initial]
  · simp [filled, empty, Accumulator.Consistent]

theorem filled_piece (bytes : List UInt8) (piece : Piece) {answers : Answers}
    (allocated : answers.reallocOk = true) :
    handlePostRequest () piece.data answers (filled bytes) =
      some ⟨filled (bytes ++ piece.data), none, none, true⟩ := by
  have sized : (filled bytes).Sized := by
    intro block present
    by_cases empty : bytes = []
    · simp [filled, empty, Accumulator.initial] at present
    · simp only [filled, empty, if_false, Option.some.injEq] at present ⊢
      rw [← present, List.length_map]
  have cells : (filled bytes).cells = bytes.map some ∧
      (filled bytes).postDataSize = bytes.length := by
    by_cases empty : bytes = []
    · simp [filled, empty, Accumulator.cells, Accumulator.initial]
    · simp [filled, empty, Accumulator.cells]
  have more : bytes ++ piece.data ≠ [] := by simp [piece.nonempty]
  rw [handlePostRequest_piece () piece.nonempty allocated sized, cells.1, cells.2, filled,
    if_neg more, List.map_append, List.length_append]

theorem serve_piece (request : PostRequest) (bytes : List UInt8) {piece : Piece}
    (allocated : piece.reallocOk = true) (pieces : List Piece) :
    serveCalls (request.later (piece :: pieces)) (filled bytes) =
      (serveCalls (request.later pieces) (filled (bytes ++ piece.data))).map fun served =>
        ⟨filled (bytes ++ piece.data) :: served.states, served.parsed, served.last⟩ := by
  have here := @filled_piece bytes piece (request.answers piece.reallocOk) allocated
  have split : request.later (piece :: pieces) =
      (piece.data, request.answers piece.reallocOk) :: request.later pieces := rfl
  rw [split, serveCalls, here]
  simp only [Option.bind_eq_bind, Option.bind_some, if_true]
  cases serveCalls (request.later pieces) (filled (bytes ++ piece.data)) <;> rfl

theorem serve_granted (request : PostRequest) (pieces : List Piece) :
    ∀ bytes : List UInt8, (∀ piece ∈ pieces, piece.reallocOk = true) →
      ∃ served, serveCalls (request.later pieces) (filled bytes) = some served ∧
        (∀ state ∈ served.states, state.Consistent) ∧ served.last = .initial ∧
        served.parsed = if bytes ++ pieces.flatMap Piece.data = [] then []
          else [(bytes ++ pieces.flatMap Piece.data).map some] := by
  induction pieces with
  | nil =>
      intro bytes _
      have consistent : (Accumulator.initial : Accumulator UInt8).Consistent := filled_consistent []
      simp only [PostRequest.later, List.map_nil, List.nil_append, serveCalls,
        handlePostRequest_nil]
      by_cases empty : bytes = []
      · simp [filled, empty, Accumulator.initial] at consistent ⊢
        exact consistent
      · simp [filled, empty]
        exact consistent
  | cons piece pieces ih =>
      intro bytes granted
      obtain ⟨here, rest⟩ := List.forall_mem_cons.mp granted
      obtain ⟨served, ran, consistent, last, parsed⟩ := ih (bytes ++ piece.data) rest
      refine ⟨⟨filled (bytes ++ piece.data) :: served.states, served.parsed, served.last⟩, ?_,
        ?_, last, ?_⟩
      · rw [serve_piece request bytes here, ran]
        rfl
      · exact List.forall_mem_cons.mpr ⟨filled_consistent _, consistent⟩
      · rw [parsed, List.flatMap_cons, List.append_assoc]

/-- A failure behind other bytes leaves their number without a block. -/
theorem serve_failed (request : PostRequest) (pieces : List Piece) :
    ∀ bytes : List UInt8, bytes ≠ [] → ¬ (∀ piece ∈ pieces, piece.reallocOk = true) →
      ∃ served, serveCalls (request.later pieces) (filled bytes) = some served ∧
        ∃ state ∈ served.states, ¬ state.Consistent := by
  induction pieces with
  | nil => simp
  | cons piece pieces ih =>
      intro bytes some failed
      cases here : piece.reallocOk with
      | true =>
          have rest : ¬ ∀ piece ∈ pieces, piece.reallocOk = true :=
            fun granted => failed (List.forall_mem_cons.mpr ⟨here, granted⟩)
          obtain ⟨served, ran, state, member, inconsistent⟩ :=
            ih (bytes ++ piece.data) (by simp [some]) rest
          refine ⟨⟨filled (bytes ++ piece.data) :: served.states, served.parsed, served.last⟩, ?_,
            state, List.mem_cons_of_mem _ member, inconsistent⟩
          rw [serve_piece request bytes here, ran]
          rfl
      | false =>
          have refused := handlePostRequest_refused () piece.nonempty
            (show (request.answers piece.reallocOk).reallocOk = false from here) (filled bytes)
          have split : request.later (piece :: pieces) =
              (piece.data, request.answers piece.reallocOk) :: request.later pieces := rfl
          refine ⟨⟨[⟨none, (filled bytes).postDataSize⟩], [], ⟨none, (filled bytes).postDataSize⟩⟩,
            ?_, _, List.mem_singleton_self _, ?_⟩
          · rw [split, serveCalls, refused]
            rfl
          · simp [Accumulator.Consistent, filled, some]

theorem serve_first (request : PostRequest) :
    serveCalls request.calls .initial =
      (serveCalls (request.later request.pieces) .initial).map fun served =>
        ⟨.initial :: served.states, served.parsed, served.last⟩ := by
  rw [PostRequest.calls, serveCalls, handlePostRequest_nil]
  simp only [Accumulator.initial, Option.bind_eq_bind, Option.bind_some, if_true]
  cases serveCalls (request.later request.pieces) ⟨none, 0⟩ <;> rfl

theorem serve_failsEmpty {request : PostRequest} (failsEmpty : request.FailsEmpty) :
    ∃ served, serveCalls request.calls .initial = some served ∧
      (∀ state ∈ served.states, state.Consistent) ∧ served.last = .initial ∧
      (request.Granted →
        served.parsed = if request.body = [] then [] else [request.body.map some]) := by
  have empty : (Accumulator.initial : Accumulator UInt8).Consistent := filled_consistent []
  rw [serve_first]
  by_cases granted : request.Granted
  · obtain ⟨served, ran, consistent, last, parsed⟩ :=
      serve_granted request request.pieces [] granted
    have start : serveCalls (request.later request.pieces) .initial = some served := ran
    rw [start]
    exact ⟨_, rfl, List.forall_mem_cons.mpr ⟨empty, consistent⟩, last, fun _ => parsed⟩
  · obtain ⟨piece, rest, pieces, here⟩ : ∃ piece rest, request.pieces = piece :: rest ∧
        piece.reallocOk = false := by
      cases split : request.pieces with
      | nil => exact absurd (by simp [PostRequest.Granted, split]) granted
      | cons piece rest =>
          refine ⟨piece, rest, rfl, ?_⟩
          cases here : piece.reallocOk with
          | false => rfl
          | true =>
              refine absurd ?_ granted
              rw [PostRequest.Granted, split]
              exact List.forall_mem_cons.mpr ⟨here, failsEmpty piece rest split here⟩
    have refused := handlePostRequest_refused () piece.nonempty
      (show (request.answers piece.reallocOk).reallocOk = false from here) .initial
    have split : request.later (piece :: rest) =
        (piece.data, request.answers piece.reallocOk) :: request.later rest := rfl
    have ran : serveCalls (request.later request.pieces) .initial =
        some ⟨[.initial], [], .initial⟩ := by
      rw [pieces, split, serveCalls, refused]
      rfl
    rw [ran]
    exact ⟨_, rfl, by simp [empty], rfl, fun all => absurd all granted⟩

theorem serve_not_failsEmpty {request : PostRequest} (fails : ¬ request.FailsEmpty) :
    ∃ served, serveCalls request.calls .initial = some served ∧
      ∃ state ∈ served.states, ¬ state.Consistent := by
  simp only [PostRequest.FailsEmpty, not_forall] at fails
  obtain ⟨piece, rest, pieces, here, later⟩ := fails
  obtain ⟨served, ran, state, member, inconsistent⟩ := serve_failed request rest piece.data
    piece.nonempty (by simpa using later)
  have second := serve_piece request [] here rest
  rw [List.nil_append, ran] at second
  have start : serveCalls (request.later request.pieces) .initial = _ := pieces ▸ second
  rw [serve_first, start]
  exact ⟨_, rfl, state, .tail _ (.tail _ member), inconsistent⟩

/-- The accumulator stays consistent, and the requests are parsed from their own bytes, exactly
when no allocation fails behind bytes of its own request. -/
theorem served_consistently_iff (requests : List PostRequest) :
    ServedConsistently requests ↔ ∀ request ∈ requests, request.FailsEmpty := by
  induction requests with
  | nil =>
      simp only [List.not_mem_nil, IsEmpty.forall_iff, implies_true, iff_true]
      exact ⟨[], rfl, by simp, .nil⟩
  | cons request requests ih =>
      rw [List.forall_mem_cons, ← ih]
      constructor
      · rintro ⟨run, ran, consistent, parsed⟩
        have failsEmpty : request.FailsEmpty := by
          by_contra fails
          obtain ⟨served, first, state, member, inconsistent⟩ := serve_not_failsEmpty fails
          simp only [serveAll, first, Option.bind_eq_bind, Option.bind_some,
            Option.bind_eq_some_iff, Option.some.injEq] at ran
          obtain ⟨later, -, rfl⟩ := ran
          exact inconsistent (consistent served List.mem_cons_self state member)
        obtain ⟨served, first, -, last, -⟩ := serve_failsEmpty failsEmpty
        simp only [serveAll, first, last, Option.bind_eq_bind, Option.bind_some,
          Option.bind_eq_some_iff, Option.some.injEq] at ran
        obtain ⟨later, laterRan, rfl⟩ := ran
        exact ⟨failsEmpty, later, laterRan, (List.forall_mem_cons.mp consistent).2,
          (List.forall₂_cons.mp parsed).2⟩
      · rintro ⟨failsEmpty, later, laterRan, consistent, parsed⟩
        obtain ⟨served, first, here, last, own⟩ := serve_failsEmpty failsEmpty
        refine ⟨served :: later, ?_, List.forall_mem_cons.mpr ⟨here, consistent⟩, .cons own parsed⟩
        simp only [serveAll, first, last, laterRan, Option.bind_eq_bind, Option.bind_some]

/-- `a=` arrives, and the allocation for `1` fails. -/
def interruptedRequest : PostRequest :=
  ⟨[⟨[97, 61], by decide, true⟩, ⟨[49], by decide, false⟩], true, true⟩

/-- `b=2` arrives, and nothing fails. -/
def nextRequest : PostRequest := ⟨[⟨[98, 61, 50], by decide, true⟩], true, true⟩

theorem nextRequest_granted : nextRequest.Granted := by
  intro piece member
  obtain rfl := List.mem_singleton.mp member
  rfl

/-- The second request is put behind two cells that nothing was written to. -/
theorem interrupted_damages_next :
    (serveAll [interruptedRequest, nextRequest] .initial).map (·.map Served.parsed) =
        some [[], [[none, none, some 98, some 61, some 50]]] ∧
      ¬ ServedConsistently [interruptedRequest, nextRequest] := by
  refine ⟨rfl, ?_⟩
  rintro ⟨run, ran, -, parsed⟩
  obtain rfl := Option.some.inj (ran : some _ = some run)
  have second := (List.forall₂_cons.mp (List.forall₂_cons.mp parsed).2).1 nextRequest_granted
  revert second
  decide

end WebserverEthercat.Post

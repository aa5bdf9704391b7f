import WebserverEthercat.Lib.CString
import WebserverEthercat.Post.Uploads

/-!
# The accumulated body as a string

`handle_post_request` allocates exactly the bytes of the body, and
`parse_post_data` takes the block for a terminated string.  A request that is
processed alone shows what the parser is given.
-/

set_option autoImplicit false

namespace WebserverEthercat.Post

open EventMachine CString

variable {Request : Type}

/-- The blocks handed to `parse_post_data`, without the owners of their bytes. -/
def parsedBlocks (method : Request → String) (state : Connections Request)
    (event : ConnectionEvent Request) : List Block :=
  match (state.call method event).bind HandlerResult.parsed with
  | some block => [block.map (Option.map Prod.snd)]
  | none => []

/-- One request from its first to its final call, with all allocations granted. -/
def alone (request : Request) (pieces : List (List UInt8)) : List (ConnectionEvent Request) :=
  .first request .allOk :: (pieces.map fun data => .piece request data .allOk) ++
    [.final request .allOk]

theorem untag_own (request : Request) (body : List UInt8) :
    (own request body).map (Option.map Prod.snd) = body.map some := by
  simp [own, tagged]

/-- The request is being received and the accumulator holds what it uploaded. -/
structure Uploading (request : Request) (body : List UInt8) (state : Connections Request) :
    Prop where
  phase : state.phase request = .receiving
  accumulator : state.accumulator =
    if body = [] then .initial else ⟨some (own request body), body.length⟩

theorem final_parses {method : Request → String} {request : Request}
    (post : method request = "POST") {body : List UInt8} {state : Connections Request}
    (uploading : Uploading request body state) :
    parsedBlocks method state (.final request .allOk) =
      if body = [] then [] else [body.map some] := by
  have called : state.call method (.final request .allOk) =
      handlePostRequest request [] .allOk state.accumulator :=
    answerToConnection_post request post [] .allOk state.accumulator
  rw [parsedBlocks, called, uploading.accumulator, handlePostRequest_nil]
  by_cases empty : body = []
  · rw [if_pos empty, if_pos empty]
    rfl
  · rw [if_neg empty, if_neg empty]
    simp [untag_own]

variable [DecidableEq Request]

theorem first_uploading {method : Request → String} {request : Request}
    (post : method request = "POST") :
    ∃ after, (Connections.initial : Connections Request).next method
        (.first request .allOk) = some after ∧ Uploading request [] after := by
  refine ⟨Connections.initial.settle request .receiving ⟨.initial, none, none, true⟩, ?_, ?_⟩
  · simp [Connections.next, Connections.call, answerToConnection_post request post,
      handlePostRequest_nil, Connections.initial, Accumulator.initial]
  · exact ⟨by simp [Connections.settle], rfl⟩

theorem piece_uploading {method : Request → String} {request : Request}
    (post : method request = "POST") {body data : List UInt8} (nonempty : data ≠ [])
    {state : Connections Request} (uploading : Uploading request body state) :
    parsedBlocks method state (.piece request data .allOk) = [] ∧
      ∃ after, state.next method (.piece request data .allOk) = some after ∧
        Uploading request (body ++ data) after := by
  have held : state.accumulator.Sized ∧ state.accumulator.cells = own request body ∧
      state.accumulator.postDataSize = body.length := by
    rw [uploading.accumulator]
    by_cases empty : body = []
    · subst empty
      exact ⟨Accumulator.initial_sized, rfl, rfl⟩
    · rw [if_neg empty]
      refine ⟨?_, rfl, rfl⟩
      intro block present
      cases Option.some.inj present
      simp [own, tagged]
  have called : state.call method (.piece request data .allOk) =
      some ⟨⟨some (own request (body ++ data)), (body ++ data).length⟩, none, none, true⟩ := by
    have handled := handlePostRequest_piece request (tagged_ne_nil request nonempty)
      (rfl : Answers.allOk.reallocOk = true) held.1
    rw [held.2.1, held.2.2, length_tagged, own_tagged, ← own_append,
      ← List.length_append] at handled
    rw [← handled, Connections.call, answerToConnection_post request post]
  refine ⟨by simp [parsedBlocks, called], (state.upload request data).settle request .receiving
    ⟨⟨some (own request (body ++ data)), (body ++ data).length⟩, none, none, true⟩, ?_, ?_⟩
  · rw [Connections.next, if_pos ⟨uploading.phase, nonempty⟩, called]
    rfl
  · refine ⟨by simp [Connections.settle], ?_⟩
    have filled : body ++ data ≠ [] := by simp [nonempty]
    rw [if_neg filled]
    rfl

theorem pieces_parse {method : Request → String} {request : Request}
    (post : method request = "POST") (pieces : List (List UInt8)) :
    ∀ (body : List UInt8) (state : Connections Request), (∀ data ∈ pieces, data ≠ []) →
      Uploading request body state →
      record (Connections.next method) (parsedBlocks method)
          ((pieces.map fun data => .piece request data .allOk) ++ [.final request .allOk]) state =
        if body ++ pieces.flatten = [] then [] else [(body ++ pieces.flatten).map some] := by
  induction pieces with
  | nil =>
      intro body state _ uploading
      have parsed := final_parses post uploading
      cases step : state.next method (.final request .allOk) <;> simp [record, step, parsed]
  | cons data pieces ih =>
      intro body state nonempty uploading
      obtain ⟨silent, after, step, grown⟩ :=
        piece_uploading post (nonempty data List.mem_cons_self) uploading
      have rest := ih (body ++ data) after
        (fun piece member => nonempty piece (List.mem_cons_of_mem _ member)) grown
      simp only [List.map_cons, List.cons_append, record, silent, step, Option.elim_some,
        List.nil_append, rest, List.flatten_cons, List.append_assoc]

/-- Chunking is invisible: the parser is given one block with the bytes of the
body and nothing behind them, or nothing when the body is empty. -/
theorem alone_parses {method : Request → String} {request : Request}
    (post : method request = "POST") (pieces : List (List UInt8))
    (nonempty : ∀ data ∈ pieces, data ≠ []) :
    record (Connections.next method) (parsedBlocks method) (alone request pieces) .initial =
      if pieces.flatten = [] then [] else [pieces.flatten.map some] := by
  obtain ⟨after, step, uploading⟩ := first_uploading post
  have silent : parsedBlocks method .initial (.first request .allOk) = [] := by
    simp [parsedBlocks, Connections.call, answerToConnection_post request post,
      handlePostRequest_nil, Connections.initial, Accumulator.initial]
  have rest := pieces_parse post pieces [] after nonempty uploading
  simpa only [alone, List.cons_append, record, silent, step, Option.elim_some,
    List.nil_append] using rest

/-- The string that the parser duplicates is the body only if there is no body:
no terminator is stored behind the bytes. -/
theorem parsed_string_is_body_iff (method : Request → String) (request : Request)
    (post : method request = "POST") (body : List UInt8) (noNul : 0 ∉ body)
    (pieces : List (List UInt8)) (nonempty : ∀ data ∈ pieces, data ≠ [])
    (chunks : pieces.flatten = body) :
    (∀ block ∈ record (Connections.next method) (parsedBlocks method) (alone request pieces)
        .initial, strdup block = some (terminated body)) ↔
      body = [] := by
  have parsed := alone_parses post pieces nonempty
  rw [chunks] at parsed
  rw [parsed]
  constructor
  · intro duplicated
    by_contra filled
    have copied := duplicated (body.map some) (by simp [filled])
    rw [strdup, strlen_unterminated body noNul] at copied
    cases copied
  · intro empty
    simp [empty]

theorem parsed_string_is_body_iff_two_pieces :
    (∀ block ∈ record (Connections.next fun _ : Nat => "POST") (parsedBlocks fun _ => "POST")
      (alone 0 [[97, 61], [49]]) .initial, strdup block = some (terminated [97, 61, 49])) ↔
      ([97, 61, 49] : List UInt8) = [] :=
  parsed_string_is_body_iff (fun _ => "POST") 0 rfl [97, 61, 49] (by decide)
    [[97, 61], [49]] (by decide) rfl

/-- The body `a=1` in two pieces: `strdup` reads past the three allocated bytes. -/
theorem body_without_terminator :
    ¬ ∀ block ∈ record (Connections.next fun _ : Nat => "POST") (parsedBlocks fun _ => "POST")
      (alone 0 [[97, 61], [49]]) .initial, strdup block = some (terminated [97, 61, 49]) := by
  intro duplicated
  have copied := duplicated [some 97, some 61, some 49] (by decide)
  revert copied
  decide

end WebserverEthercat.Post

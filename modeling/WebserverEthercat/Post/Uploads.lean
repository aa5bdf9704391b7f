import WebserverEthercat.Post.Connections

/-!
# Uploads that do not mix

While a POST is being uploaded the accumulator is its body, as long as no other
POST gets a call.  Any such call spoils the accumulator: from then on no block
that is parsed can be the body of one request.
-/

set_option autoImplicit false

namespace WebserverEthercat.Post

open EventMachine

variable {Request : Type}

/-! ## Cells and their owners -/

theorem own_append (request : Request) (first second : List UInt8) :
    own request (first ++ second) = own request first ++ own request second := by
  simp [own, tagged]

theorem own_tagged (request : Request) (data : List UInt8) :
    (tagged request data).map some = own request data := rfl

theorem length_tagged (request : Request) (data : List UInt8) :
    (tagged request data).length = data.length := by
  simp [tagged]

theorem tagged_ne_nil (request : Request) {data : List UInt8} (nonempty : data ≠ []) :
    tagged request data ≠ [] := by
  simpa [tagged] using nonempty

theorem mem_own {request : Request} {body : List UInt8} {cell : Option (Request × UInt8)}
    (member : cell ∈ own request body) : ∃ byte, cell = some (request, byte) := by
  simp only [own, tagged, List.map_map, List.mem_map, Function.comp] at member
  obtain ⟨byte, -, same⟩ := member
  exact ⟨byte, same.symm⟩

theorem own_owner {first second : Request} {body other : List UInt8} (nonempty : body ≠ [])
    (same : ∀ cell ∈ own first body, cell ∈ own second other) : first = second := by
  obtain ⟨byte, rest, rfl⟩ := List.exists_cons_of_ne_nil nonempty
  obtain ⟨held, owned⟩ := mem_own (same (some (first, byte)) (by simp [own, tagged]))
  cases owned
  rfl

/-! ## The accumulator of an undisturbed upload -/

def holding (current : Option Request) (body : Request → List UInt8) :
    Accumulator (Request × UInt8) :=
  current.elim .initial fun request =>
    ⟨some (own request (body request)), (body request).length⟩

theorem holding_sized (current : Option Request) (body : Request → List UInt8) :
    (holding current body).Sized := by
  cases current with
  | none => exact Accumulator.initial_sized
  | some request =>
      intro block present
      cases Option.some.inj present
      simp [holding, own, tagged]

structure Apart (method : Request → String) (current : Option Request)
    (state : Connections Request) : Prop where
  accumulator : state.accumulator = holding current state.body
  uploading : ∀ request, current = some request →
    method request = "POST" ∧ state.body request ≠ []
  waiting : ∀ request, state.phase request = .waiting → state.body request = []
  receiving : ∀ request, method request = "POST" → state.phase request = .receiving →
    state.body request = [] ∨ current = some request

theorem apart_initial (method : Request → String) :
    Apart method none (Connections.initial : Connections Request) := by
  refine ⟨rfl, ?_, fun _ _ => rfl, fun _ _ _ => .inl rfl⟩
  intro request none
  cases none

theorem Apart.sized {method : Request → String} {current : Option Request}
    {state : Connections Request} (apart : Apart method current state) :
    state.accumulator.Sized := by
  rw [apart.accumulator]
  exact holding_sized current state.body

theorem call_without_data {method : Request → String} {state : Connections Request}
    {event : ConnectionEvent Request} {request : Request} {answers : Answers}
    (here : event = .first request answers ∨ event = .final request answers)
    (post : method request = "POST") {result : HandlerResult (Request × UInt8) Request}
    (called : state.call method event = some result) :
    match state.accumulator.postData with
    | some block => result = ⟨.initial, some block,
        if answers.createResponseOk && answers.queueResponseOk then some request else none,
        answers.createResponseOk && answers.queueResponseOk⟩
    | none => result = ⟨state.accumulator, none, none, true⟩ := by
  have handled : handlePostRequest request [] answers state.accumulator = some result := by
    rw [← answerToConnection_post request post]
    rcases here with rfl | rfl <;> exact called
  rw [handlePostRequest_nil] at handled
  cases present : state.accumulator.postData with
  | none =>
      rw [present] at handled
      exact (Option.some.inj handled).symm
  | some block =>
      rw [present] at handled
      exact (Option.some.inj handled).symm

theorem call_with_data {method : Request → String} {state : Connections Request}
    {request : Request} {data : List UInt8} {answers : Answers} (nonempty : data ≠ [])
    (post : method request = "POST") (sized : state.accumulator.Sized)
    {result : HandlerResult (Request × UInt8) Request}
    (called : state.call method (.piece request data answers) = some result) :
    result = if answers.reallocOk then
        ⟨⟨some (state.accumulator.cells ++ own request data),
          state.accumulator.postDataSize + data.length⟩, none, none, true⟩
      else ⟨⟨none, state.accumulator.postDataSize⟩, none, none, false⟩ := by
  simp only [Connections.call, answerToConnection_post request post] at called
  have filled := tagged_ne_nil request nonempty
  cases allocated : answers.reallocOk with
  | true =>
      rw [handlePostRequest_piece request filled allocated sized, length_tagged,
        own_tagged] at called
      exact (Option.some.inj called).symm
  | false =>
      rw [handlePostRequest_refused request filled allocated] at called
      exact (Option.some.inj called).symm

variable [DecidableEq Request]

/-- An undisturbed call parses nothing but the body of its own request. -/
theorem apart_own {method : Request → String} {current : Option Request}
    {state after : Connections Request} {event : ConnectionEvent Request}
    (apart : Apart method current state) (undisturbed : Undisturbed method current event)
    (step : state.next method event = some after) : OwnUpload method state event := by
  intro result block called parsed
  have none_of_other : ∀ {request}, ((∃ answers, event = .first request answers) ∨
      (∃ data answers, event = .piece request data answers) ∨
      ∃ answers, event = .final request answers) → method request = "POST" := by
    intro request here
    by_contra other
    rw [(call_other here other called).2] at parsed
    cases parsed
  cases event with
  | abort request => cases called
  | first request answers =>
      have post := none_of_other (.inl ⟨answers, rfl⟩)
      have returned := call_without_data (.inl rfl) post called
      rw [apart.accumulator, undisturbed post] at returned
      simp only [holding, Option.elim_none, Accumulator.initial] at returned
      rw [returned] at parsed
      cases parsed
  | piece request data answers =>
      have post := none_of_other (.inr (.inl ⟨data, answers, rfl⟩))
      have returned := call_with_data (next_piece step).2.1 post apart.sized called
      rw [returned] at parsed
      split at parsed <;> cases parsed
  | final request answers =>
      have post := none_of_other (.inr (.inr ⟨answers, rfl⟩))
      have returned := call_without_data (.inr rfl) post called
      rw [apart.accumulator] at returned
      rcases undisturbed post with idle | mine
      · rw [idle] at returned
        simp only [holding, Option.elim_none, Accumulator.initial] at returned
        rw [returned] at parsed
        cases parsed
      · rw [mine] at returned
        simp only [holding, Option.elim_some] at returned
        rw [returned] at parsed
        cases Option.some.inj parsed
        exact ⟨request, answers, rfl, rfl, by rw [returned]⟩

theorem settle_phase (state : Connections Request) (request other : Request) (onward : Phase)
    (result : HandlerResult (Request × UInt8) Request) :
    other ≠ request ∧ (state.settle request onward result).phase other = state.phase other ∨
      other = request ∧ (state.settle request onward result).phase other ∈
        [onward, .answered, .closed] := by
  by_cases same : other = request
  · subst same
    refine .inr ⟨rfl, ?_⟩
    simp only [Connections.settle, Function.update_self]
    split
    · simp
    · split <;> simp
  · exact .inl ⟨same, by simp [Connections.settle, same]⟩

@[simp]
theorem settle_accumulator (state : Connections Request) (request : Request) (onward : Phase)
    (result : HandlerResult (Request × UInt8) Request) :
    (state.settle request onward result).accumulator = result.accumulator := rfl

/-- Whoever is in a phase that the call does not lead to is in it untouched. -/
theorem settle_untouched {state : Connections Request} {request other : Request}
    {onward phase : Phase} {result : HandlerResult (Request × UInt8) Request}
    (unreached : phase ≠ onward ∧ phase ≠ .answered ∧ phase ≠ .closed)
    (still : (state.settle request onward result).phase other = phase) :
    other ≠ request ∧ state.phase other = phase := by
  rcases settle_phase state request other onward result with ⟨different, kept⟩ | ⟨-, listed⟩
  · exact ⟨different, kept.symm.trans still⟩
  · rw [still] at listed
    simp [unreached] at listed

/-- A call that leaves the accumulator alone keeps the uploads apart. -/
theorem Apart.settle {method : Request → String} {current : Option Request}
    {state : Connections Request} (apart : Apart method current state) (request : Request)
    (onward : Phase) (result : HandlerResult (Request × UInt8) Request)
    (same : result.accumulator = state.accumulator) (moved : onward ≠ .waiting)
    (allowed : onward = .receiving → method request = "POST" →
      state.body request = [] ∨ current = some request) :
    Apart method current (state.settle request onward result) := by
  refine ⟨same.trans apart.accumulator, apart.uploading, ?_, ?_⟩
  · intro other waiting
    exact apart.waiting other (settle_untouched ⟨moved.symm, by simp, by simp⟩ waiting).2
  · intro other post receiving
    rcases settle_phase state request other onward result with ⟨-, kept⟩ | ⟨rfl, listed⟩
    · exact apart.receiving other post (kept.symm.trans receiving)
    · rw [receiving] at listed
      simp only [List.mem_cons, reduceCtorEq, List.not_mem_nil, or_false] at listed
      exact allowed listed.symm post

theorem Apart.upload_other {method : Request → String} {current : Option Request}
    {state : Connections Request} (apart : Apart method current state) {request : Request}
    (other : method request ≠ "POST") (receiving : state.phase request = .receiving)
    (data : List UInt8) : Apart method current (state.upload request data) := by
  have kept : ∀ held, method held = "POST" →
      (state.upload request data).body held = state.body held := by
    intro held post
    have different : held ≠ request := fun same => other (same ▸ post)
    simp [Connections.upload, different]
  have uploading : ∀ held, current = some held →
      method held = "POST" ∧ (state.upload request data).body held ≠ [] := by
    intro held mine
    obtain ⟨post, filled⟩ := apart.uploading held mine
    exact ⟨post, (kept held post).symm ▸ filled⟩
  refine ⟨?_, uploading, ?_, ?_⟩
  · cases current with
    | none => exact apart.accumulator
    | some held =>
        apply apart.accumulator.trans
        simp only [holding, Option.elim_some, kept held (apart.uploading held rfl).1]
  · intro held waiting
    have different : held ≠ request := by
      intro same
      subst same
      exact absurd (receiving.symm.trans waiting) (by simp)
    have before := apart.waiting held waiting
    simpa [Connections.upload, different] using before
  · intro held post held_receiving
    rw [kept held post]
    exact apart.receiving held post held_receiving

/-- A piece of one request leaves the others waiting or receiving as they were. -/
theorem settle_upload_other {state : Connections Request} {request other : Request}
    (different : other ≠ request) (data : List UInt8) (onward : Phase)
    (result : HandlerResult (Request × UInt8) Request) :
    ((state.upload request data).settle request onward result).phase other = state.phase other ∧
      ((state.upload request data).settle request onward result).body other =
        state.body other := by
  simp [Connections.settle, Connections.upload, different]

theorem Apart.waiting_piece {method : Request → String} {current : Option Request}
    {state : Connections Request} (apart : Apart method current state) (request : Request)
    (data : List UInt8) (result : HandlerResult (Request × UInt8) Request) (other : Request)
    (still : ((state.upload request data).settle request .receiving result).phase other =
      .waiting) :
    ((state.upload request data).settle request .receiving result).body other = [] := by
  obtain ⟨different, waiting⟩ := settle_untouched (by simp) still
  rw [(settle_upload_other different data .receiving result).2]
  exact apart.waiting other waiting

omit [DecidableEq Request] in
/-- What has been accumulated when a piece of a request may come: its own bytes. -/
theorem Apart.accumulated_own {method : Request → String} {current : Option Request}
    {state : Connections Request} {request : Request} (apart : Apart method current state)
    (post : method request = "POST") (receiving : state.phase request = .receiving)
    (undisturbed : current = none ∨ current = some request) :
    state.accumulator.cells = own request (state.body request) ∧
      state.accumulator.postDataSize = (state.body request).length := by
  rw [apart.accumulator]
  rcases undisturbed with idle | mine
  · have empty : state.body request = [] := by
      rcases apart.receiving request post receiving with empty | mine
      · exact empty
      · rw [idle] at mine; cases mine
    rw [idle, empty]
    exact ⟨rfl, rfl⟩
  · rw [mine]
    exact ⟨rfl, rfl⟩

/-- A piece that is stored opens the upload of its request, or goes on with it. -/
theorem Apart.stored {method : Request → String} {current : Option Request}
    {state : Connections Request} {request : Request} {data : List UInt8}
    (apart : Apart method current state) (post : method request = "POST")
    (receiving : state.phase request = .receiving) (nonempty : data ≠ [])
    (undisturbed : current = none ∨ current = some request)
    {result : HandlerResult (Request × UInt8) Request}
    (returned : result = ⟨⟨some (state.accumulator.cells ++ own request data),
      state.accumulator.postDataSize + data.length⟩, none, none, true⟩) :
    Apart method (some request) ((state.upload request data).settle request .receiving result) := by
  have cells := apart.accumulated_own post receiving undisturbed
  refine ⟨?_, ?_, apart.waiting_piece request data result, ?_⟩
  · rw [returned]
    simp [Connections.settle, Connections.upload, holding, cells, own_append]
  · intro other mine
    cases Option.some.inj mine
    exact ⟨post, by simp [Connections.settle, Connections.upload, nonempty]⟩
  · intro other otherPost still
    by_cases same : other = request
    · exact .inr (congrArg some same.symm)
    · obtain ⟨phase, body⟩ := settle_upload_other same data .receiving result
      rw [body]
      rcases apart.receiving other otherPost (phase.symm.trans still) with empty | mine
      · exact .inl empty
      · rcases undisturbed with idle | own
        · rw [idle] at mine; cases mine
        · rw [own] at mine
          exact absurd (Option.some.inj mine).symm same

theorem Apart.refused {method : Request → String} {state : Connections Request}
    {request : Request} {data : List UInt8} (apart : Apart method none state)
    {result : HandlerResult (Request × UInt8) Request}
    (returned : result = ⟨⟨none, state.accumulator.postDataSize⟩, none, none, false⟩) :
    Apart method none ((state.upload request data).settle request .receiving result) := by
  refine ⟨?_, by simp, apart.waiting_piece request data result, ?_⟩
  · rw [returned]
    simp [Connections.settle, apart.accumulator, holding, Accumulator.initial]
  · intro other otherPost still
    by_cases same : other = request
    · subst same
      rw [returned] at still
      simp [Connections.settle] at still
    · obtain ⟨phase, body⟩ := settle_upload_other same data .receiving result
      rw [body]
      exact apart.receiving other otherPost (phase.symm.trans still)

theorem apart_piece {method : Request → String} {current : Option Request}
    {state : Connections Request} {request : Request} {data : List UInt8} {answers : Answers}
    (apart : Apart method current state) (post : method request = "POST")
    (receiving : state.phase request = .receiving) (nonempty : data ≠ [])
    (undisturbed : current = none ∨ current = some request ∧ answers.reallocOk)
    {result : HandlerResult (Request × UInt8) Request}
    (called : state.call method (.piece request data answers) = some result) :
    Apart method (openUpload method current (.piece request data answers))
      ((state.upload request data).settle request .receiving result) := by
  have returned := call_with_data nonempty post apart.sized called
  cases allocated : answers.reallocOk with
  | true =>
      rw [allocated, if_pos rfl] at returned
      simp only [openUpload, post, allocated, and_self, if_true]
      exact apart.stored post receiving nonempty (undisturbed.imp_right And.left) returned
  | false =>
      rw [allocated, if_neg (by simp)] at returned
      have idle : current = none := by
        rcases undisturbed with idle | ⟨-, ok⟩
        · exact idle
        · rw [allocated] at ok; cases ok
      subst idle
      simp only [openUpload, allocated, Bool.false_eq_true, and_false, if_false]
      exact apart.refused returned

theorem apart_final {method : Request → String} {current : Option Request}
    {state : Connections Request} {request : Request} {answers : Answers}
    (apart : Apart method current state) (post : method request = "POST")
    (undisturbed : current = none ∨ current = some request)
    {result : HandlerResult (Request × UInt8) Request}
    (called : state.call method (.final request answers) = some result) :
    Apart method none (state.settle request .received result) := by
  have returned := call_without_data (.inr rfl) post called
  rw [apart.accumulator] at returned
  rcases undisturbed with idle | mine
  · subst idle
    refine apart.settle request .received result ?_ (by simp) (by simp)
    rw [returned]
    exact apart.accumulator.symm
  · subst mine
    refine ⟨by rw [returned]; rfl, by simp, ?_, ?_⟩
    · intro other waiting
      exact apart.waiting other (settle_untouched (by simp) waiting).2
    · intro other otherPost receiving
      obtain ⟨different, before⟩ := settle_untouched (by simp) receiving
      rcases apart.receiving other otherPost before with empty | mine
      · exact .inl empty
      · exact absurd (Option.some.inj mine).symm different

theorem apart_step {method : Request → String} {current : Option Request}
    {state after : Connections Request} {event : ConnectionEvent Request}
    (apart : Apart method current state) (undisturbed : Undisturbed method current event)
    (step : state.next method event = some after) :
    Apart method (openUpload method current event) after := by
  cases event with
  | abort request =>
      rw [next_abort step]
      refine ⟨apart.accumulator, apart.uploading, ?_, ?_⟩
      · intro other waiting
        by_cases same : other = request
        · subst same; simp at waiting
        · exact apart.waiting other (by simpa [same] using waiting)
      · intro other post receiving
        by_cases same : other = request
        · subst same; simp at receiving
        · exact apart.receiving other post (by simpa [same] using receiving)
  | first request answers =>
      obtain ⟨waiting, result, called, rfl⟩ := next_first step
      refine apart.settle request .receiving result ?_ (by simp)
        fun _ _ => .inl (apart.waiting request waiting)
      by_cases post : method request = "POST"
      · have returned := call_without_data (.inl rfl) post called
        rw [apart.accumulator, undisturbed post] at returned
        rw [returned, apart.accumulator, undisturbed post]
      · exact (call_other (.inl ⟨answers, rfl⟩) post called).1
  | piece request data answers =>
      obtain ⟨receiving, nonempty, result, called, rfl⟩ := next_piece step
      by_cases post : method request = "POST"
      · exact apart_piece apart post receiving nonempty (undisturbed post) called
      · have same := (call_other (.inr (.inl ⟨data, answers, rfl⟩)) post called).1
        simp only [openUpload, post, false_and, if_false]
        exact (apart.upload_other post receiving data).settle request .receiving result same
          (by simp) fun _ isPost => absurd isPost post
  | final request answers =>
      obtain ⟨-, result, called, rfl⟩ := next_final step
      by_cases post : method request = "POST"
      · simp only [openUpload, post, if_true]
        exact apart_final apart post (undisturbed post) called
      · have same := (call_other (.inr (.inr ⟨answers, rfl⟩)) post called).1
        simp only [openUpload, post, if_false]
        exact apart.settle request .received result same (by simp) (by simp)

/-! ## A spoiled accumulator -/

/-- Something is accumulated, but not the bytes of one request. -/
structure Spoiled (accumulator : Accumulator (Request × UInt8)) : Prop where
  sized : accumulator.Sized
  size : accumulator.postDataSize ≠ 0
  mixed : ∀ request body, accumulator.postData ≠ some (own request body)

omit [DecidableEq Request] in
theorem own_prefix {request : Request} {body : List UInt8}
    {first second : List (Option (Request × UInt8))} (split : own request body = first ++ second) :
    ∃ part rest, body = part ++ rest ∧ first = own request part ∧ second = own request rest := by
  have mapped : own request body = body.map fun byte => some (request, byte) := by
    simp [own, tagged]
  obtain ⟨part, rest, same, firstIs, secondIs⟩ := List.map_eq_append_iff.mp (mapped.symm.trans split)
  exact ⟨part, rest, same, by simp [own, tagged, ← firstIs], by simp [own, tagged, ← secondIs]⟩

omit [DecidableEq Request] in
/-- A piece put behind a spoiled accumulator leaves it spoiled. -/
theorem Spoiled.append {accumulator : Accumulator (Request × UInt8)}
    (spoiled : Spoiled accumulator) (request : Request) (data : List UInt8) :
    Spoiled ⟨some (accumulator.cells ++ own request data),
      accumulator.postDataSize + data.length⟩ := by
  refine ⟨?_, by have size := spoiled.size; simp only; omega, ?_⟩
  · intro block present
    cases Option.some.inj present
    simp [accumulator.length_cells spoiled.sized, own, tagged]
  · intro owner body same
    obtain ⟨part, rest, -, cells, -⟩ := own_prefix (Option.some.inj same).symm
    unfold Accumulator.cells at cells
    cases present : accumulator.postData with
    | some block =>
        rw [present, Option.getD_some] at cells
        exact spoiled.mixed owner part (present.trans (congrArg some cells))
    | none =>
        rw [present, Option.getD_none] at cells
        have unwritten : none ∈ own owner part := by
          rw [← cells]
          exact List.mem_replicate.mpr ⟨spoiled.size, rfl⟩
        obtain ⟨byte, written⟩ := mem_own unwritten
        cases written

omit [DecidableEq Request] in
theorem Spoiled.lost {size : Nat} (filled : size ≠ 0) :
    Spoiled (⟨none, size⟩ : Accumulator (Request × UInt8)) := by
  refine ⟨?_, filled, by simp⟩
  intro block present
  cases present

omit [DecidableEq Request] in
/-- A call without data leaves a spoiled accumulator alone: it would parse mixed data. -/
theorem Spoiled.kept_without_data {method : Request → String} {state : Connections Request}
    {event : ConnectionEvent Request} {request : Request} {answers : Answers}
    (spoiled : Spoiled state.accumulator) (owned : OwnUpload method state event)
    (here : event = .first request answers ∨ event = .final request answers)
    {result : HandlerResult (Request × UInt8) Request}
    (called : state.call method event = some result) :
    result.accumulator = state.accumulator := by
  by_cases post : method request = "POST"
  · have returned := call_without_data here post called
    cases present : state.accumulator.postData with
    | none =>
        rw [present] at returned
        exact congrArg HandlerResult.accumulator returned
    | some block =>
        rw [present] at returned
        obtain ⟨owner, -, -, mine, -⟩ := owned result block called (by rw [returned])
        exact absurd (present.trans (congrArg some mine)) (spoiled.mixed owner _)
  · have listed : (∃ answers, event = .first request answers) ∨
        (∃ data answers, event = .piece request data answers) ∨
        ∃ answers, event = .final request answers :=
      here.imp (fun first => ⟨answers, first⟩) fun final => .inr ⟨answers, final⟩
    exact (call_other listed post called).1

/-- Nothing but a parse of mixed data makes a spoiled accumulator clean. -/
theorem spoiled_step {method : Request → String} {state after : Connections Request}
    {event : ConnectionEvent Request} (spoiled : Spoiled state.accumulator)
    (owned : OwnUpload method state event) (step : state.next method event = some after) :
    Spoiled after.accumulator := by
  cases event with
  | abort request =>
      rw [next_abort step]
      exact spoiled
  | first request answers =>
      obtain ⟨-, result, called, rfl⟩ := next_first step
      rw [settle_accumulator, spoiled.kept_without_data owned (.inl rfl) called]
      exact spoiled
  | final request answers =>
      obtain ⟨-, result, called, rfl⟩ := next_final step
      rw [settle_accumulator, spoiled.kept_without_data owned (.inr rfl) called]
      exact spoiled
  | piece request data answers =>
      obtain ⟨-, nonempty, result, called, rfl⟩ := next_piece step
      rw [settle_accumulator]
      by_cases post : method request = "POST"
      · have returned := call_with_data nonempty post spoiled.sized called
        cases allocated : answers.reallocOk with
        | true =>
            rw [allocated, if_pos rfl] at returned
            rw [returned]
            exact spoiled.append request data
        | false =>
            rw [allocated, if_neg (by simp)] at returned
            rw [returned]
            exact .lost spoiled.size
      · rw [(call_other (.inr (.inl ⟨data, answers, rfl⟩)) post called).1]
        exact spoiled

/-- A disturbed upload ends in a parse of mixed data or in a spoiled accumulator. -/
theorem spoiled_of_disturbed {method : Request → String} {current : Option Request}
    {state after : Connections Request} {event : ConnectionEvent Request}
    (apart : Apart method current state) (disturbed : ¬ Undisturbed method current event)
    (owned : OwnUpload method state event) (step : state.next method event = some after) :
    Spoiled after.accumulator := by
  cases event with
  | abort request => exact absurd trivial disturbed
  | first request answers =>
      simp only [Undisturbed, Classical.not_imp] at disturbed
      obtain ⟨holder, mine⟩ := Option.ne_none_iff_exists'.mp disturbed.2
      obtain ⟨-, result, called, rfl⟩ := next_first step
      have returned := call_without_data (.inl rfl) disturbed.1 called
      rw [apart.accumulator, mine] at returned
      simp only [holding, Option.elim_some] at returned
      obtain ⟨_, _, impossible, -⟩ := owned result _ called (by rw [returned])
      cases impossible
  | final request answers =>
      simp only [Undisturbed, Classical.not_imp, not_or] at disturbed
      obtain ⟨post, busy, other⟩ := disturbed
      obtain ⟨holder, mine⟩ := Option.ne_none_iff_exists'.mp busy
      obtain ⟨-, result, called, rfl⟩ := next_final step
      have returned := call_without_data (.inr rfl) post called
      rw [apart.accumulator, mine] at returned
      simp only [holding, Option.elim_some] at returned
      obtain ⟨owner, _, same, block, -⟩ := owned result _ called (by rw [returned])
      cases same
      have holderIs := own_owner (apart.uploading holder mine).2 fun cell member => block ▸ member
      exact absurd (mine.trans (congrArg some holderIs)) other
  | piece request data answers =>
      simp only [Undisturbed, Classical.not_imp, not_or, not_and] at disturbed
      obtain ⟨post, busy, other⟩ := disturbed
      obtain ⟨holder, mine⟩ := Option.ne_none_iff_exists'.mp busy
      obtain ⟨-, nonempty, result, called, rfl⟩ := next_piece step
      have filled := (apart.uploading holder mine).2
      have accumulated : state.accumulator =
          ⟨some (own holder (state.body holder)), (state.body holder).length⟩ := by
        rw [apart.accumulator, mine]
        rfl
      have returned := call_with_data nonempty post apart.sized called
      rw [accumulated] at returned
      cases allocated : answers.reallocOk with
      | true =>
          rw [allocated, if_pos rfl] at returned
          rw [returned]
          refine ⟨?_, by simp [Connections.settle, filled], ?_⟩
          · intro block present
            cases Option.some.inj present
            simp [Connections.settle, Accumulator.cells, own, tagged]
          · intro owner body same
            obtain ⟨part, rest, -, held, added⟩ := own_prefix (Option.some.inj same).symm
            have ofHolder : holder = owner :=
              own_owner filled fun cell member => by rw [← held]; exact member
            have ofRequest : request = owner :=
              own_owner nonempty fun cell member => by rw [← added]; exact member
            refine absurd allocated (other ?_)
            rw [mine, ofHolder, ofRequest]
      | false =>
          rw [allocated, if_neg (by simp)] at returned
          rw [returned]
          exact .lost (by simp [filled])

/-! ## Runs -/

theorem spoiled_run {method : Request → String} :
    ∀ (events : List (ConnectionEvent Request)) (state final : Connections Request),
      Spoiled state.accumulator →
      EachStep (Connections.next method) (OwnUpload method) events state →
      run (Connections.next method) events state = some final →
      Spoiled final.accumulator := by
  intro events
  induction events with
  | nil =>
      intro state final spoiled _ success
      cases Option.some.inj success
      exact spoiled
  | cons event rest ih =>
      intro state final spoiled owned success
      obtain ⟨middle, step, restRun⟩ := (run_cons_eq_some ..).mp success
      exact ih middle final (spoiled_step spoiled owned.1 step) (owned.2 middle step) restRun

theorem exclusive_run {method : Request → String} :
    ∀ (events : List (ConnectionEvent Request)) (current : Option Request)
      (state final : Connections Request), Apart method current state →
      run (Connections.next method) events state = some final →
      Exclusive method current events →
      EachStep (Connections.next method) (OwnUpload method) events state := by
  intro events
  induction events with
  | nil => intro current state final _ _ _; trivial
  | cons event rest ih =>
      intro current state final apart success exclusive
      obtain ⟨middle, step, restRun⟩ := (run_cons_eq_some ..).mp success
      refine ⟨apart_own apart exclusive.1 step, ?_⟩
      intro after again
      cases Option.some.inj (step.symm.trans again)
      exact ih _ middle final (apart_step apart exclusive.1 step) restRun exclusive.2

theorem exclusive_of_own {method : Request → String} :
    ∀ (events : List (ConnectionEvent Request)) (current : Option Request)
      (state final : Connections Request), Apart method current state →
      run (Connections.next method) events state = some final →
      final.accumulator.postDataSize = 0 →
      EachStep (Connections.next method) (OwnUpload method) events state →
      Exclusive method current events := by
  intro events
  induction events with
  | nil => intro current state final _ _ _ _; trivial
  | cons event rest ih =>
      intro current state final apart success clean owned
      obtain ⟨middle, step, restRun⟩ := (run_cons_eq_some ..).mp success
      have undisturbed : Undisturbed method current event := by
        by_contra disturbed
        have spoiled := spoiled_of_disturbed apart disturbed owned.1 step
        exact (spoiled_run rest middle final spoiled (owned.2 middle step) restRun).size clean
      exact ⟨undisturbed, ih _ middle final (apart_step apart undisturbed step) restRun clean
        (owned.2 middle step)⟩

/-- In every run in which no POST is disturbed while it is being uploaded, each
parse sees the body of its own request.  The condition is necessary in every
run that ends with nothing left over. -/
theorem uploads_kept_apart (method : Request → String)
    (events : List (ConnectionEvent Request)) (final : Connections Request)
    (success : run (Connections.next method) events .initial = some final) :
    (Exclusive method none events →
        EachStep (Connections.next method) (OwnUpload method) events .initial) ∧
      (final.accumulator.postDataSize = 0 →
        EachStep (Connections.next method) (OwnUpload method) events .initial →
        Exclusive method none events) :=
  ⟨exclusive_run events none .initial final (apart_initial method) success,
    exclusive_of_own events none .initial final (apart_initial method) success⟩

/-- Two uploads one after the other. -/
def successiveUploads : List (ConnectionEvent Nat) :=
  [.first 0 .allOk, .piece 0 [97] .allOk, .piece 0 [98] .allOk, .final 0 .allOk,
    .first 1 .allOk, .piece 1 [99] .allOk, .final 1 .allOk]

theorem uploads_kept_apart_successive :
    EachStep (Connections.next fun _ => "POST") (OwnUpload fun _ => "POST") successiveUploads
      .initial := by
  apply (uploads_kept_apart (fun _ => "POST") successiveUploads _ rfl).1
  simp [successiveUploads, Exclusive, Undisturbed, openUpload, Answers.allOk]

/-- Two uploads at the same time: the first final call parses both bodies. -/
def crossedUploads : List (ConnectionEvent Nat) :=
  [.first 0 .allOk, .first 1 .allOk, .piece 0 [97] .allOk, .piece 1 [98] .allOk,
    .final 0 .allOk]

theorem crossed_uploads_mix :
    (∃ final, run (Connections.next fun _ => "POST") crossedUploads .initial = some final) ∧
      ¬ EachStep (Connections.next fun _ => "POST") (OwnUpload fun _ => "POST")
        crossedUploads .initial := by
  refine ⟨⟨_, rfl⟩, ?_⟩
  intro owned
  have last := (eachStep_iff_split ..).mp owned
    [.first 0 .allOk, .first 1 .allOk, .piece 0 [97] .allOk, .piece 1 [98] .allOk]
    (.final 0 .allOk) [] _ rfl rfl
  obtain ⟨request, answers, same, block, -⟩ := last _ _ rfl rfl
  cases same
  revert block
  decide

end WebserverEthercat.Post

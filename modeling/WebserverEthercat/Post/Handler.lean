/-!
# The access handler

`handle_post_request` gathers the body of a POST in two static variables that
all connections share.  The bytes are of any type, so that a proof can follow
where each of them came from.
-/

set_option autoImplicit false

namespace WebserverEthercat.Post

variable {Byte Connection : Type}

/-- The static variables `post_data` and `post_data_size`.  A cell of the heap
block is `none` until something is copied to it. -/
structure Accumulator (Byte : Type) where
  postData : Option (List (Option Byte))
  postDataSize : Nat
deriving DecidableEq, Repr

def Accumulator.initial : Accumulator Byte := ⟨none, 0⟩

/-- What the allocator and libmicrohttpd answer during one call. -/
structure Answers where
  reallocOk : Bool
  createResponseOk : Bool
  queueResponseOk : Bool
  /-- the return value of `handle_get_request` and whether it queued a response -/
  get : Bool × Bool
deriving DecidableEq, Repr

def Answers.allOk : Answers := ⟨true, true, true, (true, true)⟩

structure HandlerResult (Byte Connection : Type) where
  accumulator : Accumulator Byte
  /-- the block that `parse_post_data` was called with -/
  parsed : Option (List (Option Byte))
  /-- the connection that a response was queued on -/
  queued : Option Connection
  /-- `true` for `MHD_YES` -/
  ret : Bool
deriving DecidableEq, Repr

/-- A successful `realloc`: the old cells as far as they fit, then fresh ones. -/
def realloc (block : Option (List (Option Byte))) (size : Nat) : List (Option Byte) :=
  (block.getD []).take size ++ List.replicate (size - (block.getD []).length) none

def memcpy (block : List (Option Byte)) (offset : Nat) (source : List Byte) :
    Option (List (Option Byte)) :=
  if offset + source.length ≤ block.length then
    some (block.take offset ++ source.map some ++ block.drop (offset + source.length))
  else none

def handlePostRequest (connection : Connection) (uploadData : List Byte) (answers : Answers)
    (accumulator : Accumulator Byte) : Option (HandlerResult Byte Connection) :=
  if uploadData.length ≠ 0 then
    if answers.reallocOk then
      let size := accumulator.postDataSize + uploadData.length
      (memcpy (realloc accumulator.postData size) accumulator.postDataSize uploadData).map
        fun block => ⟨⟨some block, size⟩, none, none, true⟩
    else
      -- `post_data` already holds the null pointer, `post_data_size` keeps its value
      some ⟨⟨none, accumulator.postDataSize⟩, none, none, false⟩
  else
    match accumulator.postData with
    | some block =>
        let queued := answers.createResponseOk && answers.queueResponseOk
        some ⟨.initial, some block, if queued then some connection else none, queued⟩
    | none => some ⟨accumulator, none, none, true⟩

def answerToConnection (connection : Connection) (method : String) (uploadData : List Byte)
    (answers : Answers) (accumulator : Accumulator Byte) :
    Option (HandlerResult Byte Connection) :=
  if method = "GET" then
    some ⟨accumulator, none, if answers.get.2 then some connection else none, answers.get.1⟩
  else if method = "POST" then
    handlePostRequest connection uploadData answers accumulator
  else some ⟨accumulator, none, none, true⟩

/-! ## One call -/

/-- The block has as many cells as `post_data_size` says. -/
def Accumulator.Sized (accumulator : Accumulator Byte) : Prop :=
  ∀ block, accumulator.postData = some block → block.length = accumulator.postDataSize

theorem Accumulator.initial_sized : (Accumulator.initial : Accumulator Byte).Sized := by
  intro block present
  cases present

/-- The cells that the next piece is put behind. -/
def Accumulator.cells (accumulator : Accumulator Byte) : List (Option Byte) :=
  accumulator.postData.getD (List.replicate accumulator.postDataSize none)

theorem Accumulator.length_cells {accumulator : Accumulator Byte} (sized : accumulator.Sized) :
    accumulator.cells.length = accumulator.postDataSize := by
  unfold Accumulator.cells
  cases present : accumulator.postData with
  | none => simp
  | some block => exact sized block present

theorem memcpy_realloc {accumulator : Accumulator Byte} (sized : accumulator.Sized)
    (uploadData : List Byte) :
    memcpy (realloc accumulator.postData (accumulator.postDataSize + uploadData.length))
        accumulator.postDataSize uploadData =
      some (accumulator.cells ++ uploadData.map some) := by
  have length := accumulator.length_cells sized
  have grown : realloc accumulator.postData (accumulator.postDataSize + uploadData.length) =
      accumulator.cells ++ List.replicate uploadData.length none := by
    unfold Accumulator.cells realloc
    cases present : accumulator.postData with
    | none => simp [List.replicate_append_replicate]
    | some block =>
        have here := sized block present
        simp [here, List.take_of_length_le]
  rw [grown, memcpy, if_pos (by simp [length])]
  simp [length]

theorem handlePostRequest_piece (connection : Connection) {uploadData : List Byte}
    (nonempty : uploadData ≠ []) {answers : Answers} (allocated : answers.reallocOk = true)
    {accumulator : Accumulator Byte} (sized : accumulator.Sized) :
    handlePostRequest connection uploadData answers accumulator =
      some ⟨⟨some (accumulator.cells ++ uploadData.map some),
        accumulator.postDataSize + uploadData.length⟩, none, none, true⟩ := by
  have size : uploadData.length ≠ 0 := by simpa using nonempty
  simp only [handlePostRequest, size, ne_eq, not_false_eq_true, if_true, allocated,
    memcpy_realloc sized, Option.map_some]

theorem handlePostRequest_refused (connection : Connection) {uploadData : List Byte}
    (nonempty : uploadData ≠ []) {answers : Answers} (refused : answers.reallocOk = false)
    (accumulator : Accumulator Byte) :
    handlePostRequest connection uploadData answers accumulator =
      some ⟨⟨none, accumulator.postDataSize⟩, none, none, false⟩ := by
  have size : uploadData.length ≠ 0 := by simpa using nonempty
  simp only [handlePostRequest, size, ne_eq, not_false_eq_true, if_true, refused,
    Bool.false_eq_true, if_false]

theorem handlePostRequest_nil (connection : Connection) (answers : Answers)
    (accumulator : Accumulator Byte) :
    handlePostRequest connection [] answers accumulator =
      match accumulator.postData with
      | some block => some ⟨.initial, some block,
          if answers.createResponseOk && answers.queueResponseOk then some connection else none,
          answers.createResponseOk && answers.queueResponseOk⟩
      | none => some ⟨accumulator, none, none, true⟩ := rfl

/-- No call writes outside its block, and the size stays the one of the block. -/
theorem handlePostRequest_sized (connection : Connection) (uploadData : List Byte)
    (answers : Answers) {accumulator : Accumulator Byte} (sized : accumulator.Sized) :
    ∃ result, handlePostRequest connection uploadData answers accumulator = some result ∧
      result.accumulator.Sized := by
  by_cases empty : uploadData = []
  · subst empty
    rw [handlePostRequest_nil]
    cases present : accumulator.postData with
    | none => exact ⟨_, rfl, sized⟩
    | some block => exact ⟨_, rfl, Accumulator.initial_sized⟩
  · cases allocated : answers.reallocOk with
    | true =>
        refine ⟨_, handlePostRequest_piece connection empty allocated sized, ?_⟩
        intro block present
        cases Option.some.inj present
        simp [accumulator.length_cells sized]
    | false =>
        refine ⟨_, handlePostRequest_refused connection empty allocated accumulator, ?_⟩
        intro block present
        cases present

theorem answerToConnection_other (connection : Connection) {method : String}
    (other : method ≠ "POST") (uploadData : List Byte) (answers : Answers)
    (accumulator : Accumulator Byte) :
    ∃ queued ret, answerToConnection connection method uploadData answers accumulator =
      some ⟨accumulator, none, queued, ret⟩ := by
  by_cases get : method = "GET"
  · exact ⟨_, _, by rw [answerToConnection, if_pos get]⟩
  · exact ⟨_, _, by rw [answerToConnection, if_neg get, if_neg other]⟩

theorem answerToConnection_post (connection : Connection) {method : String}
    (post : method = "POST") (uploadData : List Byte) (answers : Answers)
    (accumulator : Accumulator Byte) :
    answerToConnection connection method uploadData answers accumulator =
      handlePostRequest connection uploadData answers accumulator := by
  subst post
  rfl

theorem answerToConnection_sized (connection : Connection) (method : String)
    (uploadData : List Byte) (answers : Answers) {accumulator : Accumulator Byte}
    (sized : accumulator.Sized) :
    ∃ result, answerToConnection connection method uploadData answers accumulator =
      some result ∧ result.accumulator.Sized := by
  by_cases post : method = "POST"
  · rw [answerToConnection_post connection post]
    exact handlePostRequest_sized connection uploadData answers sized
  · obtain ⟨queued, ret, same⟩ :=
      answerToConnection_other connection post uploadData answers accumulator
    exact ⟨_, same, sized⟩

end WebserverEthercat.Post

import WebserverEthercat.Lib.WriteBack
import WebserverEthercat.Loop.Cycle

/-!
# Web updates against the cyclic exchange

The request thread stores into the output image while the cyclic thread sends,
receives and writes it.  Seen from one field, the image is a cell with a
delayed write-back.  The returning frame carries the field as it was sent, so
a post between a send and its receive is reverted.
-/

set_option autoImplicit false

namespace WebserverEthercat.WebUpdate

open EventMachine LoopState

/-- One action of either thread on the shared image. -/
inductive SharedAction where
  | loop (action : LoopAction)
  /-- one field assignment of `parse_key_value_festo_motor` -/
  | post (field : OutputField) (value : Int)
deriving DecidableEq, Repr

def performShared (image : ProcessImage) : SharedAction → ProcessImage
  | .loop action => image.perform action
  | .post field value => image.write field value

def performSchedule (image : ProcessImage) (schedule : List SharedAction) : ProcessImage :=
  schedule.foldl performShared image

def loopPart : SharedAction → Option LoopAction
  | .loop action => some action
  | .post _ _ => none

/-- A schedule interleaves the actions of a run of the cyclic thread with posts. -/
def Interleaves (schedule : List SharedAction) (actions : List LoopAction) : Prop :=
  schedule.filterMap loopPart = actions

/-- The fields that no step of the step machine assigns. -/
def WebOnly (field : OutputField) : Prop :=
  field = .targetTorque ∨ field = .velocityOffset ∨ field = .torqueOffset

/-- Once a post has stored a value, the image holds it in every later state,
and every later send carries it, until another post to the field. -/
def UpdateKept (image : ProcessImage) (schedule : List SharedAction) (field : OutputField) :
    Prop :=
  ∀ before value between after,
    schedule = before ++ .post field value :: (between ++ after) →
    (∀ other, .post field other ∉ between) →
    let later := performSchedule image (before ++ .post field value :: between)
    later.outputs.load field = field.converted value ∧
      ∀ sent, (later.perform .send).frame = some sent →
        sent.load field = field.converted value

/-! ## The loop does not see the posts -/

theorem schedule_same_inputs (schedule : List SharedAction) :
    ∀ first second : ProcessImage, first.inputs = second.inputs →
      first.frame.isSome = second.frame.isSome →
      (performSchedule first schedule).inputs =
          (second.performAll (schedule.filterMap loopPart)).inputs ∧
        (performSchedule first schedule).frame.isSome =
          (second.performAll (schedule.filterMap loopPart)).frame.isSome := by
  induction schedule with
  | nil => intro first second inputs frame; exact ⟨inputs, frame⟩
  | cons action rest ih =>
      intro first second inputs frame
      cases action with
      | post field value => exact ih (first.write field value) second inputs frame
      | loop action =>
          apply ih (first.perform action) (second.perform action)
          all_goals
            cases action with
            | send => first | exact inputs | rfl
            | write field value => first | exact inputs | exact frame
            | receive answer =>
                simp only [ProcessImage.perform, ProcessImage.ecReceiveProcessdata]
                cases firstFrame : first.frame <;> cases secondFrame : second.frame <;>
                  cases answer <;> simp_all

/-- Whatever is posted in between, the cyclic thread reads the inputs of its
own run: no post changes what the loop does. -/
theorem interleaved_inputs (events : List LoopEvent) (start final : LoopState)
    (success : run next events start = some final) (schedule : List SharedAction)
    (interleaves : Interleaves schedule (record next actions events start)) :
    (performSchedule start.image schedule).inputs = final.image.inputs := by
  rw [run_image events start final success, ← interleaves]
  exact (schedule_same_inputs schedule start.image start.image rfl rfl).1

/-! ## One field as a cell -/

def fieldCell (image : ProcessImage) (field : OutputField) : WriteBack.Cell Int :=
  ⟨image.outputs.load field, image.frame.map fun sent => sent.load field⟩

def fieldAction (field : OutputField) : SharedAction → WriteBack.Action Int
  | .loop .send => .send
  | .loop (.receive .lost) => .lost
  | .loop (.receive (.returned _ _)) => .back
  | .loop (.write other value) | .post other value =>
      if other = field then .post (field.converted value) else .skip

theorem fieldCell_write (image : ProcessImage) (field other : OutputField) (value : Int) :
    fieldCell (image.write other value) field =
      (fieldCell image field).perform
        (if other = field then .post (field.converted value) else .skip) := by
  by_cases same : other = field
  · subst same
    rw [if_pos rfl]
    simp only [fieldCell, ProcessImage.load_write_same]
    rfl
  · rw [if_neg same]
    simp only [fieldCell, image.load_write_other other field value (Ne.symm same)]
    rfl

/-- The image simulates the cell of each of its fields. -/
theorem fieldCell_performShared (image : ProcessImage) (field : OutputField)
    (action : SharedAction) :
    fieldCell (performShared image action) field =
      (fieldCell image field).perform (fieldAction field action) := by
  cases action with
  | post other value => exact fieldCell_write image field other value
  | loop action =>
      cases action with
      | send => rfl
      | write other value => exact fieldCell_write image field other value
      | receive answer =>
          obtain ⟨outputs, inputs, frame⟩ := image
          cases answer <;> cases frame <;> rfl

theorem fieldCell_performSchedule (field : OutputField) (schedule : List SharedAction) :
    ∀ image : ProcessImage,
      fieldCell (performSchedule image schedule) field =
        (fieldCell image field).performAll (schedule.map (fieldAction field)) := by
  induction schedule with
  | nil => intro image; rfl
  | cons action rest ih =>
      intro image
      have tail := ih (performShared image action)
      rw [fieldCell_performShared] at tail
      exact tail

theorem fieldAction_post {field : OutputField} {action : SharedAction} {held : Int}
    (webOnly : ∀ value, action ≠ .loop (.write field value))
    (posts : fieldAction field action = .post held) :
    ∃ value, action = .post field value ∧ held = field.converted value := by
  cases action with
  | post other value =>
      by_cases same : other = field
      · subst same
        simp only [fieldAction, if_pos, WriteBack.Action.post.injEq] at posts
        exact ⟨value, rfl, posts.symm⟩
      · simp [fieldAction, if_neg same] at posts
  | loop action =>
      cases action with
      | send => cases posts
      | receive answer => cases answer <;> cases posts
      | write other value =>
          by_cases same : other = field
          · subst same
            exact absurd rfl (webOnly value)
          · simp [fieldAction, if_neg same] at posts

/-- For a field that the loop does not write, the image keeps the updates
exactly when the cell of the field keeps its posts. -/
theorem updateKept_iff_kept (image : ProcessImage) (schedule : List SharedAction)
    (field : OutputField)
    (webOnly : ∀ action ∈ schedule, ∀ value, action ≠ .loop (.write field value)) :
    UpdateKept image schedule field ↔
      WriteBack.Kept (fieldCell image field) (schedule.map (fieldAction field)) := by
  constructor
  · intro kept before held between after split quiet
    obtain ⟨first, rest, rfl, firstIs, restIs⟩ := List.map_eq_append_iff.mp split
    obtain ⟨action, tail, rfl, actionIs, tailIs⟩ := List.map_eq_cons_iff.mp restIs
    obtain ⟨middle, last, rfl, middleIs, -⟩ := List.map_eq_append_iff.mp tailIs
    obtain ⟨value, rfl, rfl⟩ := fieldAction_post (webOnly action (by simp)) actionIs
    have quiet' : ∀ other, SharedAction.post field other ∉ middle := by
      intro other member
      apply quiet (field.converted other)
      rw [← middleIs]
      exact List.mem_map.mpr ⟨_, member, by simp [fieldAction]⟩
    have stored := (kept first value middle last rfl quiet').1
    have simulated := fieldCell_performSchedule field
      (first ++ .post field value :: middle) image
    rw [← firstIs, ← middleIs, ← actionIs, ← List.map_cons, ← List.map_append, ← simulated]
    exact stored
  · intro kept before value between after split quiet later
    have stored : later.outputs.load field = field.converted value := by
      have mapped : schedule.map (fieldAction field) =
          before.map (fieldAction field) ++ .post (field.converted value) ::
            (between.map (fieldAction field) ++ after.map (fieldAction field)) := by
        rw [split]
        simp [fieldAction]
      have quiet' : ∀ other, WriteBack.Action.post other ∉ between.map (fieldAction field) := by
        intro other member
        obtain ⟨action, here, posts⟩ := List.mem_map.mp member
        obtain ⟨again, rfl, -⟩ :=
          fieldAction_post (webOnly action (by rw [split]; simp [here])) posts
        exact quiet again here
      have held := kept _ _ _ _ mapped quiet'
      have simulated := fieldCell_performSchedule field
        (before ++ .post field value :: between) image
      have mapSplit : (before ++ .post field value :: between).map (fieldAction field) =
          before.map (fieldAction field) ++ .post (field.converted value) ::
            between.map (fieldAction field) := by
        simp [fieldAction]
      rw [mapSplit] at simulated
      rw [← simulated] at held
      exact held
    refine ⟨stored, ?_⟩
    intro sent flying
    cases Option.some.inj flying
    exact stored

/-! ## The actions of the loop -/

theorem configureTarget_not_webOnly (target : Int) :
    ∀ assignment ∈ configureTarget target, ¬ WebOnly assignment.1 := by
  intro assignment member
  simp only [configureTarget, List.mem_cons, List.not_mem_nil, or_false] at member
  rcases member with rfl | rfl | rfl | rfl | rfl <;> simp [WebOnly]

theorem evaluateSwitch_not_webOnly (step loopCounter : Int) (inputs : FestoMotorInputs)
    (expired : Bool) :
    ∀ assignment ∈ (evaluateSwitch step loopCounter inputs expired).writes,
      ¬ WebOnly assignment.1 := by
  have pair : ∀ word mode : Int, ∀ assignment ∈
      [(OutputField.controlWord, word), (OutputField.modesOfOperation, mode)],
      ¬ WebOnly assignment.1 := by
    intro word mode assignment member
    simp only [List.mem_cons, List.not_mem_nil, or_false] at member
    rcases member with rfl | rfl <;> simp [WebOnly]
  have single : ∀ word : Int, ∀ assignment ∈ [(OutputField.controlWord, word)],
      ¬ WebOnly assignment.1 := by
    intro word assignment member
    rw [List.mem_singleton.mp member]
    simp [WebOnly]
  have none : ∀ assignment ∈ ([] : List (OutputField × Int)), ¬ WebOnly assignment.1 := by
    simp
  unfold evaluateSwitch
  split
  case h_1 | h_4 => exact single _
  case h_2 | h_3 => exact pair _ _
  case h_5 =>
    split
    · exact pair _ _
    · exact none
  case h_6 | h_8 =>
    split
    · exact none
    · exact configureTarget_not_webOnly _
  case h_7 =>
    split
    · exact none
    · exact single _
  case h_9 =>
    split
    · exact none
    · split <;> exact single _
  case h_10 => exact none

theorem actions_not_webOnly (state : LoopState) (event : LoopEvent) (field : OutputField)
    (webOnly : WebOnly field) (value : Int) : .write field value ∉ state.actions event := by
  intro member
  cases event with
  | body now again =>
      simp only [actions] at member
      split at member
      · cases member
      · obtain ⟨assignment, here, same⟩ := List.mem_map.mp member
        cases same
        exact evaluateSwitch_not_webOnly _ _ _ _ assignment here webOnly
  | cycle answer =>
      simp only [actions] at member
      split at member <;> simp at member
  | start answer => simp [actions] at member
  | waitOp answer slaveState => simp [actions] at member
  | enter now => simp [actions] at member
  | recover answer states => simp [actions] at member

theorem record_not_webOnly (field : OutputField) (webOnly : WebOnly field) (value : Int) :
    ∀ (events : List LoopEvent) (state : LoopState),
      .write field value ∉ record next actions events state := by
  intro events
  induction events with
  | nil => intro state member; cases member
  | cons event rest ih =>
      intro state member
      rcases List.mem_append.mp member with here | later
      · exact actions_not_webOnly state event field webOnly value here
      · cases step : state.next event with
        | none => simp [step] at later
        | some after =>
            rw [step] at later
            exact ih after later

/-- For every run of the loop, every interleaving of posts and every field of
its own, the updates are kept exactly when no returning frame was sent before
the latest post with another value of the field. -/
theorem web_update_kept_iff (outputs : FestoMotorOutputs) (inputs : FestoMotorInputs)
    (outputsWKC inputsWKC : UInt16) (events : List LoopEvent) (schedule : List SharedAction)
    (interleaves : Interleaves schedule (record next actions events
      (LoopState.initial ⟨outputs, inputs, none⟩ outputsWKC inputsWKC)))
    (field : OutputField) (webOnly : WebOnly field) :
    UpdateKept ⟨outputs, inputs, none⟩ schedule field ↔
      WriteBack.NotOvertaken (fieldCell ⟨outputs, inputs, none⟩ field)
        (schedule.map (fieldAction field)) := by
  rw [← WriteBack.kept_iff_notOvertaken]
  apply updateKept_iff_kept _ schedule field
  rintro action member value rfl
  have writes : LoopAction.write field value ∈ schedule.filterMap loopPart :=
    List.mem_filterMap.mpr ⟨_, member, rfl⟩
  rw [interleaves] at writes
  exact record_not_webOnly field webOnly value events _ writes

/-- A torque posted while the first frame is in flight is lost. -/
theorem posted_torque_lost :
    let start := LoopState.initial .zero 1 1
    let schedule : List SharedAction := [.loop .send, .post .targetTorque 7,
      .loop (.receive (.returned 3 .zero))]
    (∃ final, run next [.start (.returned 3 .zero)] start = some final) ∧
      Interleaves schedule (record next actions [.start (.returned 3 .zero)] start) ∧
      ¬ UpdateKept .zero schedule .targetTorque := by
  refine ⟨⟨_, rfl⟩, rfl, ?_⟩
  intro kept
  have held := (kept [.loop .send] 7 [.loop (.receive (.returned 3 .zero))] [] rfl (by simp)).1
  revert held
  decide

theorem web_update_kept_iff_after_receive :
    UpdateKept .zero [.loop .send, .loop (.receive (.returned 3 .zero)),
      .post .targetTorque 7] .targetTorque := by
  refine (web_update_kept_iff .zero .zero 1 1 [.start (.returned 3 .zero)]
    [.loop .send, .loop (.receive (.returned 3 .zero)), .post .targetTorque 7] rfl
    .targetTorque (.inl rfl)).mpr ?_
  intro before value between after sent split
  rcases before with _ | ⟨first, _ | ⟨second, _ | ⟨third, rest⟩⟩⟩ <;>
    simp [fieldAction] at split

end WebserverEthercat.WebUpdate

import Mathlib.Data.List.Induction

/-!
# A cell with a delayed write-back

A cell is copied when it is sent, and the copy overwrites the cell when it
comes back.  Posts to the cell may fall in between.  A schedule keeps its posts
exactly when no post is overtaken: the copy that comes back after a post, with
no other post, send or loss between, already carried the posted value.
-/

set_option autoImplicit false

namespace WriteBack

variable {Value : Type}

structure Cell (Value : Type) where
  current : Value
  inFlight : Option Value

inductive Action (Value : Type) where
  | send
  | back
  | lost
  | post (value : Value)
  | skip

def Cell.perform (cell : Cell Value) : Action Value → Cell Value
  | .send => { cell with inFlight := some cell.current }
  | .back => ⟨cell.inFlight.getD cell.current, none⟩
  | .lost => { cell with inFlight := none }
  | .post value => { cell with current := value }
  | .skip => cell

def Cell.performAll (cell : Cell Value) (schedule : List (Action Value)) : Cell Value :=
  schedule.foldl perform cell

theorem Cell.performAll_append (cell : Cell Value) (first second : List (Action Value)) :
    cell.performAll (first ++ second) = (cell.performAll first).performAll second := by
  simp [performAll]

theorem Cell.performAll_snoc (cell : Cell Value) (before between : List (Action Value))
    (value : Value) (last : Action Value) :
    cell.performAll (before ++ .post value :: (between ++ [last])) =
      (cell.performAll (before ++ .post value :: between)).perform last := by
  rw [← List.cons_append, ← List.append_assoc, Cell.performAll_append]
  rfl

theorem Cell.performAll_skips (cell : Cell Value) :
    ∀ schedule : List (Action Value), (∀ action ∈ schedule, action = .skip) →
      cell.performAll schedule = cell := by
  intro schedule
  induction schedule with
  | nil => intro _; rfl
  | cons action rest ih =>
      intro skips
      rw [skips action List.mem_cons_self]
      exact ih fun other member => skips other (List.mem_cons_of_mem _ member)

theorem Cell.performAll_post (cell : Cell Value) (before between : List (Action Value))
    (value : Value) (skips : ∀ action ∈ between, action = .skip) :
    cell.performAll (before ++ .post value :: between) =
      { cell.performAll before with current := value } := by
  rw [Cell.performAll_append]
  exact ((cell.performAll before).perform (.post value)).performAll_skips between skips

/-- After every post the cell holds the value until the next post. -/
def Kept (cell : Cell Value) (schedule : List (Action Value)) : Prop :=
  ∀ before value between after, schedule = before ++ .post value :: (between ++ after) →
    (∀ other, .post other ∉ between) →
    (cell.performAll (before ++ .post value :: between)).current = value

/-- No copy with another value comes back right after a post. -/
def NotOvertaken (cell : Cell Value) (schedule : List (Action Value)) : Prop :=
  ∀ before value between after sent,
    schedule = before ++ .post value :: (between ++ .back :: after) →
    (∀ action ∈ between, action = .skip) →
    (cell.performAll before).inFlight = some sent → sent = value

/-- What is in flight since a post: nothing, the posted value, or still the
copy from before the post. -/
structure SincePost (cell : Cell Value) (before : List (Action Value)) (value : Value)
    (between : List (Action Value)) : Prop where
  current : (cell.performAll (before ++ .post value :: between)).current = value
  inFlight : ∀ sent, (cell.performAll (before ++ .post value :: between)).inFlight = some sent →
    sent = value ∨
      (cell.performAll before).inFlight = some sent ∧ ∀ action ∈ between, action = .skip

theorem sincePost_of_notOvertaken {cell : Cell Value} {schedule : List (Action Value)}
    (safe : NotOvertaken cell schedule) (before : List (Action Value)) (value : Value) :
    ∀ between after, schedule = before ++ .post value :: (between ++ after) →
      (∀ other, .post other ∉ between) → SincePost cell before value between := by
  intro between
  induction between using List.reverseRecOn with
  | nil =>
      intro after split _
      constructor
      · rw [Cell.performAll_append]
        rfl
      · intro sent flying
        rw [Cell.performAll_append] at flying
        exact .inr ⟨flying, by simp⟩
  | append_singleton between action ih =>
      intro after split quiet
      have since := ih (action :: after) (by rw [split]; simp)
        fun other member => quiet other (List.mem_append_left _ member)
      have last := cell.performAll_snoc before between value action
      cases action with
      | send =>
          refine ⟨by rw [last]; exact since.current, ?_⟩
          intro sent flying
          rw [last] at flying
          exact .inl ((Option.some.inj flying).symm.trans since.current)
      | back =>
          refine ⟨?_, by intro sent flying; rw [last] at flying; cases flying⟩
          rw [last]
          simp only [Cell.perform]
          cases flying : (cell.performAll (before ++ .post value :: between)).inFlight with
          | none => exact since.current
          | some sent =>
              rcases since.inFlight sent flying with same | ⟨old, skips⟩
              · exact same
              · exact safe before value between after sent (by rw [split]; simp) skips old
      | lost =>
          refine ⟨by rw [last]; exact since.current, ?_⟩
          intro sent flying
          rw [last] at flying
          cases flying
      | post other =>
          exact absurd (List.mem_append_right between List.mem_cons_self) (quiet other)
      | skip =>
          refine ⟨by rw [last]; exact since.current, ?_⟩
          intro sent flying
          rw [last] at flying
          rcases since.inFlight sent flying with same | ⟨old, skips⟩
          · exact .inl same
          · refine .inr ⟨old, ?_⟩
            intro action member
            rcases List.mem_append.mp member with early | here
            · exact skips action early
            · exact List.mem_singleton.mp here

theorem kept_iff_notOvertaken (cell : Cell Value) (schedule : List (Action Value)) :
    Kept cell schedule ↔ NotOvertaken cell schedule := by
  constructor
  · intro kept before value between after sent split skips flying
    have quiet : ∀ other, Action.post other ∉ between ++ [.back] := by
      intro other member
      rcases List.mem_append.mp member with early | here
      · cases skips _ early
      · cases List.mem_singleton.mp here
    have held := kept before value (between ++ [.back]) after (by rw [split]; simp) quiet
    rw [Cell.performAll_snoc, Cell.performAll_post cell before between value skips] at held
    simp only [Cell.perform, flying, Option.getD_some] at held
    exact held
  · intro safe before value between after split quiet
    exact (sincePost_of_notOvertaken safe before value between after split quiet).current

end WriteBack

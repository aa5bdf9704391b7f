import Mathlib.Data.List.Basic
import Mathlib.Order.Bounds.Basic

/-!
# Counting alternations

Two tests say which elements of a list end the way out and which the way back.
A round trip is an element of the first kind with one of the second kind
somewhere behind it.  `completed` counts them with one bit of memory, as a
machine with two phases does, and no other choice of trips gives more.
-/

set_option autoImplicit false

namespace Alternation

variable {α : Type} (out back : α → Bool)

structure Trip where
  first : α
  second : α
  goesOut : out first = true
  comesBack : back second = true

variable {out back} in
def Trip.elements (trip : Trip out back) : List α := [trip.first, trip.second]

/-- `count` round trips can be found one behind the other. -/
def Contains (elements : List α) (count : Nat) : Prop :=
  ∃ trips : List (Trip out back), trips.length = count ∧
    (trips.flatMap Trip.elements).Sublist elements

/-- Whether a way back is awaited behind the list. -/
def awayAfter : Bool → List α → Bool
  | away, [] => away
  | false, element :: rest => awayAfter (out element) rest
  | true, element :: rest => awayAfter (!back element) rest

def completed : Bool → List α → Nat
  | _, [] => 0
  | false, element :: rest => completed (out element) rest
  | true, element :: rest =>
      (if back element then 1 else 0) + completed (!back element) rest

/-! ## One more element -/

theorem awayAfter_snoc (elements : List α) (last : α) : ∀ away : Bool,
    awayAfter out back away (elements ++ [last]) =
      if awayAfter out back away elements then !back last else out last := by
  induction elements with
  | nil => intro away; cases away <;> rfl
  | cons element rest ih =>
      intro away
      cases away with
      | false => exact ih (out element)
      | true => exact ih (!back element)

theorem completed_snoc (elements : List α) (last : α) : ∀ away : Bool,
    completed out back away (elements ++ [last]) =
      completed out back away elements +
        if awayAfter out back away elements && back last then 1 else 0 := by
  induction elements with
  | nil => intro away; cases away <;> simp [completed, awayAfter]
  | cons element rest ih =>
      intro away
      cases away with
      | false => exact ih (out element)
      | true =>
          rw [List.cons_append, completed, ih, completed, awayAfter]
          exact (Nat.add_assoc ..).symm

/-! ## The count is the greatest -/

variable {out back}

theorem Contains.cons {elements : List α} {count : Nat} (contains : Contains out back elements count)
    (element : α) : Contains out back (element :: elements) count := by
  obtain ⟨trips, length, inside⟩ := contains
  exact ⟨trips, length, inside.cons element⟩

/-- What is found away starts with a way out that was made before. -/
theorem contains_completed (elements : List α) :
    Contains out back elements (completed out back false elements) ∧
      ∀ start, out start = true →
        Contains out back (start :: elements) (completed out back true elements) := by
  induction elements with
  | nil => exact ⟨⟨[], rfl, List.Sublist.slnil⟩, fun start _ => ⟨[], rfl, List.nil_sublist _⟩⟩
  | cons element rest ih =>
      obtain ⟨home, away⟩ := ih
      constructor
      · cases goes : out element with
        | true =>
            rw [completed, goes]
            exact away element goes
        | false =>
            rw [completed, goes]
            exact home.cons element
      · intro start goes
        cases comes : back element with
        | true =>
            obtain ⟨trips, length, inside⟩ := home
            refine ⟨⟨start, element, goes, comes⟩ :: trips, ?_, ?_⟩
            · simp [completed, comes, length, Nat.add_comm]
            · exact (inside.cons_cons element).cons_cons start
        | false =>
            obtain ⟨trips, length, inside⟩ := away start goes
            refine ⟨trips, by simp [completed, comes, length], ?_⟩
            exact inside.trans ((List.sublist_cons_self element rest).cons_cons start)

/-- The induction is on the list; the second part has used the way out of the next trip. -/
theorem completed_bound (elements : List α) :
    (∀ trips : List (Trip out back), (trips.flatMap Trip.elements).Sublist elements →
      trips.length ≤ completed out back false elements) ∧
    ∀ (trips : List (Trip out back)) (second : α), back second = true →
      (second :: trips.flatMap Trip.elements).Sublist elements →
        trips.length + 1 ≤ completed out back true elements := by
  induction elements with
  | nil =>
      constructor
      · intro trips inside
        cases trips with
        | nil => exact Nat.le_refl 0
        | cons trip trips => cases inside
      · intro trips second _ inside
        cases inside
  | cons element rest ih =>
      obtain ⟨home, away⟩ := ih
      constructor
      · intro trips inside
        cases trips with
        | nil => exact Nat.zero_le _
        | cons trip trips =>
            cases inside with
            | cons _ later =>
                cases goes : out element with
                | true =>
                    rw [completed, goes]
                    exact away trips trip.second trip.comesBack (List.sublist_of_cons_sublist later)
                | false =>
                    rw [completed, goes]
                    exact home (trip :: trips) later
            | cons_cons _ later =>
                rw [completed, trip.goesOut]
                exact away trips trip.second trip.comesBack later
      · intro trips second comes inside
        cases inside with
        | cons _ later =>
            cases comesHere : back element with
            | true =>
                have bound := home trips (List.sublist_of_cons_sublist later)
                simp only [completed, comesHere, if_true, Bool.not_true]
                omega
            | false =>
                have bound := away trips second comes later
                simpa [completed, comesHere] using bound
        | cons_cons _ later =>
            have bound := home trips later
            simp only [completed, comes, if_true, Bool.not_true]
            omega

theorem completed_isGreatest (elements : List α) :
    IsGreatest {count | Contains out back elements count} (completed out back false elements) := by
  refine ⟨(contains_completed elements).1, ?_⟩
  rintro count ⟨trips, rfl, inside⟩
  exact (completed_bound elements).1 trips inside

end Alternation

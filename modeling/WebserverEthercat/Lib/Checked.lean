import Mathlib.Algebra.Ring.Int.Defs
import WebserverEthercat.Lib.Loops

/-!
# Checked operations of imperative code

Tables of a fixed size whose accesses fail outside of it, and sums of `int`s that
fail on overflow.  A loop over such operations runs to its end when each turn
does, and is then simulated by the loop over tables without limits.
-/

set_option autoImplicit false

namespace Checked

/-! ## Tables -/

section Tables

variable {size : Nat} {Value : Type}

def load (table : Vector Value size) (cell : UInt16) : Option Value := table[cell.toNat]?

def store (table : Vector Value size) (cell : UInt16) (value : Value) :
    Option (Vector Value size) :=
  if inside : cell.toNat < size then some (table.set cell.toNat value inside) else none

/-- The table has the values of a function. -/
def Holds (table : Vector Value size) (values : UInt16 → Value) : Prop :=
  ∀ cell : UInt16, cell.toNat < size → load table cell = some (values cell)

theorem Holds.store {table : Vector Value size} {values : UInt16 → Value} {cell : UInt16}
    (holds : Holds table values) (inside : cell.toNat < size) (value : Value) :
    ∃ stored, Checked.store table cell value = some stored ∧
      Holds stored fun other => if other = cell then value else values other := by
  refine ⟨_, dif_pos inside, fun other otherInside => ?_⟩
  have before := holds other otherInside
  rw [load, Vector.getElem?_eq_getElem otherInside] at before ⊢
  rw [Vector.getElem_set]
  by_cases same : other = cell
  · simp [same]
  · have different : cell.toNat ≠ other.toNat := fun equal => same (UInt16.toNat_inj.mp equal).symm
    simpa [same, different] using before

theorem Holds.fill (value : Value) (cells : List UInt16) :
    ∀ {table : Vector Value size} {values : UInt16 → Value},
      (∀ cell ∈ cells, cell.toNat < size) → Holds table values →
      ∃ filled, cells.foldlM (fun table cell => Checked.store table cell value) table =
          some filled ∧
        Holds filled fun other => if other ∈ cells then value else values other := by
  induction cells with
  | nil =>
      intro table values _ holds
      exact ⟨table, rfl, by simpa using holds⟩
  | cons cell cells ih =>
      intro table values inside holds
      obtain ⟨here, rest⟩ := List.forall_mem_cons.mp inside
      obtain ⟨stored, ran, holdsStored⟩ := holds.store here value
      obtain ⟨filled, filledRan, holdsFilled⟩ := ih rest holdsStored
      refine ⟨filled, by rw [List.foldlM_cons, ran]; exact filledRan, fun other otherInside => ?_⟩
      rw [holdsFilled other otherInside]
      by_cases later : other ∈ cells
      · simp [later]
      · simp [later]

end Tables

/-! ## `int` -/

def intMin : Int := -2 ^ 31
def intMax : Int := 2 ^ 31 - 1

def addInt (first second : Int) : Option Int :=
  if intMin ≤ first + second ∧ first + second ≤ intMax then some (first + second) else none

/-! ## Loops -/

section Loops

variable {State Other : Type}

/-- `do { body } while (again)` with a body that can fail, for at most `turns` turns. -/
def doWhile (body : State → Option State) (again : State → Bool) : Nat → State → Option State
  | 0, _ => none
  | turns + 1, state => do
      let next ← body state
      if again next then doWhile body again turns next else some next

/-- `for (i = 0; i < turns; i++) body` -/
def times (body : State → Option State) : Nat → State → Option State
  | 0, state => some state
  | turns + 1, state => do times body turns (← body state)

theorem times_simulates {body : State → Option State} {otherBody : Other → Other}
    {Related : Nat → State → Other → Prop}
    (step : ∀ left state other, Related (left + 1) state other →
      ∃ next, body state = some next ∧ Related left next (otherBody other)) :
    ∀ (turns : Nat) (state : State) (other : Other), Related turns state other →
      ∃ last, times body turns state = some last ∧ Related 0 last (otherBody^[turns] other) := by
  intro turns
  induction turns with
  | zero =>
      intro state other related
      exact ⟨state, rfl, related⟩
  | succ turns ih =>
      intro state other related
      obtain ⟨next, ran, nextRelated⟩ := step turns state other related
      obtain ⟨last, ends, lastRelated⟩ := ih next (otherBody other) nextRelated
      exact ⟨last, by simp only [times, ran, Option.bind_eq_bind, Option.bind_some]; exact ends,
        lastRelated⟩

/-- A loop that is `Ready` for a turn as long as turns are left, and `Done` behind each one. -/
theorem doWhile_simulates {body : State → Option State} {again : State → Bool}
    {otherBody : Other → Other} {otherAgain : Other → Bool}
    {Ready Done : Nat → State → Other → Prop}
    (step : ∀ left state other, Ready (left + 1) state other →
      ∃ next, body state = some next ∧ Done left next (otherBody other))
    (test : ∀ left state other, Done left state other → again state = otherAgain other)
    (ready : ∀ left state other, Done left state other → again state = true →
      0 < left ∧ Ready left state other) :
    ∀ (turns : Nat) (state : State) (other : Other), Ready (turns + 1) state other →
      ∃ left last otherLast, doWhile body again (turns + 1) state = some last ∧
        Loops.doWhile otherBody otherAgain (turns + 1) other = some otherLast ∧
        Done left last otherLast := by
  intro turns
  induction turns with
  | zero =>
      intro state other isReady
      obtain ⟨next, ran, isDone⟩ := step 0 state other isReady
      have stops : again next = false := by
        cases more : again next with
        | false => rfl
        | true => exact absurd (ready 0 next _ isDone more).1 (Nat.lt_irrefl 0)
      have same := test 0 next _ isDone
      exact ⟨0, next, otherBody other, by simp [doWhile, ran, stops],
        by simp [Loops.doWhile, ← same, stops], isDone⟩
  | succ turns ih =>
      intro state other isReady
      obtain ⟨next, ran, isDone⟩ := step (turns + 1) state other isReady
      have same := test _ next _ isDone
      cases more : again next with
      | false =>
          exact ⟨turns + 1, next, otherBody other, by simp [doWhile, ran, more],
            by simp [Loops.doWhile, ← same, more], isDone⟩
      | true =>
          obtain ⟨left, last, otherLast, ends, otherEnds, lastDone⟩ :=
            ih next (otherBody other) (ready _ next _ isDone more).2
          refine ⟨left, last, otherLast, ?_, ?_, lastDone⟩
          · rw [doWhile]
            simpa [ran, more] using ends
          · rw [Loops.doWhile]
            simpa [← same, more] using otherEnds

end Loops

end Checked

import Mathlib.Logic.Function.Iterate

/-!
# Loops of imperative code

A `do .. while` loop and a counted `for` loop over an explicit state, with a
bound on the turns: `none` means that the bound was too small.  The rules are
termination by a rank, an invariant, and the simulation of one loop by another.
-/

set_option autoImplicit false

namespace Loops

variable {State Other : Type}

/-- `do { body } while (again)`, for at most `turns` turns. -/
def doWhile (body : State → State) (again : State → Bool) : Nat → State → Option State
  | 0, _ => none
  | turns + 1, state =>
      if again (body state) then doWhile body again turns (body state) else some (body state)

theorem doWhile_ends {body : State → State} {again : State → Bool} (rank : State → Nat)
    (falls : ∀ state, again (body state) = true → rank (body state) < rank state) :
    ∀ (turns : Nat) (state : State), rank state < turns →
      ∃ last, doWhile body again turns state = some last := by
  intro turns
  induction turns with
  | zero =>
      intro state small
      omega
  | succ turns ih =>
      intro state small
      cases more : again (body state) with
      | false => exact ⟨body state, by simp [doWhile, more]⟩
      | true =>
          have lower := falls state more
          obtain ⟨last, ends⟩ := ih (body state) (by omega)
          exact ⟨last, by simpa [doWhile, more] using ends⟩

theorem doWhile_invariant {body : State → State} {again : State → Bool} {Holds : State → Prop}
    (step : ∀ state, Holds state → Holds (body state)) :
    ∀ (turns : Nat) (state last : State), Holds state →
      doWhile body again turns state = some last → Holds last := by
  intro turns
  induction turns with
  | zero =>
      intro state last _ ends
      cases ends
  | succ turns ih =>
      intro state last holds ends
      have next := step state holds
      cases more : again (body state) with
      | false =>
          simp only [doWhile, more, Bool.false_eq_true, if_false, Option.some.injEq] at ends
          exact ends ▸ next
      | true =>
          simp only [doWhile, more, if_true] at ends
          exact ih (body state) last next ends

/-- `while (again) body` -/
def whileDo (body : State → State) (again : State → Bool) (turns : Nat) (state : State) :
    Option State :=
  if again state then doWhile body again turns state else some state

theorem doWhile_stops {body : State → State} {again : State → Bool} :
    ∀ (turns : Nat) (state last : State),
      doWhile body again turns state = some last → again last = false := by
  intro turns
  induction turns with
  | zero =>
      intro state last ends
      cases ends
  | succ turns ih =>
      intro state last ends
      cases more : again (body state) with
      | false =>
          simp only [doWhile, more, Bool.false_eq_true, if_false, Option.some.injEq] at ends
          exact ends ▸ more
      | true =>
          simp only [doWhile, more, if_true] at ends
          exact ih (body state) last ends

/-- A `while` loop whose body lowers a rank ends, with its test false and with what its body
keeps. -/
theorem whileDo_ends {body : State → State} {again : State → Bool} (rank : State → Nat)
    (falls : ∀ state, again (body state) = true → rank (body state) < rank state)
    {Holds : State → Prop} (step : ∀ state, Holds state → Holds (body state))
    {turns : Nat} {state : State} (enough : rank state < turns) (holds : Holds state) :
    ∃ last, whileDo body again turns state = some last ∧ again last = false ∧ Holds last := by
  cases more : again state with
  | false => exact ⟨state, by simp [whileDo, more], more, holds⟩
  | true =>
      obtain ⟨last, ends⟩ := doWhile_ends rank falls turns state enough
      have stopped := doWhile_stops turns state last ends
      exact ⟨last, by simpa [whileDo, more] using ends, stopped,
        doWhile_invariant step turns state last holds ends⟩

/-- More turns than are needed change nothing. -/
theorem doWhile_mono {body : State → State} {again : State → Bool} :
    ∀ {turns more : Nat} {state last : State}, turns ≤ more →
      doWhile body again turns state = some last → doWhile body again more state = some last := by
  intro turns
  induction turns with
  | zero =>
      intro more state last _ ends
      cases ends
  | succ turns ih =>
      intro more state last enough ends
      obtain ⟨more, rfl⟩ : ∃ left, more = left + 1 := ⟨more - 1, by omega⟩
      rw [doWhile] at ends ⊢
      split
      case isTrue goesOn =>
        rw [if_pos goesOn] at ends
        exact ih (Nat.le_of_succ_le_succ enough) ends
      case isFalse stops =>
        rw [if_neg stops] at ends
        exact ends

/-- Two loops whose bodies keep a relation and whose tests agree on it end together. -/
theorem doWhile_simulates {body : State → State} {again : State → Bool}
    {otherBody : Other → Other} {otherAgain : Other → Bool} {Related : State → Other → Prop}
    (step : ∀ state other, Related state other → Related (body state) (otherBody other))
    (test : ∀ state other, Related state other → again state = otherAgain other) :
    ∀ (turns : Nat) (state last : State) (other : Other), Related state other →
      doWhile body again turns state = some last →
      ∃ otherLast, doWhile otherBody otherAgain turns other = some otherLast ∧
        Related last otherLast := by
  intro turns
  induction turns with
  | zero =>
      intro state last other _ ends
      cases ends
  | succ turns ih =>
      intro state last other related ends
      have next := step state other related
      have same := test (body state) (otherBody other) next
      cases more : again (body state) with
      | false =>
          simp only [doWhile, more, Bool.false_eq_true, if_false, Option.some.injEq] at ends
          subst ends
          exact ⟨otherBody other, by simp [doWhile, ← same, more], next⟩
      | true =>
          simp only [doWhile, more, if_true] at ends
          obtain ⟨otherLast, otherEnds, related⟩ := ih (body state) last (otherBody other) next ends
          exact ⟨otherLast, by simpa [doWhile, ← same, more] using otherEnds, related⟩

theorem iterate_simulates {body : State → State} {otherBody : Other → Other}
    {Related : State → Other → Prop}
    (step : ∀ state other, Related state other → Related (body state) (otherBody other)) :
    ∀ (turns : Nat) (state : State) (other : Other), Related state other →
      Related (body^[turns] state) (otherBody^[turns] other) := by
  intro turns
  induction turns with
  | zero =>
      intro state other related
      exact related
  | succ turns ih =>
      intro state other related
      exact ih (body state) (otherBody other) (step state other related)

/-- `for (i = 1; i <= last; i++) body(i)` with a counter that cannot wrap. -/
def upTo (last : Nat) (body : State → Nat → State) (state : State) : State :=
  (List.range' 1 last).foldl body state

/-- A loop each turn of which adds to a log. -/
theorem foldl_log {Item Entry : Type} {body : State → Item → State} (log : State → List Entry)
    (added : Item → List Entry)
    (step : ∀ state item, log (body state item) = log state ++ added item) (items : List Item) :
    ∀ state, log (items.foldl body state) = log state ++ items.flatMap added := by
  induction items with
  | nil => simp
  | cons item items ih =>
      intro state
      rw [List.foldl_cons, ih, step, List.flatMap_cons, List.append_assoc]

/-- `for (i = first; i <= last; i++) body(i)` with a 16-bit counter, for at most `turns`
turns. -/
def countTo (body : State → UInt16 → State) (last : UInt16) :
    Nat → UInt16 → State → Option State
  | 0, _, _ => none
  | turns + 1, counter, state =>
      if counter ≤ last then countTo body last turns (counter + 1) (body state counter)
      else some state

/-- A counted loop seen through a part of its state. -/
theorem countTo_map (body : State → UInt16 → State) (partBody : Other → UInt16 → Other)
    (part : State → Other)
    (step : ∀ state counter, part (body state counter) = partBody (part state) counter)
    (last : UInt16) :
    ∀ (turns : Nat) (counter : UInt16) (state : State),
      (countTo body last turns counter state).map part =
        countTo partBody last turns counter (part state) := by
  intro turns
  induction turns with
  | zero => exact fun _ _ => rfl
  | succ turns ih =>
      intro counter state
      rw [countTo, countTo]
      split
      · rw [ih, step]
      · rfl

def counters (first count : Nat) : List UInt16 := (List.range' first count).map UInt16.ofNat

theorem mem_counters {first count : Nat} (small : first + count ≤ 65536) {counter : UInt16} :
    counter ∈ counters first count ↔ first ≤ counter.toNat ∧ counter.toNat < first + count := by
  rw [counters, List.mem_map]
  constructor
  · rintro ⟨value, member, rfl⟩
    have inRange := List.mem_range'_1.mp member
    rw [UInt16.toNat_ofNat', Nat.mod_eq_of_lt (by omega)]
    exact inRange
  · intro inRange
    exact ⟨counter.toNat, List.mem_range'_1.mpr inRange, UInt16.ofNat_toNat⟩

theorem countTo_eq_foldl (body : State → UInt16 → State) {last : UInt16}
    (wrapless : last ≠ 65535) :
    ∀ (turns first : Nat) (state : State), first ≤ last.toNat + 1 →
      last.toNat + 1 - first < turns →
      countTo body last turns (UInt16.ofNat first) state =
        some ((counters first (last.toNat + 1 - first)).foldl body state) := by
  have below : last.toNat < 65535 := by
    have bound := last.toNat_lt
    have different : last.toNat ≠ 65535 := fun same => wrapless (UInt16.toNat_inj.mp same)
    omega
  intro turns
  induction turns with
  | zero =>
      intro first state _ enough
      omega
  | succ turns ih =>
      intro first state inRange enough
      have counter : (UInt16.ofNat first).toNat = first := by
        rw [UInt16.toNat_ofNat']
        omega
      rw [countTo]
      by_cases done : first = last.toNat + 1
      · have beyond : ¬ UInt16.ofNat first ≤ last := by
          rw [UInt16.le_iff_toNat_le, counter]
          omega
        rw [if_neg beyond, done, Nat.sub_self]
        rfl
      · have inside : UInt16.ofNat first ≤ last := by
          rw [UInt16.le_iff_toNat_le, counter]
          omega
        have count : last.toNat + 1 - first = (last.toNat + 1 - (first + 1)) + 1 := by omega
        have step : UInt16.ofNat first + 1 = UInt16.ofNat (first + 1) := by
          rw [UInt16.ofNat_add]
          rfl
        rw [if_pos inside, step, ih (first + 1) _ (by omega) (by omega), count]
        rfl

/-- `if (last > 0) for (i = 1; i <= last; i++) body(i)` -/
theorem countTo_whole (body : State → UInt16 → State) {last : UInt16} (wrapless : last ≠ 65535)
    (state : State) :
    (if last > 0 then countTo body last 65536 1 state else some state) =
      some ((counters 1 last.toNat).foldl body state) := by
  have bound := last.toNat_lt
  have whole := countTo_eq_foldl body wrapless 65536 1 state (by omega) (by omega)
  rw [Nat.add_sub_cancel] at whole
  split
  · exact whole
  case isFalse none =>
    rw [UInt16.le_zero_iff.mp (UInt16.not_lt.mp none)]
    rfl

/-- A counter that never exceeds its limit. -/
theorem countTo_endless (body : State → UInt16 → State) :
    ∀ (turns : Nat) (counter : UInt16) (state : State),
      countTo body 65535 turns counter state = none := by
  intro turns
  induction turns with
  | zero => exact fun _ _ => rfl
  | succ turns ih =>
      intro counter state
      have inside : counter ≤ 65535 := by
        rw [UInt16.le_iff_toNat_le]
        have bound := counter.toNat_lt
        exact Nat.le_of_lt_succ bound
      rw [countTo, if_pos inside]
      exact ih (counter + 1) (body state counter)

end Loops

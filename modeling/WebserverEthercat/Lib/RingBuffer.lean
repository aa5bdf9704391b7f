import Mathlib.Algebra.Group.Fin.Basic
import Mathlib.Data.Fin.Basic
import Mathlib.Algebra.Group.Basic
import Mathlib.Tactic.Tauto

/-!
# A ring buffer that forgets its oldest element

`slots` positions in a circle: elements are written at `head` and read at
`tail`, and the ring is empty when the two meet, so it keeps at most one element
less than it has slots.  A push into a full ring moves `tail` on.  The contents
are the abstract view; a push appends to them and a pop takes their first.
-/

set_option autoImplicit false

structure RingBuffer (α : Type) (capacity : Nat) where
  head : Fin (capacity + 1)
  tail : Fin (capacity + 1)
  slots : Fin (capacity + 1) → α

namespace RingBuffer

variable {α : Type} {capacity : Nat}

def push (ring : RingBuffer α capacity) (element : α) : RingBuffer α capacity :=
  { head := ring.head + 1
    tail := if ring.head + 1 = ring.tail then ring.tail + 1 else ring.tail
    slots := Function.update ring.slots ring.head element }

def pop (ring : RingBuffer α capacity) : Option α × RingBuffer α capacity :=
  if ring.head ≠ ring.tail then
    (some (ring.slots ring.tail), { ring with tail := ring.tail + 1 })
  else (none, ring)

def length (ring : RingBuffer α capacity) : Nat := (ring.head - ring.tail).val

/-- The slot that is `position` slots behind the oldest element's. -/
def slot (ring : RingBuffer α capacity) (position : Nat) : Fin (capacity + 1) :=
  ring.tail + Fin.ofNat (capacity + 1) position

def contents (ring : RingBuffer α capacity) : List α :=
  (List.range ring.length).map fun position => ring.slots (ring.slot position)

@[simp] theorem length_contents (ring : RingBuffer α capacity) :
    ring.contents.length = ring.length := by
  simp [contents]

theorem length_le (ring : RingBuffer α capacity) : ring.length ≤ capacity :=
  Nat.le_of_lt_succ (ring.head - ring.tail).isLt

theorem slot_length (ring : RingBuffer α capacity) : ring.slot ring.length = ring.head := by
  simp [slot, length]

theorem slot_injective (ring : RingBuffer α capacity) {position other : Nat}
    (inside : position ≤ capacity) (otherInside : other ≤ capacity)
    (same : ring.slot position = ring.slot other) : position = other := by
  have steps := congrArg Fin.val (add_left_cancel same)
  simp only [Fin.val_ofNat] at steps
  rwa [Nat.mod_eq_of_lt (by omega), Nat.mod_eq_of_lt (by omega)] at steps

theorem slot_add_one (ring : RingBuffer α capacity) (position : Nat) :
    ring.slot (position + 1) = ring.slot position + 1 := by
  have step : Fin.ofNat (capacity + 1) (position + 1) = Fin.ofNat (capacity + 1) position + 1 := by
    ext
    simp [Fin.val_add]
  rw [slot, slot, step, add_assoc]

theorem head_add_one_eq_tail_iff (ring : RingBuffer α capacity) :
    ring.head + 1 = ring.tail ↔ ring.length = capacity := by
  rw [← ring.slot_length, ← slot_add_one]
  constructor
  · intro meets
    by_contra shorter
    have bound := ring.length_le
    have zero : ring.slot (ring.length + 1) = ring.slot 0 := by
      rw [meets]
      simp [slot]
    have := ring.slot_injective (by omega) (by omega) zero
    omega
  · intro full
    rw [full]
    simp [slot]

theorem head_ne_tail_iff (ring : RingBuffer α capacity) :
    ring.head ≠ ring.tail ↔ ring.length ≠ 0 := by
  rw [length, ne_eq, ne_eq, Fin.val_eq_zero_iff, sub_eq_zero]

theorem contents_eq_nil_iff (ring : RingBuffer α capacity) :
    ring.contents = [] ↔ ring.head = ring.tail := by
  rw [← List.length_eq_zero_iff, length_contents]
  have ends := ring.head_ne_tail_iff
  tauto

theorem push_slots (ring : RingBuffer α capacity) (element : α) {position : Nat}
    (inside : position ≤ capacity) :
    (ring.push element).slots (ring.slot position) =
      if position = ring.length then element else ring.slots (ring.slot position) := by
  split
  · rename_i last
    rw [last, slot_length]
    exact Function.update_self ..
  · rename_i earlier
    apply Function.update_of_ne
    intro meets
    rw [← slot_length] at meets
    exact earlier (ring.slot_injective inside ring.length_le meets)

theorem push_of_room (ring : RingBuffer α capacity) (element : α)
    (room : ring.length ≠ capacity) :
    (ring.push element).contents = ring.contents ++ [element] := by
  have bound := ring.length_le
  have apart : ¬ ring.head + 1 = ring.tail := fun meets =>
    room (ring.head_add_one_eq_tail_iff.mp meets)
  have tail : (ring.push element).tail = ring.tail := if_neg apart
  have size : (ring.push element).length = ring.length + 1 := by
    have ahead : (ring.push element).head - ring.tail =
        Fin.ofNat (capacity + 1) (ring.length + 1) := by
      rw [sub_eq_iff_eq_add', ← slot.eq_def, slot_add_one, slot_length]
      rfl
    rw [length, tail, ahead, Fin.val_ofNat]
    exact Nat.mod_eq_of_lt (by omega)
  have places : (ring.push element).slot = ring.slot := by
    funext position
    rw [slot, slot, tail]
  rw [contents, size, List.range_succ, List.map_append, places]
  congr 1
  · apply List.map_congr_left
    intro position member
    have earlier := List.mem_range.mp member
    rw [ring.push_slots element (by omega), if_neg (by omega)]
  · rw [List.map_singleton, ring.push_slots element bound, if_pos rfl]

theorem pop_of_ne {ring : RingBuffer α capacity} (some : ring.head ≠ ring.tail) :
    ring.contents = ring.slots ring.tail :: (ring.pop).2.contents := by
  obtain ⟨rest, size⟩ := Nat.exists_eq_succ_of_ne_zero (ring.head_ne_tail_iff.mp some)
  have bound := ring.length_le
  have popped : (ring.pop).2 = { ring with tail := ring.tail + 1 } := by
    rw [pop, if_pos some]
  have fewer : (ring.pop).2.length = rest := by
    have ahead : ring.head - (ring.tail + 1) = Fin.ofNat (capacity + 1) rest := by
      rw [sub_eq_iff_eq_add', ← slot_length, size, slot_add_one, slot]
      ac_rfl
    rw [popped, length, ahead, Fin.val_ofNat]
    exact Nat.mod_eq_of_lt (by omega)
  have places (position : Nat) : (ring.pop).2.slot position = ring.slot (position + 1) := by
    rw [popped, slot_add_one, slot, slot]
    ac_rfl
  have front : ring.slot 0 = ring.tail := by simp [slot]
  rw [contents, size, List.range_succ_eq_map, List.map_cons, front, contents, fewer, List.map_map]
  congr 1
  apply List.map_congr_left
  intro position _
  rw [places, popped, Function.comp_apply]

theorem pop_eq (ring : RingBuffer α capacity) :
    (ring.pop).1 = ring.contents.head? ∧ (ring.pop).2.contents = ring.contents.tail := by
  by_cases empty : ring.head = ring.tail
  · have nothing := ring.contents_eq_nil_iff.mpr empty
    simp [pop, empty, nothing]
  · rw [pop_of_ne empty]
    simp [pop, empty]

end RingBuffer

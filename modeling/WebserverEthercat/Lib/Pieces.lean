import Mathlib.Algebra.Ring.Nat
import Mathlib.Data.List.SplitLengths

/-!
# Pieces

Data are cut into pieces of given lengths, and the pieces are put back where
they were.  The lengths come from packing items one after the other: a piece is
closed when the next item does not fit into it.
-/

set_option autoImplicit false

namespace Pieces

/-! ## Packing -/

structure Packing where
  closed : List Nat
  last : Nat
deriving DecidableEq, Repr

def Packing.empty : Packing := ⟨[], 0⟩

namespace Packing

def lengths (packing : Packing) : List Nat := packing.closed ++ [packing.last]

def add (limit : Nat) (packing : Packing) (item : Nat) : Packing :=
  if packing.last + item > limit then ⟨packing.closed ++ [packing.last], item⟩
  else ⟨packing.closed, packing.last + item⟩

end Packing

/-- The range lies in one piece. -/
def Within (lengths : List Nat) (start size : Nat) : Prop :=
  ∃ front piece back, lengths = front ++ piece :: back ∧
    front.sum ≤ start ∧ start + size ≤ front.sum + piece

namespace Packing

@[simp] theorem lengths_empty : empty.lengths = [0] := rfl

@[simp] theorem sum_lengths (packing : Packing) :
    packing.lengths.sum = packing.closed.sum + packing.last := by
  rw [lengths, List.sum_append, List.sum_singleton]

@[simp] theorem sum_add (limit : Nat) (packing : Packing) (item : Nat) :
    (packing.add limit item).lengths.sum = packing.lengths.sum + item := by
  rw [add]
  split
  · rw [sum_lengths, List.sum_append, List.sum_singleton, sum_lengths]
  · rw [sum_lengths, sum_lengths, Nat.add_assoc]

/-- What lay in one piece still does. -/
theorem within_add_of_within {limit : Nat} {packing : Packing} {start size : Nat} (item : Nat)
    (within : Within packing.lengths start size) :
    Within (packing.add limit item).lengths start size := by
  obtain ⟨front, piece, back, split, low, high⟩ := within
  rw [lengths] at split
  rw [add]
  split
  · refine ⟨front, piece, back ++ [item], ?_, low, high⟩
    rw [lengths, split, List.append_assoc, List.cons_append]
  · rcases List.eq_nil_or_concat back with rfl | ⟨rest, last, rfl⟩
    · obtain ⟨rfl, same⟩ := List.append_inj' split rfl
      cases same
      exact ⟨packing.closed, packing.last + item, [], rfl, low, by omega⟩
    · rw [List.concat_eq_append, ← List.cons_append, ← List.append_assoc] at split
      obtain ⟨closed, -⟩ := List.append_inj' split rfl
      exact ⟨front, piece, rest ++ [packing.last + item], by simp [lengths, closed], low, high⟩

/-- An item lies in one piece, behind what was there before. -/
theorem within_add (limit : Nat) (packing : Packing) (item : Nat) :
    Within (packing.add limit item).lengths packing.lengths.sum item := by
  rw [add]
  split
  · exact ⟨packing.lengths, item, [], rfl, Nat.le_refl _, Nat.le_refl _⟩
  · refine ⟨packing.closed, packing.last + item, [], rfl, ?_, ?_⟩
    · rw [sum_lengths]
      exact Nat.le_add_right _ _
    · rw [sum_lengths]
      omega

/-- Each piece holds at most the limit, if each item does. -/
theorem le_of_mem_add {limit : Nat} {packing : Packing} {item : Nat}
    (bounded : ∀ length ∈ packing.lengths, length ≤ limit) (fits : item ≤ limit) :
    ∀ length ∈ (packing.add limit item).lengths, length ≤ limit := by
  intro length member
  rw [add] at member
  split at member
  · rcases List.mem_append.mp member with before | new
    · exact bounded length before
    · exact List.mem_singleton.mp new ▸ fits
  · rcases List.mem_append.mp member with before | new
    · exact bounded length (List.mem_append_left _ before)
    · rw [List.mem_singleton.mp new]
      exact Nat.le_of_not_gt ‹_›

end Packing

theorem Packing.within_foldl {limit : Nat} {start size : Nat} (items : List Nat) :
    ∀ {packing : Packing}, Within packing.lengths start size →
      Within (items.foldl (add limit) packing).lengths start size := by
  induction items with
  | nil => exact fun within => within
  | cons item items ih => exact fun within => ih (within_add_of_within item within)

/-- The closed pieces stay, and the last one only grows. -/
theorem Packing.foldl_grows (limit : Nat) (items : List Nat) :
    ∀ packing : Packing, ∃ piece back,
      (items.foldl (add limit) packing).lengths = packing.closed ++ piece :: back ∧
        packing.last ≤ piece := by
  induction items with
  | nil => exact fun packing => ⟨packing.last, [], rfl, Nat.le_refl _⟩
  | cons item items ih =>
      intro packing
      obtain ⟨piece, back, split, grown⟩ := ih (packing.add limit item)
      rw [List.foldl_cons, split]
      rw [add] at grown ⊢
      split at grown
      case isTrue full =>
        rw [if_pos full]
        exact ⟨packing.last, piece :: back, by simp, Nat.le_refl _⟩
      case isFalse fits =>
        rw [if_neg fits]
        exact ⟨piece, back, rfl, Nat.le_trans (Nat.le_add_right _ _) grown⟩

/-- What lies behind the first part of a piece lies in the rest of the pieces. -/
theorem Within.behind {front back : List Nat} {piece less start size : Nat}
    (within : Within (front ++ piece :: back) start size) (less_le : less ≤ piece)
    (behind : front.sum + less ≤ start) (some : 0 < size) :
    Within ((piece - less) :: back) (start - (front.sum + less)) size := by
  obtain ⟨before, length, after, split, low, high⟩ := within
  rcases List.append_eq_append_iff.mp split with ⟨middle, rfl, rest⟩ | ⟨middle, rfl, rest⟩
  · rw [List.sum_append] at low high
    cases middle with
    | nil =>
        obtain ⟨rfl, rfl⟩ := List.cons.inj rest
        exact ⟨[], piece - less, back, rfl, Nat.zero_le _, by simp at high ⊢; omega⟩
    | cons head middle =>
        obtain ⟨rfl, rfl⟩ := List.cons.inj rest
        rw [List.sum_cons] at low high
        refine ⟨(piece - less) :: middle, length, after, rfl, ?_, ?_⟩ <;> rw [List.sum_cons] <;>
          omega
  · rw [List.sum_append] at behind
    cases middle with
    | nil =>
        obtain ⟨rfl, rfl⟩ := List.cons.inj rest
        exact ⟨[], length - less, after, rfl, Nat.zero_le _, by simp at behind ⊢; omega⟩
    | cons head middle =>
        obtain ⟨rfl, rfl⟩ := List.cons.inj rest
        rw [List.sum_cons] at behind
        omega

/-! ## Reading and writing pieces -/

variable {Cell : Type}

def slice (memory : List Cell) (position length : Nat) : List Cell :=
  (memory.drop position).take length

/-- `cells` in place of what stands at `position`. -/
def put (memory : List Cell) (position : Nat) (cells : List Cell) : List Cell :=
  memory.take position ++ cells ++ memory.drop (position + cells.length)

/-- The pieces that there are, one behind the other from `position` on. -/
def putAll (memory : List Cell) : Nat → List (Nat × Option (List Cell)) → List Cell
  | _, [] => memory
  | position, (length, new) :: rest =>
      putAll (new.elim memory (put memory position)) (position + length) rest

theorem length_slice {memory : List Cell} {position length : Nat}
    (inside : position + length ≤ memory.length) :
    (slice memory position length).length = length := by
  rw [slice, List.length_take, List.length_drop, Nat.min_eq_left (by omega)]

theorem length_put {memory cells : List Cell} {position : Nat}
    (inside : position + cells.length ≤ memory.length) :
    (put memory position cells).length = memory.length := by
  rw [put, List.length_append, List.length_append, List.length_take, List.length_drop]
  omega

theorem flatten_splitLengths_take (lengths : List Nat) : ∀ cells : List Cell,
    (lengths.splitLengths cells).flatten = cells.take lengths.sum := by
  induction lengths with
  | nil => exact fun _ => rfl
  | cons length lengths ih =>
      intro cells
      rw [List.splitLengths_cons, List.flatten_cons, ih, List.sum_cons, List.take_add]

theorem put_middle {front old back new : List Cell} (same : new.length = old.length) :
    put (front ++ (old ++ back)) front.length new = front ++ (new ++ back) := by
  have behind : (front ++ (old ++ back)).drop (front.length + new.length) = back := by
    rw [same, ← List.append_assoc, ← List.length_append, List.drop_left]
  rw [put, behind, List.take_left, List.append_assoc]

theorem slice_put_same {memory cells : List Cell} {position : Nat}
    (inside : position ≤ memory.length) :
    slice (put memory position cells) position cells.length = cells := by
  have front : (memory.take position).length = position := by
    rw [List.length_take, Nat.min_eq_left inside]
  rw [slice, put, List.append_assoc, List.drop_append_of_le_length (by omega),
    List.drop_eq_nil_of_le (by omega), List.nil_append, List.take_left]

theorem getElem?_put_other {memory cells : List Cell} {position other : Nat}
    (inside : position + cells.length ≤ memory.length)
    (outside : other < position ∨ position + cells.length ≤ other) :
    (put memory position cells)[other]? = memory[other]? := by
  have front : (memory.take position).length = position := by
    rw [List.length_take, Nat.min_eq_left (by omega)]
  rcases outside with before | behind
  · rw [put, List.append_assoc, List.getElem?_append_left (by omega),
      List.getElem?_take_of_lt before]
  · rw [put, List.getElem?_append_right (by rw [List.length_append]; omega), List.getElem?_drop,
      List.length_append, front]
    congr 1
    omega

theorem slice_put_other {memory cells : List Cell} {position other length : Nat}
    (inside : position + cells.length ≤ memory.length)
    (outside : other + length ≤ position ∨ position + cells.length ≤ other) :
    slice (put memory position cells) other length = slice memory other length := by
  apply List.ext_getElem?
  intro offset
  rw [slice, slice, List.getElem?_take, List.getElem?_take]
  split
  · rw [List.getElem?_drop, List.getElem?_drop, getElem?_put_other inside (by omega)]
  · rfl

end Pieces

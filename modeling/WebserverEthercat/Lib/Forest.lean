import Mathlib.Data.List.Induction

/-!
# Forests in preorder

A forest is empty, or it is a node with the forest of its children and the
forest of its later siblings.  Its nodes are numbered in preorder; what belongs
to the nodes is a list in that order.
-/

set_option autoImplicit false

namespace Preorder

inductive Forest (Label : Type) where
  | nil
  | node (label : Label) (children siblings : Forest Label)
deriving DecidableEq, Repr

namespace Forest

variable {Label : Type}

def trees : Forest Label → Nat
  | nil => 0
  | node _ _ siblings => siblings.trees + 1

def size : Forest Label → Nat
  | nil => 0
  | node _ children siblings => children.size + siblings.size + 1

/-- What a function of the label and the children gives for the nodes. -/
def nodes {Value : Type} (value : Label → Forest Label → Value) : Forest Label → List Value
  | nil => []
  | node label children siblings =>
      value label children :: (children.nodes value ++ siblings.nodes value)

/-- The numbers of the parents, when the trees hang on `parent` and are numbered from
`last + 1` on. -/
def parents : Forest Label → Nat → Nat → List Nat
  | nil, _, _ => []
  | node _ children siblings, parent, last =>
      parent :: (children.parents (last + 1) (last + 1) ++
        siblings.parents parent (last + 1 + children.size))

@[simp] theorem trees_nil : (nil : Forest Label).trees = 0 := rfl

@[simp] theorem trees_node (label : Label) (children siblings : Forest Label) :
    (node label children siblings).trees = siblings.trees + 1 := rfl

@[simp] theorem size_nil : (nil : Forest Label).size = 0 := rfl

@[simp] theorem size_node (label : Label) (children siblings : Forest Label) :
    (node label children siblings).size = children.size + siblings.size + 1 := rfl

@[simp] theorem length_nodes {Value : Type} (value : Label → Forest Label → Value)
    (forest : Forest Label) : (forest.nodes value).length = forest.size := by
  induction forest with
  | nil => rfl
  | node label children siblings childrenIH siblingsIH =>
      simp [nodes, childrenIH, siblingsIH]

@[simp] theorem length_parents (forest : Forest Label) :
    ∀ parent last, (forest.parents parent last).length = forest.size := by
  induction forest with
  | nil => exact fun _ _ => rfl
  | node label children siblings childrenIH siblingsIH =>
      intro parent last
      simp [parents, childrenIH, siblingsIH]

end Forest

/-! ## Tables over the numbers -/

/-- A table has the entries of a list behind `last`. -/
def Tabulates {Value : Type} (table : Nat → Value) (last : Nat) (values : List Value) : Prop :=
  ∀ position value, values[position]? = some value → table (last + 1 + position) = value

theorem tabulates_cons {Value : Type} {table : Nat → Value} {last : Nat} {value : Value}
    {values : List Value} :
    Tabulates table last (value :: values) ↔
      table (last + 1) = value ∧ Tabulates table (last + 1) values := by
  constructor
  · intro tabulates
    refine ⟨tabulates 0 value rfl, ?_⟩
    intro position other here
    rw [← tabulates (position + 1) other here]
    congr 1
    omega
  · rintro ⟨first, rest⟩ position other here
    cases position with
    | zero => exact first.trans (Option.some.inj here)
    | succ position =>
        rw [← rest position other here]
        congr 1
        omega

theorem tabulates_append {Value : Type} {table : Nat → Value} {first second : List Value} :
    ∀ {last : Nat}, Tabulates table last (first ++ second) ↔
      Tabulates table last first ∧ Tabulates table (last + first.length) second := by
  induction first with
  | nil =>
      intro last
      simp [Tabulates]
  | cons value first ih =>
      intro last
      rw [List.cons_append, tabulates_cons, tabulates_cons, ih, and_assoc, List.length_cons,
        Nat.add_assoc, Nat.add_comm 1]

/-- Entries behind the last value do not matter. -/
theorem Tabulates.congr {Value : Type} {table other : Nat → Value} {last : Nat}
    {values : List Value} (tabulates : Tabulates table last values)
    (same : ∀ number ≤ last + values.length, other number = table number) :
    Tabulates other last values := by
  intro position value here
  have bound := (List.getElem?_eq_some_iff.mp here).1
  rw [same _ (by omega)]
  exact tabulates position value here

theorem tabulates_iff {Value : Type} {table : Nat → Value} {values : List Value} :
    ∀ {last : Nat}, Tabulates table last values ↔
      (List.range' (last + 1) values.length).map table = values := by
  induction values with
  | nil =>
      intro last
      simp [Tabulates]
  | cons value values ih =>
      intro last
      rw [tabulates_cons, ih, List.length_cons, List.range'_succ, List.map_cons, List.cons.injEq]

instance {Value : Type} [DecidableEq Value] (table : Nat → Value) (last : Nat)
    (values : List Value) : Decidable (Tabulates table last values) :=
  decidable_of_iff _ tabulates_iff.symm

end Preorder

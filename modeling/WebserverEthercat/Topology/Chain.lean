import Mathlib.Data.List.Chain
import WebserverEthercat.Topology.Delays

/-!
# The chain of clocks

`DCnext` and `DCprevious` link the slaves with distributed clocks; the chain
starts at the entry of the master.
-/

set_option autoImplicit false

namespace WebserverEthercat.Topology

/-- The links lead along the slaves, in both directions. -/
def LinkedAlong (next previous : Nat → Nat) (slaves : List Nat) : Prop :=
  (0 :: slaves).IsChain fun first second =>
    first < second ∧ next first = second ∧ previous second = first

/-- The group of the first slave gets it as `DCnext`. -/
def groupsFrom (list : SlaveList) (groupNext : UInt8 → Option Nat) :
    List Nat → UInt8 → Option Nat
  | [] => groupNext
  | first :: _ => Function.update groupNext (list.group first) (some first)

/-- The slaves are linked, and `prevDcSlave` is the last of them. -/
structure Chained (list : SlaveList) (start walk : DcWalk) (slaves : List Nat) : Prop where
  links : LinkedAlong walk.dcNext walk.dcPrevious slaves
  last : walk.prevDcSlave = slaves.getLastD 0
  found : walk.found = !slaves.isEmpty
  others : ∀ slave, slave ∉ (0 :: slaves).dropLast → walk.dcNext slave = start.dcNext slave
  groups : walk.groupNext = groupsFrom list start.groupNext slaves

theorem LinkedAlong.snoc {next previous : Nat → Nat} {slaves : List Nat} {later : Nat}
    (linked : LinkedAlong next previous slaves)
    (bound : ∀ slave ∈ slaves, slave ≤ slaves.getLastD 0) (new : slaves.getLastD 0 < later) :
    LinkedAlong (Function.update next (slaves.getLastD 0) later)
      (Function.update previous later (slaves.getLastD 0)) (slaves ++ [later]) := by
  rw [LinkedAlong, ← List.cons_append, List.isChain_append]
  refine ⟨linked.imp_of_mem_tail_imp ?_, List.isChain_singleton later, ?_⟩
  · rintro first second - member ⟨ascending, forth, back⟩
    have before := bound second member
    rw [Function.update_of_ne (by omega), Function.update_of_ne (by omega)]
    exact ⟨ascending, forth, back⟩
  · intro last isLast other isLater
    rw [List.getLast?_cons, ← List.getLastD_eq_getLast?, Option.mem_some_iff] at isLast
    cases isLast
    cases Option.some.inj isLater
    exact ⟨new, Function.update_self .., Function.update_self ..⟩

theorem Chained.snoc {list : SlaveList} {start walk after : DcWalk} {slaves : List Nat}
    {later : Nat} (chained : Chained list start walk slaves)
    (bound : ∀ slave ∈ slaves, slave ≤ slaves.getLastD 0) (new : slaves.getLastD 0 < later)
    (linked : after.dcNext = Function.update walk.dcNext walk.prevDcSlave later)
    (linkedBack : after.dcPrevious = Function.update walk.dcPrevious later walk.prevDcSlave)
    (last : after.prevDcSlave = later) (found : after.found = true)
    (groups : after.groupNext = if walk.found then walk.groupNext
      else Function.update walk.groupNext (list.group later) (some later)) :
    Chained list start after (slaves ++ [later]) where
  links := by
    rw [linked, linkedBack, chained.last]
    exact chained.links.snoc bound new
  last := by rw [last, List.getLastD_concat]
  found := by simp [found]
  others slave other := by
    have shown : (0 :: (slaves ++ [later])).dropLast = 0 :: slaves := by
      rw [← List.cons_append, List.dropLast_concat]
    rw [shown] at other
    have unlinked : slave ≠ walk.prevDcSlave := by
      rintro rfl
      rw [chained.last] at other
      exact other (List.getLastD_mem_cons ..)
    rw [linked, Function.update_of_ne unlinked]
    exact chained.others slave fun member => other (List.dropLast_subset _ member)
  groups := by
    rw [groups, chained.found, chained.groups]
    cases slaves with
    | nil => rfl
    | cons first rest => rfl

end WebserverEthercat.Topology

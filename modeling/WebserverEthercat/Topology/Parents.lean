import WebserverEthercat.Lib.Forest

/-!
# Which slave hangs on which

A frame passes the slaves in preorder of the tree that their cables form.
`ecx_config_init` counts the open ports of each slave and walks back over the
slaves before it to find its parent.
-/

set_option autoImplicit false

namespace WebserverEthercat.Topology

open Preorder

/-- The ports in the DL status: which bits, what they are on an open port with communication,
and the port's bit in `activeports`. -/
def dlPorts : List (UInt16 × UInt16 × UInt8) :=
  [(0x0300, 0x0200, 0x01), (0x0c00, 0x0800, 0x02), (0x3000, 0x2000, 0x04), (0xc000, 0x8000, 0x08)]

structure Links where
  topology : UInt8
  activeports : UInt8
deriving DecidableEq, Repr

/-- `topology` and `activeports` from the DL status. -/
def linksOf (dlstat : UInt16) : Links :=
  dlPorts.foldl (fun links port =>
    if dlstat &&& port.1 = port.2.1 then
      ⟨links.topology + 1, links.activeports ||| port.2.2⟩
    else links) ⟨0, 0⟩

/-- Endpoint, split or cross.  With at most 200 slaves `topoc` stays far inside of an `int16`. -/
def countLinks (topology : UInt8) (topoc : Int) : Int :=
  let topoc := if topology = 1 then topoc - 1 else topoc
  let topoc := if topology = 3 then topoc + 1 else topoc
  if topology = 4 then topoc + 2 else topoc

/-- The walk back from slave `slavec`. -/
def searchParent (topology : Nat → UInt8) : Nat → Int → Nat
  | 0, _ => 0
  | slavec + 1, topoc =>
      let counted := countLinks (topology (slavec + 1)) topoc
      if 0 ≤ counted ∧ topology (slavec + 1) > 1 ∨ slavec + 1 = 1 then slavec + 1
      else searchParent topology slavec counted

/-- `slavelist[slave].parent`; 0 is the master. -/
def parent (topology : Nat → UInt8) (slave : Nat) : Nat :=
  if slave > 1 then searchParent topology (slave - 1) 0 else 0

/-! ## Any registers -/

theorem searchParent_le (topology : Nat → UInt8) :
    ∀ (slavec : Nat) (topoc : Int), searchParent topology slavec topoc ≤ slavec := by
  intro slavec
  induction slavec with
  | zero => exact fun _ => Nat.le_refl 0
  | succ slavec ih =>
      intro topoc
      rw [searchParent]
      split
      · exact Nat.le_refl _
      · exact Nat.le_succ_of_le (ih _)

/-- Whatever the slaves report, a parent comes before its children. -/
theorem parent_lt (topology : Nat → UInt8) {slave : Nat} (present : 0 < slave) :
    parent topology slave < slave := by
  rw [parent]
  split
  · have bound := searchParent_le topology (slave - 1) 0
    omega
  · exact present

/-! ## A tree of slaves -/

variable {Label : Type}

/-- The open ports of the slaves of a forest: one to the parent and one for each child. -/
def openPorts (forest : Forest Label) : List UInt8 :=
  forest.nodes fun _ children => UInt8.ofNat (children.trees + 1)

/-- No slave has more than four ports. -/
def FourPorts (forest : Forest Label) : Prop :=
  ∀ children ∈ forest.nodes fun _ children => children.trees, children ≤ 3

instance (forest : Forest Label) : Decidable (FourPorts forest) :=
  inferInstanceAs (Decidable (∀ children ∈ forest.nodes fun _ children => children.trees,
    children ≤ 3))

theorem FourPorts.node {label : Label} {children siblings : Forest Label}
    (four : FourPorts (.node label children siblings)) :
    children.trees ≤ 3 ∧ FourPorts children ∧ FourPorts siblings := by
  simp only [FourPorts, Forest.nodes, List.mem_cons, List.mem_append] at four
  exact ⟨four _ (.inl rfl), fun count member => four count (.inr (.inl member)),
    fun count member => four count (.inr (.inr member))⟩

theorem tabulates_openPorts {topology : Nat → UInt8} {last : Nat} {label : Label}
    {children siblings : Forest Label}
    (reported : Tabulates topology last (openPorts (.node label children siblings))) :
    topology (last + 1) = UInt8.ofNat (children.trees + 1) ∧
      Tabulates topology (last + 1) (openPorts children) ∧
      Tabulates topology (last + 1 + children.size) (openPorts siblings) := by
  rw [openPorts, Forest.nodes, tabulates_cons, tabulates_append, Forest.length_nodes] at reported
  exact reported

theorem countLinks_children {count : Nat} (few : count ≤ 3) (topoc : Int) :
    countLinks (UInt8.ofNat (count + 1)) topoc = topoc + count - 1 ∧
      (UInt8.ofNat (count + 1) > 1 ↔ 0 < count) := by
  have counts : count = 0 ∨ count = 1 ∨ count = 2 ∨ count = 3 := by omega
  rcases counts with rfl | rfl | rfl | rfl <;> simp [countLinks] <;> omega

theorem searchParent_step {topology : Nat → UInt8} {slavec count : Nat} (few : count ≤ 3)
    (reported : topology (slavec + 1) = UInt8.ofNat (count + 1)) (topoc : Int) :
    searchParent topology (slavec + 1) topoc =
      if 0 ≤ topoc + count - 1 ∧ 0 < count ∨ slavec = 0 then slavec + 1
      else searchParent topology slavec (topoc + count - 1) := by
  obtain ⟨counted, more⟩ := countLinks_children few topoc
  rw [searchParent, reported, counted]
  simp only [more, Nat.add_eq_right]

/-- The walk passes the slaves of whole trees, and each tree lowers `topoc` by 1. -/
theorem searchParent_forest {topology : Nat → UInt8} {forest : Forest Label} :
    ∀ {last : Nat} (topoc : Int), 0 < last → topoc ≤ 0 → FourPorts forest →
      Tabulates topology last (openPorts forest) →
      searchParent topology (last + forest.size) topoc =
        searchParent topology last (topoc - forest.trees) := by
  induction forest with
  | nil =>
      intro last topoc _ _ _ _
      simp
  | node label children siblings childrenIH siblingsIH =>
      intro last topoc behind notPositive four reported
      obtain ⟨few, fourChildren, fourSiblings⟩ := four.node
      obtain ⟨here, inside, later⟩ := tabulates_openPorts reported
      have order : last + (Forest.node label children siblings).size =
          last + 1 + children.size + siblings.size := by
        rw [Forest.size_node]
        omega
      calc searchParent topology (last + (Forest.node label children siblings).size) topoc
          = searchParent topology (last + 1 + children.size) (topoc - siblings.trees) := by
            rw [order, siblingsIH topoc (by omega) notPositive fourSiblings later]
        _ = searchParent topology (last + 1) (topoc - siblings.trees - children.trees) :=
            childrenIH _ (by omega) (by omega) fourChildren inside
        _ = searchParent topology last (topoc - siblings.trees - 1) := by
            rw [searchParent_step few here, if_neg (by omega)]
            congr 1
            omega
        _ = searchParent topology last (topoc - (Forest.node label children siblings).trees) := by
            rw [Forest.trees_node]
            congr 1
            omega

/-- The parents of a forest are found when the walk finds the slave that its trees hang on from
in front of each tree. -/
theorem parents_forest {topology : Nat → UInt8} {forest : Forest Label} :
    ∀ {parentSlave last : Nat}, 0 < last → FourPorts forest →
      Tabulates topology last (openPorts forest) →
      (∀ earlier < forest.trees, searchParent topology last (-(earlier : Int)) = parentSlave) →
      Tabulates (parent topology) last (forest.parents parentSlave last) := by
  induction forest with
  | nil =>
      intro parentSlave last _ _ _ _ position value here
      cases here
  | node label children siblings childrenIH siblingsIH =>
      intro parentSlave last behind four reported found
      obtain ⟨few, fourChildren, fourSiblings⟩ := four.node
      obtain ⟨here, inside, later⟩ := tabulates_openPorts reported
      rw [Forest.parents, tabulates_cons, tabulates_append, Forest.length_parents]
      refine ⟨?_, ?_, ?_⟩
      · rw [parent, if_pos (by omega)]
        exact found 0 (Nat.succ_pos _)
      · apply childrenIH (by omega) fourChildren inside
        intro earlier before
        rw [searchParent_step few here, if_pos (by omega)]
      · apply siblingsIH (by omega) fourSiblings later
        intro earlier before
        have passed : searchParent topology (last + 1 + children.size) (-(earlier : Int)) =
            searchParent topology (last + 1) (-(earlier : Int) - children.trees) :=
          searchParent_forest _ (Nat.succ_pos last) (by omega) fourChildren inside
        rw [passed, searchParent_step few here, if_neg (by omega),
          ← found (earlier + 1) (Nat.succ_lt_succ before)]
        congr 1
        omega

/-- In every network the parents are the slaves that the cables lead to: slave 1 hangs on the
master, and the other slaves are numbered in the order in which a frame passes them. -/
theorem parents_found (root : Label) (children : Forest Label)
    (four : FourPorts (.node root children .nil)) (dlstat : Nat → UInt16)
    (reported : Tabulates (fun slave => (linksOf (dlstat slave)).topology) 0
      (openPorts (.node root children .nil))) :
    Tabulates (parent fun slave => (linksOf (dlstat slave)).topology) 0
      ((Forest.node root children .nil).parents 0 0) := by
  obtain ⟨few, fourChildren, -⟩ := four.node
  obtain ⟨here, inside, -⟩ := tabulates_openPorts reported
  rw [Forest.parents, tabulates_cons, tabulates_append]
  refine ⟨rfl, ?_, ?_⟩
  · apply parents_forest (by omega) fourChildren inside
    intro earlier before
    rw [searchParent_step few here, if_pos (.inr rfl)]
  · intro position value none
    cases none

/-- What hangs on slave 1: a slave with two ends, and a line of two slaves. -/
def branches : Forest Unit :=
  .node () (.node () .nil (.node () .nil .nil)) (.node () (.node () .nil .nil) .nil)

/-- The DL status of a slave with links at ports 0, 3 and 1, at 0 and 1, or at 0 only. -/
def branchedDlstat : Nat → UInt16
  | 1 | 2 => 0x8a00
  | 5 => 0x0a00
  | _ => 0x0200

theorem parents_found_branched :
    Tabulates (parent fun slave => (linksOf (branchedDlstat slave)).topology) 0
      [0, 1, 2, 2, 1, 5] :=
  parents_found () branches (by decide) branchedDlstat (by decide)

end WebserverEthercat.Topology

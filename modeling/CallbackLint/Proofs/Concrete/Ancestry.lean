import CallbackLint.Proofs.Concrete.Shape
import CallbackLint.Proofs.Rose.Lineage
import Mathlib.Data.List.Perm.Basic
import Mathlib.Logic.Relation

namespace CallbackLint

open Rose

/-!
# Ancestors among concrete nodes

One visited node is above another one if a chain of visible children leads from it down to
the other.  In a tree with different identities these are the nodes of the other's
lineage, although the value of a `case` is read before its siblings.
-/

namespace Concrete

/-- A chain of visible children leads down from one node to another. -/
def IsAbove (upper lower : Concrete) : Prop :=
  Relation.TransGen (fun parent child => child ∈ parent.visibleChildren) upper lower

/-! ## Reading order and tree order -/

theorem valueFirst_perm (node : Concrete) (below : List (Rose Concrete)) :
    (valueFirst node below).Perm below := by
  rw [valueFirst]
  split
  · exact List.filter_append_perm _ below
  · exact List.Perm.refl _

theorem mem_valueFirst {node : Concrete} {below : List (Rose Concrete)} {tree : Rose Concrete} :
    tree ∈ valueFirst node below ↔ tree ∈ below := (valueFirst_perm node below).mem_iff

/-- The nodes that are read are those that are visited. -/
theorem preorder_reading_perm (node : Concrete) :
    node.reading.preorder.Perm node.visible.preorder := by
  induction node using Rose.induct with
  | node label children inductionHypothesis =>
      have each : ∀ child ∈ visibleChildren (.node label children),
          child.reading.preorder.Perm child.visible.preorder :=
        fun child member => inductionHypothesis child (List.mem_filter.mp member).1
      rw [reading_eq, visible_eq, preorder, preorder, preorderAll_eq_flatMap,
        preorderAll_eq_flatMap]
      apply List.Perm.cons
      apply ((valueFirst_perm _ _).flatMap_right _).trans
      rw [List.flatMap_map, List.flatMap_map]
      exact List.Perm.flatMap_left _ each

theorem mem_preorder_reading {root node : Concrete} :
    node ∈ root.reading.preorder ↔ node ∈ root.visible.preorder :=
  (preorder_reading_perm root).mem_iff

/-- With different identities no node is read twice. -/
theorem Distinct.nodup_reading {root : Concrete} (distinct : root.Distinct) :
    root.reading.preorder.Nodup :=
  (preorder_reading_perm root).nodup_iff.mpr (List.Nodup.of_map _ distinct.visited)

/-! ## Lineages of read nodes -/

theorem value_reading (node : Concrete) : node.reading.value = node := by
  rw [reading_eq, value_node]

/-- The trees below a node that is read are its visible children. -/
theorem exists_child_of_fill {crumb : Crumb Concrete} {tree : Rose Concrete}
    (parent : crumb.fill tree = crumb.value.reading) :
    ∃ child ∈ crumb.value.visibleChildren, child.reading = tree := by
  rw [Crumb.fill, reading_eq, node.injEq] at parent
  have member : tree ∈ valueFirst crumb.value (crumb.value.visibleChildren.map reading) := by
    rw [← parent.2]
    exact List.mem_append_right _ List.mem_cons_self
  exact List.mem_map.mp (mem_valueFirst.mp member)

/-- At each place there is a node as it is read. -/
theorem eq_reading_of_fill {context : Context Concrete} {tree : Rose Concrete} {root : Concrete}
    (place : fill context tree = root.reading) : tree = tree.value.reading := by
  induction context generalizing tree with
  | nil =>
      have whole : tree = root.reading := place
      rw [whole, value_reading]
  | cons crumb context inductionHypothesis =>
      have outside : fill context (crumb.fill tree) = root.reading := place
      have parent := inductionHypothesis outside
      rcases exists_child_of_fill parent with ⟨child, _, same⟩
      rw [← same, value_reading]

/-- The next node above a place is the parent. -/
theorem mem_visibleChildren_of_fill {crumb : Crumb Concrete} {context : Context Concrete}
    {tree : Rose Concrete} {root : Concrete}
    (place : fill (crumb :: context) tree = root.reading) :
    tree.value ∈ crumb.value.visibleChildren := by
  have outside : fill context (crumb.fill tree) = root.reading := place
  have parent := eq_reading_of_fill outside
  rcases exists_child_of_fill parent with ⟨child, member, same⟩
  rw [← same, value_reading]
  exact member

/-- Each visible child of a node has its place below the node. -/
theorem exists_fill_child {context : Context Concrete} {parent child root : Concrete}
    (place : fill context parent.reading = root.reading)
    (member : child ∈ parent.visibleChildren) :
    ∃ crumb : Crumb Concrete, crumb.value = parent ∧
      fill (crumb :: context) child.reading = root.reading := by
  have listed : child.reading ∈ valueFirst parent (parent.visibleChildren.map reading) :=
    mem_valueFirst.mpr (List.mem_map_of_mem member)
  rcases List.append_of_mem listed with ⟨before, after, split⟩
  refine ⟨{ value := parent, before, after }, rfl, ?_⟩
  rw [fill, Crumb.fill, ← split, ← reading_eq]
  exact place

theorem isAbove_of_mem_valuesAbove {context : Context Concrete} {tree : Rose Concrete}
    {root upper : Concrete} (place : fill context tree = root.reading)
    (member : upper ∈ valuesAbove context) : upper.IsAbove tree.value := by
  induction context generalizing tree with
  | nil => cases member
  | cons crumb context inductionHypothesis =>
      have child := mem_visibleChildren_of_fill place
      rw [valuesAbove_cons] at member
      rcases List.mem_cons.mp member with rfl | higher
      · exact Relation.TransGen.single child
      · have outside : fill context (crumb.fill tree) = root.reading := place
        have above := inductionHypothesis outside higher
        exact Relation.TransGen.tail above child

/-- A node that is above another one is on the way to a place of the other. -/
theorem IsAbove.exists_fill {upper lower root : Concrete} (above : upper.IsAbove lower)
    {context : Context Concrete} (place : fill context upper.reading = root.reading) :
    ∃ inner, fill inner lower.reading = root.reading ∧ upper ∈ valuesAbove inner := by
  induction above with
  | single member =>
      rcases exists_fill_child place member with ⟨crumb, same, inner⟩
      exact ⟨crumb :: context, inner, same ▸ List.mem_cons_self⟩
  | tail _ member inductionHypothesis =>
      rcases inductionHypothesis with ⟨outer, inside, higher⟩
      rcases exists_fill_child inside member with ⟨crumb, _, inner⟩
      exact ⟨crumb :: outer, inner, List.mem_cons_of_mem _ higher⟩

/-- With different identities, the lineage of a node holds the nodes that are above it. -/
theorem mem_lineage_iff {root upper lower : Concrete} {above : List Concrete}
    (distinct : root.Distinct) (read : upper ∈ root.reading.preorder)
    (lineage : (lower, above) ∈ root.reading.lineages []) :
    upper ∈ above ↔ upper.IsAbove lower := by
  constructor
  · intro member
    rcases exists_place_of_lineage lineage with ⟨context, children, place, same⟩
    exact isAbove_of_mem_valuesAbove place.symm (same ▸ member)
  · intro isAbove
    rcases exists_place_of_mem read with ⟨context, children, place⟩
    have whole : Rose.node upper children = upper.reading := eq_reading_of_fill place.symm
    rw [whole] at place
    rcases isAbove.exists_fill place.symm with ⟨inner, lowerPlace, member⟩
    have found := lineage_mem_fill inner lower.reading
    rw [lowerPlace, value_reading] at found
    exact lineage_unique distinct.nodup_reading found lineage ▸ member

end Concrete

end CallbackLint

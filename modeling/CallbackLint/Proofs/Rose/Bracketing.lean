import CallbackLint.Proofs.Rose.Rounds
import CallbackLint.Proofs.Rose.Traversal
import Mathlib.Data.List.Nodup
import Mathlib.Data.List.Perm.Basic

namespace CallbackLint

/-!
# The steps of a traversal as brackets

The two steps of a node are a pair of brackets.  The pairs of a traversal are nested as
the nodes are: between the two steps of a node are those of the nodes below it and no
others.  So the traversal is well bracketed and has one pair for each node.

A node is here a place of the tree, so that nothing depends on whether values are
repeated.  Where they are not, no step occurs twice.
-/

namespace Rose

variable {α : Type}

/-! ## Well bracketed steps -/

/-- Every node is left after it has been entered, and in between all nodes are left that
are entered there, and no others. -/
inductive Bracketed : List (Visit α) → Prop
  | nil : Bracketed []
  | pair {value : α} {inside after : List (Visit α)} :
      Bracketed inside → Bracketed after →
      Bracketed (.enter value :: (inside ++ .leave value :: after))

mutual

/-- The traversal of a tree is closed in itself. -/
theorem bracketed_visits_append {after : List (Visit α)} (closed : Bracketed after) :
    (tree : Rose α) → Bracketed (tree.visits ++ after)
  | .node value children => by
      have inside := bracketed_visitsAll_append .nil children
      rw [List.append_nil] at inside
      rw [visits, List.cons_append, List.append_assoc, List.singleton_append]
      exact .pair inside closed

theorem bracketed_visitsAll_append {after : List (Visit α)} (closed : Bracketed after) :
    (trees : List (Rose α)) → Bracketed (visitsAll trees ++ after)
  | [] => closed
  | tree :: rest => by
      rw [visitsAll, List.append_assoc]
      exact bracketed_visits_append (bracketed_visitsAll_append closed rest) tree

end

/-! ## One pair for each node -/

/-- One enter step and one leave step for each of some values. -/
def pairsOf (values : List α) : List (Visit α) :=
  values.map .enter ++ values.map .leave

theorem nodup_pairsOf {values : List α} (distinct : values.Nodup) : (pairsOf values).Nodup := by
  rw [pairsOf, List.nodup_append]
  refine ⟨?_, ?_, ?_⟩
  · exact List.Nodup.map (fun _ _ => Visit.enter.inj) distinct
  · exact List.Nodup.map (fun _ _ => Visit.leave.inj) distinct
  · intro first enters second leaves same
    rcases List.mem_map.mp enters with ⟨_, _, rfl⟩
    rcases List.mem_map.mp leaves with ⟨_, _, rfl⟩
    cases same

theorem pairsOf_append_perm (first second : List α) :
    (pairsOf (first ++ second)).Perm (pairsOf first ++ pairsOf second) := by
  rw [pairsOf, pairsOf, pairsOf, List.map_append, List.map_append, List.append_assoc,
    List.append_assoc]
  apply List.Perm.append_left
  rw [← List.append_assoc, ← List.append_assoc]
  exact List.perm_append_comm.append_right _

theorem pairsOf_cons_perm (value : α) (values : List α) :
    (pairsOf (value :: values)).Perm (.enter value :: (pairsOf values ++ [.leave value])) := by
  rw [pairsOf, pairsOf, List.map_cons, List.map_cons, List.cons_append, List.append_assoc]
  apply List.Perm.cons
  apply List.Perm.append_left
  exact (List.perm_append_singleton _ _).symm

mutual

/-- The traversal of a tree enters every node once and leaves it once. -/
theorem visits_perm : (tree : Rose α) → tree.visits.Perm (pairsOf tree.preorder)
  | .node value children => by
      rw [visits, preorder]
      have inside := visitsAll_perm children
      exact ((inside.append_right _).cons _).trans (pairsOf_cons_perm value _).symm

theorem visitsAll_perm : (trees : List (Rose α)) →
    (visitsAll trees).Perm (pairsOf (preorderAll trees))
  | [] => List.Perm.refl _
  | tree :: rest => by
      rw [visitsAll, preorderAll]
      exact ((visits_perm tree).append (visitsAll_perm rest)).trans
        (pairsOf_append_perm _ _).symm

end

/-! ## The steps around a place -/

theorem visitsAll_append (first second : List (Rose α)) :
    visitsAll (first ++ second) = visitsAll first ++ visitsAll second := by
  induction first with
  | nil => rfl
  | cons tree rest inductionHypothesis =>
      rw [List.cons_append, visitsAll, visitsAll, inductionHypothesis, List.append_assoc]

/-- The traversal of a whole tree goes through a subtree in one piece. -/
theorem visits_fill (context : Context α) (tree : Rose α) :
    (fill context tree).visits = visitsBefore context ++ (tree.visits ++ visitsAfter context) := by
  induction context generalizing tree with
  | nil => rw [fill, visitsBefore, visitsAfter, List.nil_append, List.append_nil]
  | cons crumb context inductionHypothesis =>
      rw [fill, inductionHypothesis, Crumb.fill, visits, visitsAll_append, visitsAll, visitsBefore,
        visitsAfter]
      simp only [List.cons_append, List.append_assoc, List.nil_append]

theorem pairsOf_perm {values others : List α} (same : values.Perm others) :
    (pairsOf values).Perm (pairsOf others) := (same.map _).append (same.map _)

/-- The steps outside a subtree are those of the nodes outside it. -/
theorem visitsBefore_append_visitsAfter_perm (context : Context α) (tree : Rose α) :
    (visitsBefore context ++ visitsAfter context).Perm
      (pairsOf (preorderBefore context ++ preorderAfter context)) := by
  have steps : (fill context tree).visits.Perm
      (tree.visits ++ (visitsBefore context ++ visitsAfter context)) := by
    rw [visits_fill]
    exact List.perm_append_comm_assoc _ _ _
  have values : (fill context tree).preorder.Perm
      (tree.preorder ++ (preorderBefore context ++ preorderAfter context)) := by
    rw [preorder_fill, List.append_assoc]
    exact List.perm_append_comm_assoc _ _ _
  -- The whole traversal has the pairs of all nodes, and the subtree has its own.
  have whole := (steps.symm.trans (visits_perm (fill context tree))).trans
    ((pairsOf_perm values).trans (pairsOf_append_perm _ _))
  exact (List.perm_append_left_iff _).mp (whole.trans ((visits_perm tree).symm.append_right _))

/-! ## The traversal with an agenda -/

/-- How the steps of a traversal nest: they come in pairs like brackets, one pair for each node, and
a pair has between its steps just those of the nodes below. -/
structure Traverses (tree : Rose α) (steps : List (Visit α)) : Prop where
  bracketed : Bracketed steps
  /-- Every node is entered once and left once. -/
  once : steps.Perm (pairsOf tree.preorder)
  /-- Between the two steps of a node are the steps of all nodes below it, and around
  them the steps of all other nodes. -/
  nested : ∀ context value children, fill context (.node value children) = tree →
    ∃ before inside after, steps = before ++ .enter value :: (inside ++ .leave value :: after) ∧
      inside.Perm (pairsOf (preorderAll children)) ∧
      (before ++ after).Perm (pairsOf (preorderBefore context ++ preorderAfter context))

theorem traverses_visits (tree : Rose α) : Traverses tree tree.visits where
  bracketed := by
    have closed := bracketed_visits_append .nil tree
    rw [List.append_nil] at closed
    exact closed
  once := visits_perm tree
  nested := by
    intro context value children place
    refine ⟨visitsBefore context, visitsAll children, visitsAfter context, ?_, ?_, ?_⟩
    · rw [← place, visits_fill, visits, List.cons_append, List.append_assoc,
        List.singleton_append]
    · exact visitsAll_perm children
    · exact visitsBefore_append_visitsAfter_perm context (.node value children)

/-- The loop over a tree ends after two rounds for each node, and not before.  It
produces the steps of the recursion, in which the pairs of the nodes are nested as the
nodes are; in a tree without repetitions it takes no step twice. -/
theorem walk_traverses (tree : Rose α) :
    (∀ count, count < 2 * tree.size →
      ((round Array.push)^[count] (#[], [.explore tree])).2 ≠ []) ∧
      (round Array.push)^[2 * tree.size] (#[], [.explore tree]) = (tree.walk.toArray, []) ∧
      tree.walk = tree.visits ∧ Traverses tree tree.walk ∧
      (tree.preorder.Nodup → tree.walk.Nodup) := by
  have recursion := walk_eq_visits tree
  refine ⟨?_, ?_, recursion, ?_, ?_⟩
  · intro count early
    exact agenda_ne_nil Array.push early #[]
  · rw [rounds_eq_guide, walk, Array.toArray_toList]
  · exact recursion ▸ traverses_visits tree
  · intro distinct
    rw [recursion]
    exact (visits_perm tree).nodup_iff.mpr (nodup_pairsOf distinct)

/-- A node between two siblings, with two nodes below it. -/
def branching : Rose Nat :=
  node 0 [node 1 [], node 2 [node 3 [], node 4 []], node 5 []]

theorem walk_traverses_branching :
    branching.preorder.Nodup ∧
      branching.walk = [.enter 0, .enter 1, .leave 1, .enter 2, .enter 3, .leave 3, .enter 4,
        .leave 4, .leave 2, .enter 5, .leave 5, .leave 0] ∧
      branching.walk.Nodup := by
  have distinct : branching.preorder.Nodup := by decide
  have traversal := walk_traverses branching
  exact ⟨distinct, traversal.2.2.1.trans rfl, traversal.2.2.2.2 distinct⟩

end Rose

end CallbackLint
